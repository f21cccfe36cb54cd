import SaferRing.Backend
import SaferRing.Safety

/-!
# The ring

A `SaferRing.Ring` puts together a backend, the tracker of the legacy operations,
the wakers of the futures waiting, the tracker of the orphans and a cache of
completions that were handed over to somebody else than who waits for them.

This file has the state and the legacy submission, `SaferRing.Ring.submit`; the
calls that hand completions over are in `SaferRing.Completion`, the owned interface
in `SaferRing.SafeOperations`. What the ring leaves to the backend's answer is an
argument of the call: `answer` for a submission, `fail` for a call that collects
completions.
-/

namespace SaferRing

/-! ### Wakers -/

/-- A waker, by the task it wakes. -/
abbrev Waker := ℕ

/-- **The wakers of the futures waiting**, by operation id. -/
structure WakerRegistry where
  /-- The wakers. -/
  wakers : HashMap Waker
  /-- History: the tasks woken, in order. -/
  woken : List Waker

namespace WakerRegistry

/-- A registry without wakers. -/
def new : WakerRegistry := ⟨∅, []⟩

variable (self : WakerRegistry)

/-- Register a waker, in place of the one there was. -/
def registerWaker (operationId : ℕ) (waker : Waker) : WakerRegistry :=
  { self with wakers := self.wakers.insert operationId waker }

/-- Wake whoever waits for an operation, once. -/
def wakeOperation (operationId : ℕ) : Bool × WakerRegistry :=
  match self.wakers.lookup operationId with
  | some waker =>
    (true, { wakers := self.wakers.erase operationId, woken := self.woken ++ [waker] })
  | none => (false, self)

/-- Wake a task that is there to be woken. -/
def wake (waker : Waker) : WakerRegistry := { self with woken := self.woken ++ [waker] }

/-- Forget a waker without waking it. -/
def removeWaker (operationId : ℕ) : Bool × WakerRegistry :=
  (decide (operationId ∈ self.wakers), { self with wakers := self.wakers.erase operationId })

end WakerRegistry

/-! ### The state -/

/-- **The state of a ring.** -/
structure Ring where
  /-- The backend. -/
  backend : Backend
  /-- The legacy operations in flight. -/
  operations : OperationTracker
  /-- The wakers of the futures waiting. -/
  wakerRegistry : WakerRegistry
  /-- The orphans. -/
  orphanTracker : OrphanTracker
  /-- Completions handed over, for whoever asks for them next. -/
  completionCache : HashMap IoResult

namespace Ring

/-- A ring over a backend nothing was submitted to. -/
def new : Ring := ⟨.new, .new, .new, .new, ∅⟩

variable (self : Ring)

/-- Wake whoever waits for an operation. -/
def wakeOperation (operationId : ℕ) : Ring :=
  { self with wakerRegistry := (self.wakerRegistry.wakeOperation operationId).2 }

/-- The cached result of an operation. -/
abbrev cached (id : ℕ) : Option IoResult := self.completionCache.lookup id

/-- The buffer kept for an orphan. -/
abbrev orphan (id : ℕ) : Option OwnedBuffer := self.orphanTracker.orphan id

/-- The ring once its backend accepted an operation. -/
def accepted (request : Request) : Ring := { self with backend := self.backend.accepted request }

/-- Hand an operation to the backend. -/
def submitOperation (request : Request) (answer : Except SaferRingError Unit) :
    Except SaferRingError Unit × Ring :=
  let (result, backend) := self.backend.submitOperation request answer
  (result, { self with backend })

/-! ### Legacy submission -/

/-- The arguments a legacy operation is handed to the backend with. -/
def legacyRequest (operation : Operation Submitted) : Request :=
  let (bufferPtr, bufferLen) :=
    match operation.bufferInfo with
    | some (ptr, len) => (ptr, len)
    | none => (none, 0)
  ⟨operation.opType, operation.getFd, operation.offset, bufferPtr, bufferLen,
    operation.state.id, .legacy⟩

/-- Hand a legacy operation to the backend. -/
def submitToBackend (operation : Operation Submitted) (answer : Except SaferRingError Unit) :
    Except SaferRingError Unit × Ring :=
  self.submitOperation (legacyRequest operation) answer

/-- The ring once a legacy operation is tracked, under the id drawn for it. -/
def tracking (operation : Operation Building) : Ring :=
  { self with
    operations := (self.operations.registerOperation operation.opType operation.getFd).2 }

/-- **Submit a legacy operation**: check it, draw an id and track it, and hand it to
the backend. When the backend refuses, the operation stays tracked. -/
def submit (operation : Operation Building) (answer : Except SaferRingError Unit) :
    Except SaferRingError (Operation Submitted) × Ring :=
  match operation.validate with
  | .error msg => (.error (.ioNew .invalidInput msg), self)
  | .ok () =>
    let (id, operations) := self.operations.registerOperation operation.opType operation.getFd
    let ring := { self with operations }
    match operation.submitWithId id with
    | .error msg =>
      (.error (.ioNew .invalidInput msg),
        { ring with operations := (ring.operations.completeOperation id).2 })
    | .ok submitted =>
      match ring.submitToBackend submitted answer with
      | (.error e, ring) => (.error e, ring)
      | (.ok (), ring) => (.ok submitted, ring)

/-! ### Monitoring -/

/-- The number of legacy operations tracked. -/
def operationsInFlight : ℕ := self.operations.count

/-- Whether legacy operations are tracked. -/
def hasOperationsInFlight : Bool := self.operations.hasOperations

/-- The number of orphans. -/
def orphanCount : ℕ := self.orphanTracker.orphanCount

/-- **`process_completions`**: in spite of its name it looks at no completion, and
lets go of every orphan. -/
def processCompletions : Except SaferRingError ℕ × Ring :=
  let (count, orphanTracker) := self.orphanTracker.cleanupAllOrphans
  (.ok count, { self with orphanTracker })

/-! ### What a submission does -/

variable {self} {operation : Operation Building} {answer : Except SaferRingError Unit}

section WakeOperation

variable (self) (id : ℕ)

@[simp] theorem operations_wakeOperation :
    (self.wakeOperation id).operations = self.operations := rfl

end WakeOperation

@[simp] theorem userData_legacyRequest (op : Operation Submitted) :
    (legacyRequest op).userData = op.state.id := by
  unfold legacyRequest
  split
  rfl

@[simp] theorem caller_legacyRequest (op : Operation Submitted) :
    (legacyRequest op).caller = .legacy := by
  unfold legacyRequest
  split
  rfl

/-- **What a submission can do**: fail the check and change nothing; be refused, and
stay tracked; be accepted, and be in flight under the id drawn. -/
theorem submit_cases (self : Ring) (operation : Operation Building)
    (answer : Except SaferRingError Unit) :
    (∃ msg, operation.validate = .error msg ∧
      self.submit operation answer = (.error (.ioNew .invalidInput msg), self)) ∨
    (∃ e, answer = .error e ∧ operation.validate = .ok () ∧
      self.submit operation answer = (.error e, self.tracking operation)) ∨
    (answer = .ok () ∧ operation.validate = .ok () ∧
      self.submit operation answer =
        (.ok { operation with state := ⟨self.operations.nextId⟩ },
          (self.tracking operation).accepted
            (legacyRequest { operation with state := ⟨self.operations.nextId⟩ }))) := by
  rcases hv : operation.validate with msg | ⟨⟨⟩⟩
  · refine Or.inl ⟨msg, rfl, ?_⟩
    rw [submit, hv]
  · have hs := Operation.submitWithId_of_validate hv self.operations.nextId
    rcases answer with e | ⟨⟨⟩⟩
    · refine Or.inr (Or.inl ⟨e, rfl, rfl, ?_⟩)
      simp only [submit, hv, OperationTracker.registerOperation,
        OperationTracker.registerOperationWithBuffer, hs]
      rfl
    · refine Or.inr (Or.inr ⟨rfl, rfl, ?_⟩)
      simp only [submit, hv, OperationTracker.registerOperation,
        OperationTracker.registerOperationWithBuffer, hs]
      rfl

/-- **What a submission leaves alone**, whatever comes of it: the wakers, the orphans, what is
cached, and what was handed over. -/
theorem submit_frame (self : Ring) (operation : Operation Building)
    (answer : Except SaferRingError Unit) :
    (self.submit operation answer).2.wakerRegistry = self.wakerRegistry ∧
      (self.submit operation answer).2.orphanTracker = self.orphanTracker ∧
      (self.submit operation answer).2.completionCache = self.completionCache ∧
      (self.submit operation answer).2.backend.delivered = self.backend.delivered := by
  rcases self.submit_cases operation answer with ⟨_, -, h⟩ | ⟨_, -, -, h⟩ | ⟨-, -, h⟩
  all_goals
    rw [h]
    exact ⟨rfl, rfl, rfl, rfl⟩

end Ring

end SaferRing
