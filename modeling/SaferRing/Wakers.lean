import SaferRing.Owned

/-!
# Who registers a waker

A future that answers `Pending` registers its waker under the id of its operation, and takes it
back when it resolves. Nothing else that a ring goes through registers one
(`SaferRing.Ring.RegistersNone`, `SaferRing.Step.registersNone`). What a poll does to the wakers
is `SaferRing.OwnedFuture.wakers_poll` for the futures of the owned interface, and
`SaferRing.OperationFuture.wakers_poll` for those of the legacy one, which are defined here: they
take their wakers back when they are dropped, too.
-/

namespace SaferRing

/-! ### What registers no waker -/

namespace Ring

variable {s t u : Ring} {id count : ℕ} {fail : Option SaferRingError}
  {cached : List (ℕ × IoResult)}

/-- The wakers registered. -/
abbrev wakers (ring : Ring) : HashMap Waker := ring.wakerRegistry.wakers

/-- **No waker is registered** on the way from one ring to another. -/
def RegistersNone (s t : Ring) : Prop := ∀ id, id ∈ t.wakers → id ∈ s.wakers

namespace RegistersNone

theorem of_eq (h : t.wakerRegistry = s.wakerRegistry) : s.RegistersNone t :=
  fun id hid => by rwa [wakers, ← h]

theorem trans (h : s.RegistersNone t) (h' : t.RegistersNone u) : s.RegistersNone u :=
  fun id hid => h id (h' id hid)

end RegistersNone

/-- Who is woken loses the waker. -/
theorem registersNone_wakeOperation (s : Ring) (id : ℕ) : s.RegistersNone (s.wakeOperation id) := by
  intro j hj
  unfold wakeOperation WakerRegistry.wakeOperation at hj
  split at hj
  · exact (AList.mem_erase.mp hj).2
  · exact hj

/-- A waker is forgotten. -/
theorem mem_removeWaker {j : ℕ} : j ∈ (s.removeWaker id).wakers ↔ j ≠ id ∧ j ∈ s.wakers :=
  AList.mem_erase

/-- A waker is registered. -/
theorem mem_registerWaker {j : ℕ} {waker : Waker} :
    j ∈ (s.registerWaker id waker).wakers ↔ j = id ∨ j ∈ s.wakers :=
  AList.mem_insert _

/-- What every step of a loop keeps, the loop keeps. -/
theorem registersNone_foldl {α β : Type} {f : β × Ring → α → β × Ring}
    (h : ∀ (acc : β × Ring) a, acc.2.RegistersNone (f acc a).2) (l : List α) (acc : β × Ring) :
    acc.2.RegistersNone (l.foldl f acc).2 :=
  List.foldlRecOn (motive := fun r => acc.2.RegistersNone r.2) l f (.of_eq rfl)
    fun r hr a _ => hr.trans (h r a)

/-- Handing completions to their operations wakes who waits for them. -/
theorem registersNone_processCompletedOperations (ring : Ring)
    (completions : List (ℕ × IoResult)) :
    ring.RegistersNone (ring.processCompletedOperations completions).2 := by
  refine processCompletedOperations_induction (P := fun next => ring.RegistersNone next)
    (fun next k _ h => h.trans ?_) ring (.of_eq rfl)
  let removed : Ring := { next with operations := (next.operations.completeOperation k).2 }
  exact registersNone_wakeOperation removed k

/-- Emptying the cache and asking the backend. -/
theorem registersNone_processCompletionQueue {wait : Bool}
    {a : Except SaferRingError (List CompletionResult)}
    (h : s.processCompletionQueue wait cached fail = .returned (a, t)) : s.RegistersNone t := by
  rcases processCompletionQueue_cases h with ⟨_, -, -, rfl⟩ | ⟨b, completions, -, hcall⟩
  · exact .of_eq rfl
  · let ring : Ring := { s with completionCache := ∅, backend := b }
    have hkeeps := ring.registersNone_processCompletedOperations completions
    rw [hcall] at hkeeps
    exact hkeeps

/-- `try_complete`. -/
theorem registersNone_tryComplete {a : Except SaferRingError (List CompletionResult)}
    (h : s.tryComplete cached fail = .returned (a, t)) : s.RegistersNone t :=
  registersNone_processCompletionQueue h

/-- `wait_for_completion`. -/
theorem registersNone_waitForCompletion {a : Except SaferRingError (List CompletionResult)}
    (h : s.waitForCompletion cached fail = .returned (a, t)) : s.RegistersNone t := by
  rcases waitForCompletion_cases h with rfl | h
  · exact .of_eq rfl
  · exact registersNone_processCompletionQueue h

/-- Taking one completion wakes who waits for it. -/
theorem registersNone_collectCompletion (id : ℕ) (acc : Option IoResult × Ring)
    (c : ℕ × IoResult) : acc.2.RegistersNone (collectCompletion id acc c).2 := by
  simp only [collectCompletion]
  split
  · split
    · let removed : Ring :=
        { acc.2 with operations := (acc.2.operations.completeOperation c.1).2 }
      exact registersNone_wakeOperation removed c.1
    · let inserted : Ring :=
        { acc.2 with completionCache := acc.2.completionCache.insert c.1 c.2 }
      exact registersNone_wakeOperation inserted c.1
  · exact .of_eq rfl

/-- `try_complete_by_id`. -/
theorem registersNone_tryCompleteById {a : Except SaferRingError (Option IoResult)}
    (h : s.tryCompleteById id count fail = .returned (a, t)) : s.RegistersNone t := by
  rcases tryCompleteById_cases h with ⟨_, -, -, rfl⟩ | ⟨_, -, -, -, rfl⟩ | ⟨-, -, -, rfl⟩
  · let removed : Ring := { s with
      completionCache := s.completionCache.erase id
      operations := (s.operations.completeOperation id).2 }
    exact registersNone_wakeOperation removed id
  · exact .of_eq rfl
  · exact registersNone_foldl (registersNone_collectCompletion id) s.backend.waiting
      (none, { s with backend := s.backend.drained })

/-- Looking for one completion wakes who waits for the others. -/
theorem registersNone_findCompletion (id : ℕ) (ring : Ring) (completions : List (ℕ × IoResult)) :
    ring.RegistersNone (findCompletion id ring completions).2 := by
  induction completions generalizing ring with
  | nil => exact .of_eq rfl
  | cons c rest ih =>
    rw [findCompletion]
    split
    · exact .of_eq rfl
    · exact (ring.registersNone_wakeOperation c.1).trans (ih (ring.wakeOperation c.1))

/-- `poll_operation_completion`. -/
theorem registersNone_pollOperationCompletion (s : Ring) (id : ℕ)
    (fail : Option SaferRingError) : s.RegistersNone (s.pollOperationCompletion id fail).2 := by
  rcases fail with _ | e
  · exact registersNone_findCompletion id { s with backend := s.backend.drained }
      s.backend.waiting
  · exact .of_eq rfl

/-- Routing one completion wakes who waits for it. -/
theorem registersNone_routeCompletion (id : ℕ) (acc : Option IoResult × Ring)
    (c : ℕ × IoResult) : acc.2.RegistersNone (routeCompletion id acc c).2 := by
  simp only [routeCompletion]
  split
  · split <;> exact .of_eq rfl
  · split
    · exact .of_eq rfl
    · let inserted : Ring := { acc.2 with
        completionCache := acc.2.completionCache.insert c.1 (copyResult c.2)
        orphanTracker := (acc.2.orphanTracker.handleCompletion c.1 c.2).2 }
      exact registersNone_wakeOperation inserted c.1

/-- Looking for an owned operation wakes who waits for the others. -/
theorem registersNone_drainFor (s : Ring) (id : ℕ) : s.RegistersNone (s.drainFor id).2 :=
  registersNone_foldl (registersNone_routeCompletion id) s.backend.waiting
    (none, { s with backend := s.backend.drained })

/-- Submitting a batch registers none. -/
theorem wakerRegistry_submitBatch (s : Ring) (batch : Batch) (config : BatchConfig)
    (answers : ℕ → Except SaferRingError Unit) :
    (s.submitBatchStandaloneWithConfig batch config answers).2.wakerRegistry =
      s.wakerRegistry := by
  obtain ⟨_, -, hsame⟩ : ∃ k ≤ batch.len,
      (s.submitBatchStandaloneWithConfig batch config answers).2.wakerRegistry =
        s.wakerRegistry :=
    submitBatch_invariant (P := fun _ ring => ring.wakerRegistry = s.wakerRegistry)
      (fun k operation ring _ _ _ h => (ring.submit_frame operation (answers k)).1.trans h) rfl
  exact hsame

/-- A poll of a batch registers none. -/
theorem registersNone_pollWithRing {future polled : StandaloneBatchFuture} {waker : Waker}
    {answer : Poll (Except SaferRingError BatchResult)}
    (h : future.pollWithRing s waker cached fail = .returned (answer, polled, t)) :
    s.RegistersNone t := by
  rcases StandaloneBatchFuture.pollWithRing_returned h with
    ⟨-, -, -, rfl⟩ | ⟨hdone, e | completions, ring, hcall⟩
  · exact .of_eq rfl
  · rcases StandaloneBatchFuture.pollWithRing_cases waker hdone hcall with
      ⟨_, -, hpoll⟩ | ⟨_, ha, -⟩
    · rw [hpoll] at h
      cases h
      exact registersNone_tryComplete hcall
    · exact absurd ha (by simp)
  · have hring := registersNone_tryComplete hcall
    rw [StandaloneBatchFuture.pollWithRing_ok waker hdone hcall] at h
    split at h
    · cases h
      exact hring
    · split at h
      · cases h
        exact hring
      · -- the poll may wake its own task, which no one registered
        cases h
        refine fun id hid => hring id ?_
        dsimp only [wakers] at hid
        split at hid <;> exact hid

/-- A batch that is dropped takes wakers back. -/
theorem registersNone_dropBatch (future : StandaloneBatchFuture) (s : Ring) :
    s.RegistersNone (future.drop s) := by
  have hfold : ∀ (ids : List ℕ) (registry : WakerRegistry) (id : ℕ),
      id ∈ (ids.foldl (fun registry id => (registry.removeWaker id).2) registry).wakers →
      id ∈ registry.wakers := by
    intro ids
    induction ids with
    | nil => exact fun _ _ hid => hid
    | cons k ids ih =>
      exact fun registry id hid => (AList.mem_erase.mp (ih (registry.removeWaker k).2 id hid)).2
  exact fun id hid => hfold _ s.wakerRegistry id hid

end Ring

/-! ### What a step registers -/

section Steps

variable {w w' : World} {e : Event}

/-- Dropping an owned future takes no waker back. -/
theorem OwnedFuture.wakerRegistry_drop (future : OwnedFuture) (ring : Ring) :
    (future.drop ring).wakerRegistry = ring.wakerRegistry := by
  unfold drop
  split <;> rfl

/-- **Only a poll of an owned future registers a waker**, of all that can happen to a world. -/
theorem Step.registersNone (hstep : Step w e w')
    (hnot : ∀ f waker fail, e.action ≠ .pollFuture f waker fail) :
    w.ring.RegistersNone w'.ring := by
  obtain ⟨action, response⟩ := e
  cases action with
  | owned call i answer =>
    obtain ⟨_, -, ⟨-, -, rfl⟩ | ⟨-, rfl⟩⟩ := hstep.owned <;> exact .of_eq rfl
  | acceptSafe fd addr answer =>
    rcases hstep.acceptSafe with ⟨-, rfl⟩ | ⟨_, -, rfl⟩ <;> exact .of_eq rfl
  | pollFuture f waker fail => exact absurd rfl (hnot f waker fail)
  | dropFuture f =>
    obtain ⟨future, -, rfl⟩ := hstep.dropFuture
    exact .of_eq (future.wakerRegistry_drop w.ring)
  | submit operation answer =>
    obtain ⟨-, rfl⟩ := Prod.mk.inj (Option.some.inj hstep)
    exact .of_eq (w.ring.submit_frame operation answer).1
  | submitBatch batch config answers =>
    have hwakers := w.ring.wakerRegistry_submitBatch batch config answers
    obtain ⟨_, _, hcall, hwhat⟩ := hstep.submitBatch
    rw [hcall] at hwakers
    obtain ⟨_, -, rfl⟩ | ⟨_, -, rfl⟩ := hwhat <;> exact .of_eq hwakers
  | pollBatch b waker cached fail =>
    obtain ⟨-, _, _, _, _, -, hpoll, -, rfl⟩ := hstep.pollBatch
    exact Ring.registersNone_pollWithRing hpoll
  | dropBatch b =>
    obtain ⟨future, -, rfl⟩ := hstep.dropBatch
    exact Ring.registersNone_dropBatch future w.ring
  | tryComplete cached fail =>
    obtain ⟨_, _, hcall, rfl⟩ := hstep.tryComplete
    exact Ring.registersNone_tryComplete hcall
  | waitForCompletion cached fail =>
    obtain ⟨_, _, hcall, rfl⟩ := hstep.waitForCompletion
    exact Ring.registersNone_waitForCompletion hcall
  | tryCompleteById id count fail =>
    obtain ⟨_, _, hcall, rfl⟩ := hstep.tryCompleteById
    exact Ring.registersNone_tryCompleteById hcall
  | pollOperationCompletion id fail =>
    obtain ⟨-, rfl⟩ := Prod.mk.inj (Option.some.inj hstep)
    exact w.ring.registersNone_pollOperationCompletion id fail
  | processCompletions =>
    obtain ⟨-, rfl⟩ := Prod.mk.inj (Option.some.inj hstep)
    exact .of_eq rfl
  | complete i result =>
    obtain ⟨_, -, rfl⟩ := hstep.complete
    exact .of_eq rfl
  | newBuffer | fromSlice | cloneHandle | dropHandle | dropGuard | tryAccess =>
    rw [hstep.buffer trivial]
    exact .of_eq rfl

/-- **An operation stays with its future** until that is polled or dropped. -/
theorem Step.operationAt_kept (hstep : Step w e w') {f : ℕ} {op : SafeOperation}
    (hpoll : ∀ f waker fail, e.action ≠ .pollFuture f waker fail)
    (hdrop : ∀ f, e.action ≠ .dropFuture f) (hop : operationAt w.futures f = some op) :
    operationAt w'.futures f = some op := by
  have hplace : f ≠ w.futures.length := by
    rintro rfl
    rw [operationAt, List.getElem?_eq_none (le_refl _)] at hop
    exact absurd hop (by simp)
  have happend : ∀ future : OwnedFuture,
      operationAt (w.futures ++ [some future]) f = some op := by
    intro future
    rw [operationAt_append, if_neg hplace, hop]
  by_cases hown : e.action.IsOwned
  swap
  · rw [legacy_frame hstep hown]
    exact hop
  obtain ⟨action, response⟩ := e
  cases action with
  | owned call i answer =>
    obtain ⟨_, -, ⟨-, -, rfl⟩ | ⟨-, rfl⟩⟩ := hstep.owned <;> exact happend _
  | acceptSafe fd addr answer =>
    rcases hstep.acceptSafe with ⟨-, rfl⟩ | ⟨_, -, rfl⟩ <;> exact happend _
  | pollFuture f waker fail => exact absurd rfl (hpoll f waker fail)
  | dropFuture f => exact absurd rfl (hdrop f)
  | complete i result =>
    obtain ⟨_, -, rfl⟩ := hstep.complete
    exact hop
  | newBuffer | fromSlice | cloneHandle | dropHandle | dropGuard | tryAccess =>
    rw [hstep.buffer trivial]
    exact hop
  | _ => exact absurd hown (by simp [Action.IsOwned])

end Steps

/-! ### What a poll registers -/

section Polls

variable {op : SafeOperation} {b : OwnedBuffer} {ring ring' : Ring} {waker : Waker}
  {fail : Option SaferRingError}

/-- **A poll of an operation registers its waker and answers `Pending`, or takes it back** – but
that of a submission that failed, which never registered one. -/
theorem wakers_pollOperation (texts : FutureTexts) (hb : op.buffer = some b) (ring : Ring)
    (waker : Waker) (fail : Option SaferRingError) :
    (pollOperation texts (some op) ring waker fail).1 = .pending ∧
        (pollOperation texts (some op) ring waker fail).2.1 = some op ∧ op.completed = false ∧
        (∀ id, id ∈ (pollOperation texts (some op) ring waker fail).2.2.wakers →
          id = op.submissionId ∨ id ∈ ring.wakers) ∨
      (pollOperation texts (some op) ring waker fail).1 ≠ .pending ∧
        (pollOperation texts (some op) ring waker fail).2.1 = none ∧
        ∀ id, id ∈ (pollOperation texts (some op) ring waker fail).2.2.wakers →
          id ∈ ring.wakers ∧ (op.completed = false → id ≠ op.submissionId) := by
  rcases hc : op.completed with _ | _
  swap
  · have hfailed : (op.completed && op.buffer.isSome) = true := by
      rw [hc, hb]
      rfl
    rw [pollOperation, if_pos hfailed]
    exact Or.inr ⟨by simp, rfl, fun id hid => ⟨hid, fun h => absurd h (by simp)⟩⟩
  have hdrain := ring.registersNone_drainFor op.submissionId
  rcases pollOperation_cases texts hc hb ring waker fail with
    ⟨_, -, h⟩ | ⟨_, -, -, h⟩ | ⟨-, -, ⟨_, -, h⟩ | ⟨-, h⟩⟩
  · rw [h]
    refine Or.inr ⟨by simp, rfl, fun id hid => ?_⟩
    obtain ⟨hne, hid⟩ := Ring.mem_removeWaker.mp hid
    exact ⟨hid, fun _ => hne⟩
  · rw [h]
    refine Or.inr ⟨by simp, rfl, fun id hid => ?_⟩
    obtain ⟨hne, hid⟩ := Ring.mem_removeWaker.mp hid
    exact ⟨hid, fun _ => hne⟩
  · rw [h]
    refine Or.inr ⟨by simp, rfl, fun id hid => ?_⟩
    obtain ⟨hne, hid⟩ := Ring.mem_removeWaker.mp hid
    exact ⟨hdrain id hid, fun _ => hne⟩
  · rw [h]
    exact Or.inl ⟨rfl, rfl, rfl, fun id hid => (Ring.mem_registerWaker.mp hid).imp_right
      (hdrain id)⟩

/-- **The same of a future.** -/
theorem OwnedFuture.wakers_poll {future polled : OwnedFuture} {answer : Poll SafeOutput}
    (hbuf : ∀ op, future.operation = some op → ∃ b, op.buffer = some b)
    (hpoll : future.poll ring waker fail = some (answer, polled, ring')) :
    answer = .pending ∧ (∃ op, future.operation = some op ∧ polled.operation = some op ∧
        op.completed = false ∧
        ∀ id, id ∈ ring'.wakers → id = op.submissionId ∨ id ∈ ring.wakers) ∨
      answer ≠ .pending ∧ polled.operation = none ∧ ∀ id, id ∈ ring'.wakers →
        id ∈ ring.wakers ∧
          ∀ op, future.operation = some op → op.completed = false → id ≠ op.submissionId := by
  rcases hop : future.operation with _ | op
  · -- a future that is done has no waker to take back
    obtain ⟨rfl, hnone⟩ := poll_of_not_live (fun op h => absurd (hop.symm.trans h) (by simp)) hpoll
    refine Or.inr ⟨?_, hnone, fun id hid => ⟨hid, fun op h => absurd h (by simp)⟩⟩
    rintro rfl
    cases future with
    | safe future =>
      have hnone : future.operation = none := hop
      simp [poll, SafeOperationFuture.poll, hnone, pollOperation] at hpoll
    | accept future =>
      have hnone : future.operation = none := hop
      simp [poll, hnone] at hpoll
  · obtain ⟨b, hb⟩ := hbuf op hop
    rw [poll_eq hop] at hpoll
    obtain ⟨rfl, rfl, rfl⟩ : _ = answer ∧ _ = polled ∧ _ = ring' := by simpa using hpoll
    rcases wakers_pollOperation future.texts hb ring waker fail with
      ⟨hpending, hstays, hlive, hids⟩ | ⟨hready, hgone, hids⟩
    · refine Or.inl ⟨hpending, op, rfl, ?_, hlive, hids⟩
      rw [operation_withOperation, hstays]
    · refine Or.inr ⟨hready, ?_, fun id hid => ⟨(hids id hid).1, ?_⟩⟩
      · rw [operation_withOperation, hgone]
      · rintro _ hsame hlive
        obtain rfl := Option.some.inj hsame
        exact (hids id hid).2 hlive

end Polls

/-! ### The generic future of the legacy interface -/

/-- Whether a poll answered `Pending`. -/
def Poll.isPending {α : Type} : Poll α → Bool
  | .pending => true
  | .ready _ => false

/-- The error a legacy future resolves to. -/
inductive OperationError
  /-- Of the operation. -/
  | io (e : IoError)
  /-- Of looking for its completion: “Error checking operation completion”, and what it
  prints. -/
  | checking (e : SaferRingError)
  deriving DecidableEq

/-- **The future of any legacy operation.** -/
structure OperationFuture where
  /-- The operation, until the future is done. -/
  operation : Option (Operation Submitted)
  deriving DecidableEq

namespace OperationFuture

/-- What it resolves to: the raw result, and the buffer when it is a pinned slice. -/
abbrev Output := Except OperationError (ℤ × Option Slice)

/-- `Ring::submit_operation`. -/
def submitOperation (ring : Ring) (operation : Operation Building)
    (answer : Except SaferRingError Unit) : Except SaferRingError OperationFuture × Ring :=
  match ring.submit operation answer with
  | (.error e, ring) => (.error e, ring)
  | (.ok submitted, ring) => (.ok ⟨some submitted⟩, ring)

variable (self : OperationFuture)

/-- What a completion makes of a future. -/
def settle (operation : Operation Submitted) (result : IoResult) : Output :=
  let buffer :=
    match operation.buffer with
    | .pinned buf => some buf
    | _ => none
  match result with
  | .ok bytes => .ok (bytes, buffer)
  | .error e => .error (.io e)

/-- **Poll the future**, which panics once it is done. When looking for the completion fails, the
operation stays in it. -/
def poll (ring : Ring) (count : ℕ) (waker : Waker) (fail : Option SaferRingError) :
    Outcome (Poll Output × OperationFuture × Ring) :=
  match self.operation with
  | none => .panicked
  | some operation =>
    (ring.tryCompleteById operation.state.id count fail).map fun (answer, ring) =>
      match answer with
      | .ok (some result) =>
        (.ready (settle operation result), ⟨none⟩, ring.removeWaker operation.state.id)
      | .ok none => (.pending, self, ring.registerWaker operation.state.id waker)
      | .error e => (.ready (.error (.checking e)), self, ring.removeWaker operation.state.id)

/-- Dropping the future takes its waker back, as long as it is not done. -/
def drop (ring : Ring) : Ring :=
  match self.operation with
  | some operation => ring.removeWaker operation.state.id
  | none => ring

variable {self} {polled : OperationFuture} {ring ring' : Ring} {answer : Poll Output}

/-- **A poll registers the waker of its operation and answers `Pending`, or takes it back.** -/
theorem wakers_poll {count : ℕ} {waker : Waker} {fail : Option SaferRingError}
    (hpoll : self.poll ring count waker fail = .returned (answer, polled, ring')) :
    ∃ op, self.operation = some op ∧
      (answer.isPending = true ∧ polled.operation = some op ∧
          (∀ id, id ∈ ring'.wakers → id = op.state.id ∨ id ∈ ring.wakers) ∨
        answer.isPending = false ∧
          ∀ id, id ∈ ring'.wakers → id ∈ ring.wakers ∧ id ≠ op.state.id) := by
  rcases hop : self.operation with _ | op
  · simp [poll, hop] at hpoll
  refine ⟨op, rfl, ?_⟩
  rcases hcall : ring.tryCompleteById op.state.id count fail with ⟨a, next⟩ | _ | _
  · have hnone := Ring.registersNone_tryCompleteById hcall
    simp only [poll, hop, hcall, Outcome.map] at hpoll
    obtain hpoll := Outcome.returned.inj hpoll
    rcases a with e | _ | result
    · cases hpoll
      refine Or.inr ⟨rfl, fun id hid => ?_⟩
      obtain ⟨hne, hid⟩ := Ring.mem_removeWaker.mp hid
      exact ⟨hnone id hid, hne⟩
    · cases hpoll
      exact Or.inl ⟨rfl, hop, fun id hid => (Ring.mem_registerWaker.mp hid).imp_right (hnone id)⟩
    · cases hpoll
      refine Or.inr ⟨rfl, fun id hid => ?_⟩
      obtain ⟨hne, hid⟩ := Ring.mem_removeWaker.mp hid
      exact ⟨hnone id hid, hne⟩
  · simp [poll, hop, hcall, Outcome.map] at hpoll
  · simp [poll, hop, hcall, Outcome.map] at hpoll

end OperationFuture

end SaferRing
