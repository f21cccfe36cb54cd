import SaferRing.Batch.Validation
import SaferRing.Completion

/-!
# Batches of operations

A batch is submitted operation by operation through `SaferRing.Ring.submit`
(`SaferRing.Ring.submitBatchStandaloneWithConfig`), and what comes of it is a
`SaferRing.StandaloneBatchFuture`, which knows the ids of its operations and holds
no ring. Polled with one, it asks the ring for *all* completions there are and keeps
those whose ids it knows (`SaferRing.StandaloneBatchFuture.recordCompletion`).

The two facts the rest of the development uses are
`SaferRing.StandaloneBatchFuture.pollWithRing_cases`, what a poll can do, and
`SaferRing.Ring.submitBatch_invariant`, an induction rule for the submission of a batch.
-/

namespace SaferRing

/-! ### Results -/

/-- The result of one operation of a batch. -/
inductive OperationResult
  /-- It succeeded. -/
  | success (value : ℤ)
  /-- It failed, with the text of the error. -/
  | error (message : ErrorText)
  /-- It was given up. -/
  | cancelled
  deriving DecidableEq, Repr

namespace OperationResult

/-- Whether the operation succeeded. -/
def isSuccess : OperationResult → Bool
  | .success _ => true
  | _ => false

/-- Whether the operation failed. -/
def isError : OperationResult → Bool
  | .error _ => true
  | _ => false

/-- The result a completion gives. -/
def ofCompletion : IoResult → OperationResult
  | .ok bytes => .success bytes
  | .error e => .error e.toText

end OperationResult

/-- The results of a batch. -/
structure BatchResult where
  /-- The results, by position in the batch. -/
  results : List OperationResult
  /-- How many operations succeeded. -/
  successfulCount : ℕ
  /-- How many failed. -/
  failedCount : ℕ
  deriving DecidableEq, Repr

/-- The results of a batch, counted. -/
def BatchResult.new (results : List OperationResult) : BatchResult :=
  ⟨results, (results.filter OperationResult.isSuccess).length,
    (results.filter OperationResult.isError).length⟩

/-! ### Batches -/

/-- **A batch of operations**, with the operations each depends on. -/
structure Batch where
  /-- The operations. -/
  operations : List (Operation Building)
  /-- The dependencies, by position. -/
  dependencies : HashMap (List ℕ)
  /-- How many operations the batch may hold. -/
  maxOperations : ℕ

namespace Batch

/-- An empty batch. -/
def new : Batch := ⟨[], ∅, 1024⟩

variable (self : Batch)

/-- Add an operation, and return its position. -/
def addOperation (operation : Operation Building) : Except SaferRingError ℕ × Batch :=
  if self.operations.length ≥ self.maxOperations then
    (.error (.ioNew .invalidInput s!"Batch is full (max {self.maxOperations} operations)"), self)
  else
    match operation.validate with
    | .error msg => (.error (.ioNew .invalidInput msg), self)
    | .ok () =>
      (.ok self.operations.length, { self with operations := self.operations ++ [operation] })

/-- The number of operations. -/
def len : ℕ := self.operations.length

/-- Whether the batch is empty. -/
def isEmpty : Bool := self.operations.isEmpty

/-- The positions in dependency order. -/
def dependencyOrder : Except SaferRingError (List ℕ) :=
  DependencyValidator.dependencyOrder self.dependencies self.operations.length

end Batch

/-- How a batch is submitted. -/
structure BatchConfig where
  /-- Whether one failure ends the batch. -/
  failFast : Bool
  /-- How many operations a batch may have. -/
  maxBatchSize : ℕ
  /-- Whether the dependencies are sorted. -/
  enforceDependencies : Bool
  deriving DecidableEq, Repr

/-- The configuration by default. -/
def BatchConfig.default : BatchConfig := ⟨false, 256, true⟩

/-! ### The future of a batch -/

/-- **The future of a batch**, without its ring. -/
structure StandaloneBatchFuture where
  /-- The ids of the operations, by position. -/
  operationIds : List (Option ℕ)
  /-- The results so far, by position. -/
  results : List (Option OperationResult)
  /-- The dependencies, by position. -/
  dependencies : HashMap (List ℕ)
  /-- Whether one failure ends the batch. -/
  failFast : Bool
  /-- Whether every operation has a result. -/
  completed : Bool
  /-- The position of each id. -/
  idToIndex : HashMap ℕ

namespace StandaloneBatchFuture

/-- Note the position of an id. -/
def indexId (map : HashMap ℕ) : Option ℕ × ℕ → HashMap ℕ
  | (some id, index) => map.insert id index
  | (none, _) => map

/-- The position of each id. -/
def indexIds (operationIds : List (Option ℕ)) : HashMap ℕ := operationIds.zipIdx.foldl indexId ∅

/-- The future of a batch just submitted. -/
def new (operationIds : List (Option ℕ)) (dependencies : HashMap (List ℕ)) (failFast : Bool) :
    StandaloneBatchFuture where
  operationIds
  results := operationIds.map fun _ => none
  dependencies
  failFast
  completed := false
  idToIndex := indexIds operationIds

variable (self : StandaloneBatchFuture)

/-- The result at a position, if there is one. -/
def resultAt (index : ℕ) : Option OperationResult := (self.results[index]?).join

/-- The results, with the operations that have none as cancelled. -/
def collectResults : BatchResult := .new (self.results.map fun r => r.getD .cancelled)

/-- What a poll has seen so far. -/
structure Progress where
  /-- The future. -/
  future : StandaloneBatchFuture
  /-- Whether an operation of the batch completed. -/
  anyCompleted : Bool
  /-- Whether one failed. -/
  anyFailed : Bool
  /-- The positions that completed. -/
  completedOperations : List ℕ

/-- **Record a completion**, if it is of an operation of the batch that has no
result. -/
def recordCompletion (progress : Progress) (completion : CompletionResult) : Progress :=
  match progress.future.idToIndex.lookup completion.operationId with
  | none => progress
  | some index =>
    if (progress.future.resultAt index).isSome then progress
    else
      let result := OperationResult.ofCompletion completion.result
      { future := { progress.future with
          results := progress.future.results.set index (some result) }
        anyCompleted := true
        anyFailed := progress.anyFailed || result.isError
        completedOperations := progress.completedOperations ++ [index] }

/-- Look at what depends on a completed operation, and find nothing to do: every
operation was submitted at once. -/
def checkReadyOperations (_completedIndex : ℕ) : StandaloneBatchFuture := self

/-- The operations that depend on an operation and were not visited. -/
def dependentsOf (dependencies : HashMap (List ℕ)) (visited : List ℕ) (current : ℕ) : List ℕ :=
  (dependencies.entries.filter fun entry =>
    decide (current ∈ entry.2) && decide (entry.1 ∉ visited)).map Sigma.fst

/-- The loop that finds what depends on a failed operation; `none` when it makes
more turns than allowed. -/
def cancelLoop (dependencies : HashMap (List ℕ)) :
    ℕ → (visited toCancel stack : List ℕ) → Option (List ℕ)
  | 0, _, _, _ => none
  | _ + 1, _, toCancel, [] => some toCancel
  | turns + 1, visited, toCancel, current :: stack =>
    if current ∈ visited then cancelLoop dependencies turns visited toCancel stack
    else
      let found := dependentsOf dependencies (current :: visited) current
      cancelLoop dependencies turns (current :: visited) (toCancel ++ found)
        (found.reverse ++ stack)

/-- The turns the loop needs at most. -/
def cancelTurns (dependencies : HashMap (List ℕ)) : ℕ :=
  (dependencies.keys.length + 1) * (dependencies.keys.length + 1) + 2

/-- The loop ends while it is allowed more turns than it can make: what is on the
stack, and one round over all operations for each that was not visited. -/
theorem cancelLoop_isSome {dependencies : HashMap (List ℕ)} {s : Finset ℕ}
    (hs : ∀ k ∈ dependencies.keys, k ∈ s) {turns : ℕ} {visited toCancel stack : List ℕ}
    (hstack : ∀ k ∈ stack, k ∈ s)
    (h : stack.length + (dependencies.keys.length + 1) * (s \ visited.toFinset).card < turns) :
    (cancelLoop dependencies turns visited toCancel stack).isSome := by
  induction turns generalizing visited toCancel stack with
  | zero => exact absurd h (Nat.not_lt_zero _)
  | succ turns ih =>
    rcases stack with _ | ⟨current, stack⟩
    · rfl
    have hrest : ∀ k ∈ stack, k ∈ s := fun k hk => hstack k (List.mem_cons_of_mem _ hk)
    rw [List.length_cons] at h
    rw [cancelLoop]
    by_cases hvis : current ∈ visited
    · rw [if_pos hvis]
      exact ih hrest (by omega)
    rw [if_neg hvis]
    have hkeys : ∀ k ∈ dependentsOf dependencies (current :: visited) current,
        k ∈ dependencies.keys := by
      intro k hk
      obtain ⟨entry, hentry, rfl⟩ := List.mem_map.mp hk
      exact List.mem_map_of_mem (List.mem_filter.mp hentry).1
    have hlen : (dependentsOf dependencies (current :: visited) current).length ≤
        dependencies.keys.length := by
      rw [dependentsOf, AList.keys, List.keys, List.length_map, List.length_map]
      exact List.length_filter_le _ _
    -- the node visited pays for one entry of the stack for each operation
    refine ih (fun k hk => ?_) ?_
    · rcases List.mem_append.mp hk with hk | hk
      · exact hs k (hkeys k (List.mem_reverse.mp hk))
      · exact hrest k hk
    · have hlt := card_sdiff_cons_lt (hstack current List.mem_cons_self) hvis
      have hmul := Nat.mul_le_mul_left (dependencies.keys.length + 1) (Nat.succ_le_of_lt hlt)
      rw [Nat.mul_succ] at hmul
      rw [List.length_append, List.length_reverse]
      omega

/-- **The turns allowed suffice.** -/
theorem cancelLoop_turns (dependencies : HashMap (List ℕ)) (failedIndex : ℕ) :
    (cancelLoop dependencies (cancelTurns dependencies) [] [] [failedIndex]).isSome := by
  refine cancelLoop_isSome (s := insert failedIndex dependencies.keys.toFinset)
    (fun k hk => by simp [hk]) (fun k hk => by simp_all) ?_
  have hcard : (insert failedIndex dependencies.keys.toFinset).card ≤
      dependencies.keys.length + 1 :=
    (Finset.card_insert_le _ _).trans (Nat.succ_le_succ (List.toFinset_card_le _))
  have hmul := Nat.mul_le_mul_left (dependencies.keys.length + 1) hcard
  rw [List.toFinset_nil, Finset.sdiff_empty, cancelTurns]
  simp only [List.length_singleton]
  omega

/-- **Cancel what depends on a failed operation**, directly or not. -/
def cancelDependentOperations (failedIndex : ℕ) : StandaloneBatchFuture :=
  let toCancel := (cancelLoop self.dependencies (cancelTurns self.dependencies) [] []
    [failedIndex]).get (cancelLoop_turns self.dependencies failedIndex)
  { self with
    results := toCancel.foldl (fun results index =>
      if (results[index]?).join = none then results.set index (some .cancelled)
      else results) self.results }

/-- Cancel every operation that has no result. -/
def cancelAllRemainingOperations : StandaloneBatchFuture :=
  { self with results := self.results.map fun r => some (r.getD .cancelled) }

/-- Whether every operation has a result. -/
def allOperationsCompleted : Bool := self.results.all Option.isSome

/-- What a poll does about one completed operation. -/
def settleCompleted (self : StandaloneBatchFuture) (completedIndex : ℕ) :
    StandaloneBatchFuture :=
  let self := self.checkReadyOperations completedIndex
  if self.failFast && ((self.resultAt completedIndex).map OperationResult.isError).getD false then
    self.cancelDependentOperations completedIndex
  else self

/-- **Poll the completions of a ring for a batch.** Every completion the ring has is
taken; those of other batches are ignored. -/
def pollCompletionsWithRing (ring : Ring) (waker : Waker) (cached : List (ℕ × IoResult))
    (fail : Option SaferRingError) :
    Outcome (Poll (Except SaferRingError Unit) × StandaloneBatchFuture × Ring) :=
  (ring.tryComplete cached fail).map fun (answer, ring) =>
    match answer with
    | .error e => (.ready (.error e), self, ring)
    | .ok completions =>
      let progress := completions.foldl recordCompletion ⟨self, false, false, []⟩
      let future := progress.completedOperations.foldl settleCompleted progress.future
      if future.failFast && progress.anyFailed then
        (.ready (.ok ()), future.cancelAllRemainingOperations, ring)
      else if future.allOperationsCompleted then
        (.ready (.ok ()), { future with completed := true }, ring)
      else if progress.anyCompleted then
        (.pending, future, { ring with wakerRegistry := ring.wakerRegistry.wake waker })
      else (.pending, future, ring)

/-- **`poll_with_ring`.** -/
def pollWithRing (ring : Ring) (waker : Waker) (cached : List (ℕ × IoResult))
    (fail : Option SaferRingError) :
    Outcome (Poll (Except SaferRingError BatchResult) × StandaloneBatchFuture × Ring) :=
  if self.completed then .returned (.ready (.ok self.collectResults), self, ring)
  else
    (self.pollCompletionsWithRing ring waker cached fail).map fun (answer, future, ring) =>
      match answer with
      | .ready (.ok ()) => (.ready (.ok future.collectResults), future, ring)
      | .ready (.error e) => (.ready (.error e), future, ring)
      | .pending => (.pending, future, ring)

/-- Dropping the future forgets the wakers of its operations. -/
def drop (ring : Ring) : Ring :=
  { ring with
    wakerRegistry := (self.operationIds.filterMap fun id => id).foldl
      (fun registry id => (registry.removeWaker id).2) ring.wakerRegistry }

end StandaloneBatchFuture

/-! ### Submitting a batch -/

namespace Ring

/-- Submit operations in order and collect their ids, stopping at an error; the
operations before it stay submitted. The backend's answer to the operation at `index`
is `answers index`. -/
def submitAll (answers : ℕ → Except SaferRingError Unit) :
    Ring → ℕ → List (Operation Building) → Except SaferRingError (List ℕ) × Ring
  | ring, _, [] => (.ok [], ring)
  | ring, index, operation :: rest =>
    match ring.submit operation (answers index) with
    | (.error e, ring) => (.error e, ring)
    | (.ok submitted, ring) =>
      match submitAll answers ring (index + 1) rest with
      | (.error e, ring) => (.error e, ring)
      | (.ok ids, ring) => (.ok (submitted.state.id :: ids), ring)

/-- The dependencies of the operations a batch has. -/
def keptDependencies (batch : Batch) : HashMap (List ℕ) :=
  (List.range batch.len).foldl (fun kept index =>
    match batch.dependencies.lookup index with
    | some dependencies => kept.insert index dependencies
    | none => kept) ∅

/-- The error of an empty batch. -/
def emptyBatch : SaferRingError := .ioNew .invalidInput "Cannot submit empty batch"

/-- The error of a batch that is too large. -/
def batchTooLarge (size maximum : ℕ) : SaferRingError :=
  .ioNew .invalidInput s!"Batch size {size} exceeds maximum {maximum}"

/-- Whether a batch passes the checks made before anything is submitted. -/
def checkBatch (batch : Batch) (config : BatchConfig) : Except SaferRingError Unit :=
  if batch.isEmpty then .error emptyBatch
  else if batch.len > config.maxBatchSize then
    .error (batchTooLarge batch.len config.maxBatchSize)
  else if config.enforceDependencies then batch.dependencyOrder.map fun _ => ()
  else .ok ()

variable (self : Ring)

/-- **Submit a batch.** The dependency order is computed, and not used. -/
def submitBatchStandaloneWithConfig (batch : Batch) (config : BatchConfig)
    (answers : ℕ → Except SaferRingError Unit) :
    Except SaferRingError StandaloneBatchFuture × Ring :=
  match checkBatch batch config with
  | .error e => (.error e, self)
  | .ok () =>
    match submitAll answers self 0 batch.operations with
    | (.error e, ring) => (.error e, ring)
    | (.ok ids, ring) =>
      (.ok (.new (ids.map some) (keptDependencies batch) config.failFast), ring)

/-- Submit a batch with the configuration by default. -/
def submitBatchStandalone (batch : Batch) (answers : ℕ → Except SaferRingError Unit) :
    Except SaferRingError StandaloneBatchFuture × Ring :=
  self.submitBatchStandaloneWithConfig batch .default answers

end Ring

/-! ### What a batch leaves alone -/

namespace StandaloneBatchFuture

variable {self future : StandaloneBatchFuture} {s t : Ring} {waker : Waker}
variable {cached : List (ℕ × IoResult)} {fail : Option SaferRingError}

/-- What a poll has seen once it recorded completions. -/
def seen (self : StandaloneBatchFuture) (completions : List CompletionResult) : Progress :=
  completions.foldl recordCompletion ⟨self, false, false, []⟩

/-- The future once the completions recorded were settled. -/
def advanced (self : StandaloneBatchFuture) (completions : List CompletionResult) :
    StandaloneBatchFuture :=
  (self.seen completions).completedOperations.foldl settleCompleted (self.seen completions).future

/-- A batch that is done answers with its results. -/
theorem pollWithRing_completed (h : self.completed = true) :
    self.pollWithRing s waker cached fail =
      .returned (.ready (.ok self.collectResults), self, s) := by
  rw [pollWithRing, if_pos h]

/-- A poll of a batch answers with the error of the backend, when nothing was cached. -/
theorem pollWithRing_error (h : self.completed = false) {e : SaferRingError} :
    self.pollWithRing s waker [] (some e) =
      .returned (.ready (.error e), self, { s with completionCache := ∅ }) := by
  simp only [pollWithRing, h]
  rfl

/-- **What a poll of a batch does** once `try_complete` returned completions. -/
theorem pollWithRing_ok (waker : Waker) (h : self.completed = false)
    {completions : List CompletionResult} {ring : Ring}
    (hcall : s.tryComplete cached fail = .returned (.ok completions, ring)) :
    self.pollWithRing s waker cached fail = .returned
      (if (self.advanced completions).failFast && (self.seen completions).anyFailed then
        (.ready (.ok (self.advanced completions).cancelAllRemainingOperations.collectResults),
          (self.advanced completions).cancelAllRemainingOperations, ring)
      else if (self.advanced completions).allOperationsCompleted then
        (.ready (.ok (self.advanced completions).collectResults),
          { self.advanced completions with completed := true }, ring)
      else
        (.pending, self.advanced completions, { ring with
          wakerRegistry := if (self.seen completions).anyCompleted then
            ring.wakerRegistry.wake waker else ring.wakerRegistry })) := by
  have hbody : self.pollCompletionsWithRing s waker cached fail = .returned
      (if (self.advanced completions).failFast && (self.seen completions).anyFailed then
        (.ready (.ok ()), (self.advanced completions).cancelAllRemainingOperations, ring)
      else if (self.advanced completions).allOperationsCompleted then
        (.ready (.ok ()), { self.advanced completions with completed := true }, ring)
      else if (self.seen completions).anyCompleted then
        (.pending, self.advanced completions,
          { ring with wakerRegistry := ring.wakerRegistry.wake waker })
      else (.pending, self.advanced completions, ring)) := by
    rw [pollCompletionsWithRing, hcall]
    rfl
  rw [pollWithRing, h, hbody]
  rcases (self.advanced completions).failFast && (self.seen completions).anyFailed with _ | _
  · rcases (self.advanced completions).allOperationsCompleted with _ | _
    · rcases (self.seen completions).anyCompleted with _ | _ <;> rfl
    · rfl
  · rfl

/-- **What a poll of a batch can do** once `try_complete` returned: pass its error on; end
because an operation failed; end because all are done; or go on waiting. -/
theorem pollWithRing_cases (waker : Waker) (h : self.completed = false)
    {a : Except SaferRingError (List CompletionResult)} {ring : Ring}
    (hcall : s.tryComplete cached fail = .returned (a, ring)) :
    (∃ e, a = .error e ∧ self.pollWithRing s waker cached fail =
      .returned (.ready (.error e), self, ring)) ∨
    ∃ completions, a = .ok completions ∧
      ((self.advanced completions).failFast = true ∧
          (self.seen completions).anyFailed = true ∧
          self.pollWithRing s waker cached fail = .returned
            (.ready (.ok (self.advanced completions).cancelAllRemainingOperations.collectResults),
              (self.advanced completions).cancelAllRemainingOperations, ring) ∨
        (self.advanced completions).allOperationsCompleted = true ∧
          self.pollWithRing s waker cached fail = .returned
            (.ready (.ok (self.advanced completions).collectResults),
              { self.advanced completions with completed := true }, ring) ∨
        (self.advanced completions).allOperationsCompleted = false ∧
          ∃ wakerRegistry, self.pollWithRing s waker cached fail = .returned
            (.pending, self.advanced completions, { ring with wakerRegistry })) := by
  rcases a with e | completions
  · refine Or.inl ⟨e, rfl, ?_⟩
    rw [pollWithRing, h, pollCompletionsWithRing, hcall]
    rfl
  refine Or.inr ⟨completions, rfl, ?_⟩
  have hpoll := pollWithRing_ok waker h hcall
  by_cases hfail :
      ((self.advanced completions).failFast && (self.seen completions).anyFailed) = true
  · obtain ⟨hff, haf⟩ := (Bool.and_eq_true _ _).mp hfail
    rw [if_pos hfail] at hpoll
    exact Or.inl ⟨hff, haf, hpoll⟩
  rw [if_neg hfail] at hpoll
  rcases hall : (self.advanced completions).allOperationsCompleted with _ | _
  · rw [hall, if_neg Bool.false_ne_true] at hpoll
    exact Or.inr (Or.inr ⟨rfl, _, hpoll⟩)
  · rw [hall, if_pos rfl] at hpoll
    exact Or.inr (Or.inl ⟨rfl, hpoll⟩)

/-- **A poll of a batch that returns**: the batch is done, and nothing changes; or it is not, and
`try_complete` returned. -/
theorem pollWithRing_returned {answer : Poll (Except SaferRingError BatchResult)}
    (h : self.pollWithRing s waker cached fail = .returned (answer, future, t)) :
    self.completed = true ∧ answer = .ready (.ok self.collectResults) ∧ future = self ∧ t = s ∨
      self.completed = false ∧ ∃ a ring, s.tryComplete cached fail = .returned (a, ring) := by
  rcases hdone : self.completed with _ | _
  · refine Or.inr ⟨rfl, ?_⟩
    rcases hcall : s.tryComplete cached fail with ⟨a, ring⟩ | _ | _
    · exact ⟨a, ring, rfl⟩
    · simp [pollWithRing, hdone, pollCompletionsWithRing, hcall, Outcome.map] at h
    · simp [pollWithRing, hdone, pollCompletionsWithRing, hcall, Outcome.map] at h
  · rw [pollWithRing_completed hdone] at h
    cases h
    exact Or.inl ⟨rfl, rfl, rfl, rfl⟩

/-- **A poll of a batch changes its ring by `try_complete`**, and by a waker; of a batch that is
done it changes nothing. -/
theorem pollWithRing_ring {answer : Poll (Except SaferRingError BatchResult)}
    (h : self.pollWithRing s waker cached fail = .returned (answer, future, t)) :
    t = s ∨ ∃ a ring wakerRegistry, s.tryComplete cached fail = .returned (a, ring) ∧
      t = { ring with wakerRegistry } := by
  rcases pollWithRing_returned h with ⟨-, -, -, rfl⟩ | ⟨hdone, a, ring, hcall⟩
  · exact Or.inl rfl
  refine Or.inr ?_
  rcases pollWithRing_cases waker hdone hcall with
    ⟨_, -, hpoll⟩ | ⟨_, -, ⟨-, -, hpoll⟩ | ⟨-, hpoll⟩ | ⟨-, wakerRegistry, hpoll⟩⟩
  all_goals
    rw [hpoll] at h
    cases h
  · exact ⟨a, t, t.wakerRegistry, hcall, rfl⟩
  · exact ⟨a, t, t.wakerRegistry, hcall, rfl⟩
  · exact ⟨a, t, t.wakerRegistry, hcall, rfl⟩
  · exact ⟨a, ring, wakerRegistry, hcall, rfl⟩

/-- **What a poll of a batch does to the rest of the ring** is what `try_complete`
does. -/
theorem collects_pollWithRing {answer : Poll (Except SaferRingError BatchResult)}
    (h : self.pollWithRing s waker cached fail = .returned (answer, future, t)) :
    s.Collects t := by
  rcases pollWithRing_ring h with rfl | ⟨a, ring, wakerRegistry, hcall, rfl⟩
  · exact .of_eq rfl rfl rfl
  · have hc := Ring.collects_tryComplete hcall
    exact ⟨hc.backend, hc.nextId, hc.orphanTracker⟩

end StandaloneBatchFuture

namespace Ring

/-- Whether the operation at a position of a batch is valid and accepted. -/
def Accepts (answers : ℕ → Except SaferRingError Unit) (operations : List (Operation Building))
    (k : ℕ) : Prop :=
  answers k = .ok () ∧ ∀ operation, operations[k]? = some operation → operation.validate = .ok ()

section Cons

variable {answers : ℕ → Except SaferRingError Unit} {operation : Operation Building}
  {rest : List (Operation Building)}

/-- Whether the first operation is. -/
theorem accepts_zero : Accepts answers (operation :: rest) 0 ↔
    answers 0 = .ok () ∧ operation.validate = .ok () :=
  and_congr_right fun _ => ⟨fun h => h operation rfl, fun h _ hop => Option.some.inj hop ▸ h⟩

/-- Whether the first operations are: the first one is, and those after it. -/
theorem forall_accepts_cons {n : ℕ} : (∀ k < n + 1, Accepts answers (operation :: rest) k) ↔
    (answers 0 = .ok () ∧ operation.validate = .ok ()) ∧
      ∀ k < n, Accepts (fun k => answers (k + 1)) rest k :=
  Nat.forall_lt_succ_left.trans (and_congr accepts_zero Iff.rfl)

end Cons

/-- **The induction rule for the submission of a batch**: operations are submitted one
after the other, as long as the ones before were accepted. -/
theorem submitAll_invariant {P : ℕ → Ring → Prop} {answers : ℕ → Except SaferRingError Unit}
    {operations : List (Operation Building)}
    (hstep : ∀ k operation ring, operations[k]? = some operation →
      (∀ j < k, Accepts answers operations j) → P k ring →
      P (k + 1) (ring.submit operation (answers k)).2)
    {ring : Ring} (h₀ : P 0 ring) :
    ∃ k ≤ operations.length, P k (submitAll answers ring 0 operations).2 := by
  -- induction on what is left to submit, from the position `i` on
  have hrest : ∀ (rest : List (Operation Building)) (i : ℕ) (ring : Ring),
      operations.drop i = rest → i ≤ operations.length →
      (∀ j < i, Accepts answers operations j) → P i ring →
      ∃ k ≤ operations.length, P k (submitAll answers ring i rest).2 := by
    intro rest
    induction rest with
    | nil => exact fun i ring _ hi _ h => ⟨i, hi, h⟩
    | cons operation rest ih =>
      intro i ring hdrop hi hacc h
      have hlt : i < operations.length := by
        by_contra hge
        rw [List.drop_eq_nil_of_le (by omega)] at hdrop
        exact absurd hdrop (by simp)
      rw [List.drop_eq_getElem_cons hlt, List.cons.injEq] at hdrop
      have hop : operations[i]? = some operation := by
        rw [List.getElem?_eq_getElem hlt, hdrop.1]
      have hnext := hstep i operation ring hop hacc h
      rw [submitAll]
      rcases ring.submit_cases operation (answers i) with
        ⟨_, -, hsub⟩ | ⟨_, -, -, hsub⟩ | ⟨ha, hv, hsub⟩
      · rw [hsub] at hnext ⊢
        exact ⟨i + 1, hlt, hnext⟩
      · rw [hsub] at hnext ⊢
        exact ⟨i + 1, hlt, hnext⟩
      · rw [hsub] at hnext ⊢
        have hacc' : ∀ j < i + 1, Accepts answers operations j := by
          intro j hj
          rcases Nat.lt_succ_iff_lt_or_eq.mp hj with hj | rfl
          · exact hacc j hj
          · exact ⟨ha, fun op hop' => by rwa [← Option.some.inj (hop.symm.trans hop')]⟩
        obtain ⟨k, hk, hP⟩ := ih (i + 1) _ hdrop.2 hlt hacc' hnext
        refine ⟨k, hk, ?_⟩
        dsimp only at hP ⊢
        split
        all_goals
          rename_i hcall
          rw [hcall] at hP
          exact hP
  exact hrest operations 0 ring rfl (Nat.zero_le _) (fun j hj => absurd hj (Nat.not_lt_zero j)) h₀

/-- Submitting a batch changes the ring by what it submits. -/
theorem submitBatch_invariant {P : ℕ → Ring → Prop} {answers : ℕ → Except SaferRingError Unit}
    {batch : Batch} {config : BatchConfig}
    (hstep : ∀ k operation ring, checkBatch batch config = .ok () →
      batch.operations[k]? = some operation →
      (∀ j < k, Accepts answers batch.operations j) → P k ring →
      P (k + 1) (ring.submit operation (answers k)).2)
    {ring : Ring} (h₀ : P 0 ring) :
    ∃ k ≤ batch.len, P k (ring.submitBatchStandaloneWithConfig batch config answers).2 := by
  rw [submitBatchStandaloneWithConfig]
  rcases hcheck : checkBatch batch config with e | ⟨⟨⟩⟩
  · exact ⟨0, Nat.zero_le _, h₀⟩
  · obtain ⟨k, hk, hP⟩ := submitAll_invariant
      (fun k operation ring => hstep k operation ring hcheck) h₀
    refine ⟨k, hk, ?_⟩
    simp only
    split
    all_goals
      rename_i hcall
      rw [hcall] at hP
      exact hP

end Ring

end SaferRing
