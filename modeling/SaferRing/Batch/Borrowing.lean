import SaferRing.World

/-!
# The future of a batch that holds its ring

`SaferRing.Ring.submitBatchWithConfig` submits a batch as its standalone sibling does, and
returns a `SaferRing.BatchFuture`, which has the ring for itself until it is dropped: nothing
but polls and the kernel come in between (`SaferRing.BatchFuture.Step`).

So a ring with such a future is a world in which nobody does anything else
(`SaferRing.BatchFuture.placed`): `SaferRing.BatchFuture.step_submit` and
`SaferRing.BatchFuture.run_placed` carry its runs over to the runs of a world, and with them
what holds there.
-/

namespace SaferRing

/-- **The future of a batch**, with its ring. -/
structure BatchFuture extends StandaloneBatchFuture where
  /-- The ring. -/
  ring : Ring

namespace BatchFuture

open StandaloneBatchFuture (cancelLoop cancelTurns cancelLoop_turns)

/-- The future of a batch just submitted. -/
def new (operationIds : List (Option ℕ)) (dependencies : HashMap (List ℕ)) (ring : Ring)
    (failFast : Bool) : BatchFuture :=
  { StandaloneBatchFuture.new operationIds dependencies failFast with ring }

variable (self : BatchFuture)

/-- The future and its ring after a poll. -/
def withBoth (future : StandaloneBatchFuture) (ring : Ring) : BatchFuture := { future with ring }

/-- Submit operations that are ready: none, every operation was submitted at once. -/
def submitReadyOperations : Except SaferRingError Unit × BatchFuture := (.ok (), self)

/-- **Poll the completions of the ring for the batch**, as the standalone future does. -/
def pollCompletions (waker : Waker) (cached : List (ℕ × IoResult)) (fail : Option SaferRingError) :
    Outcome (Poll (Except SaferRingError Unit) × BatchFuture) :=
  (self.pollCompletionsWithRing self.ring waker cached fail).map fun (answer, future, ring) =>
    (answer, withBoth future ring)

/-- **Cancel what depends on a failed operation**, directly or not. -/
def cancelDependentOperations (failedIndex : ℕ) : BatchFuture :=
  let toCancel := (cancelLoop self.dependencies (cancelTurns self.dependencies) [] []
    [failedIndex]).get (cancelLoop_turns self.dependencies failedIndex)
  { self with
    results := toCancel.foldl (fun results index =>
      if (results[index]?).join = none then results.set index (some .cancelled)
      else results) self.results }

/-- **`BatchFuture::poll`.** -/
def poll (waker : Waker) (cached : List (ℕ × IoResult)) (fail : Option SaferRingError) :
    Outcome (Poll (Except SaferRingError BatchResult) × BatchFuture) :=
  if self.completed then .returned (.ready (.ok self.collectResults), self)
  else
    match self.submitReadyOperations with
    | (.error e, self) => .returned (.ready (.error e), self)
    | (.ok (), self) =>
      (self.pollCompletions waker cached fail).map fun (answer, future) =>
        match answer with
        | .ready (.ok ()) => (.ready (.ok future.collectResults), future)
        | .ready (.error e) => (.ready (.error e), future)
        | .pending => (.pending, future)

/-- Dropping the future gives up what is left, and then the ring; no waker is forgotten. -/
def drop : Ring := (withBoth self.cancelAllRemainingOperations self.ring).ring

/-- **A poll is a poll of the standalone future** with the ring. -/
theorem poll_eq (waker : Waker) (cached : List (ℕ × IoResult)) (fail : Option SaferRingError) :
    self.poll waker cached fail =
      (self.pollWithRing self.ring waker cached fail).map fun (answer, future, ring) =>
        (answer, withBoth future ring) := by
  rw [poll, StandaloneBatchFuture.pollWithRing]
  by_cases hdone : self.completed = true
  · rw [if_pos hdone, if_pos hdone]
    rfl
  · rw [if_neg hdone, if_neg hdone]
    simp only [submitReadyOperations, pollCompletions]
    rcases self.pollCompletionsWithRing self.ring waker cached fail with
      ⟨_ | _ | _, future, ring⟩ | _ | _ <;> rfl

end BatchFuture

namespace Ring

variable (self : Ring)

/-- **Submit a batch**, and hand the ring over to its future. The dependency order is
computed, and not used. -/
def submitBatchWithConfig (batch : Batch) (config : BatchConfig)
    (answers : ℕ → Except SaferRingError Unit) : Except SaferRingError BatchFuture × Ring :=
  match checkBatch batch config with
  | .error e => (.error e, self)
  | .ok () =>
    match submitAll answers self 0 batch.operations with
    | (.error e, ring) => (.error e, ring)
    | (.ok ids, ring) =>
      (.ok (.new (ids.map some) (keptDependencies batch) ring config.failFast), ring)

/-- Submit a batch with the configuration by default. -/
def submitBatch (batch : Batch) (answers : ℕ → Except SaferRingError Unit) :
    Except SaferRingError BatchFuture × Ring :=
  self.submitBatchWithConfig batch .default answers

/-- **Both submissions of a batch do the same.** -/
theorem submitBatchWithConfig_eq (batch : Batch) (config : BatchConfig)
    (answers : ℕ → Except SaferRingError Unit) :
    self.submitBatchWithConfig batch config answers =
      ((self.submitBatchStandaloneWithConfig batch config answers).1.map fun future =>
          .withBoth future (self.submitBatchStandaloneWithConfig batch config answers).2,
        (self.submitBatchStandaloneWithConfig batch config answers).2) := by
  rw [submitBatchWithConfig, submitBatchStandaloneWithConfig]
  rcases checkBatch batch config with e | ⟨⟨⟩⟩
  · rfl
  · rcases submitAll answers self 0 batch.operations with ⟨_ | ids, ring⟩ <;> rfl

end Ring

/-! ### Its runs -/

namespace BatchFuture

/-- What can happen to a ring that a batch future holds. -/
inductive Event
  /-- The future was polled. -/
  | polled (waker : Waker) (cached : List (ℕ × IoResult)) (fail : Option SaferRingError)
      (answer : Poll (Except SaferRingError BatchResult))
  /-- The kernel completed an operation. -/
  | completed (i : ℕ) (result : IoResult)

/-- **What a step does**; `none` when it cannot happen. An order to empty the cache in
must be an order of what the cache holds. -/
def step (self : BatchFuture) : Event → Option BatchFuture
  | .polled waker cached fail answer =>
    if cached.Perm self.ring.cachedCompletions then
      match self.poll waker cached fail with
      | .returned (given, after) => if given = answer then some after else none
      | _ => none
    else none
  | .completed i result =>
    (self.ring.backend.complete i result).map fun backend =>
      { self with ring := { self.ring with backend } }

/-- **The step relation.** -/
def Step (self : BatchFuture) (e : Event) (after : BatchFuture) : Prop :=
  self.step e = some after

/-- A world in which the future holds the ring. -/
def placed (w : World) (self : BatchFuture) : World :=
  { w with ring := self.ring, batches := w.batches ++ [some self.toStandaloneBatchFuture] }

/-- The event of a world, for the batch at a place. -/
def Event.placed (b : ℕ) : Event → SaferRing.Event
  | .polled waker cached fail answer => ⟨.pollBatch b waker cached fail, .batchPolled answer⟩
  | .completed i result => ⟨.complete i result, .done⟩

variable {self after : BatchFuture} {w : World} {e : Event}

/-- The future is the last batch of its world. -/
theorem batches_placed : (placed w self).batches[w.batches.length]? =
    some (some self.toStandaloneBatchFuture) :=
  List.getElem?_concat_length ..

/-- **Submitting a batch makes a world with its future.** -/
theorem step_submit {batch : Batch} {config : BatchConfig}
    {answers : ℕ → Except SaferRingError Unit} {ring : Ring}
    (h : w.ring.submitBatchWithConfig batch config answers = (.ok self, ring)) :
    SaferRing.Step w ⟨.submitBatch batch config answers, .batch (.ok w.batches.length)⟩
      (placed w self) := by
  rw [Ring.submitBatchWithConfig_eq] at h
  rcases hcall : w.ring.submitBatchStandaloneWithConfig batch config answers with ⟨result, ring'⟩
  rw [hcall] at h
  rcases result with e | future
  · exact absurd (Prod.mk.inj h).1 (by simp [Except.map])
  · obtain ⟨hfuture, rfl⟩ := Prod.mk.inj h
    obtain rfl := Except.ok.inj hfuture
    simp only [SaferRing.Step, World.step, World.submitBatch, hcall]
    rfl

/-- **A step of the future is one of its world.** -/
theorem step_placed (h : self.Step e after) :
    SaferRing.Step (placed w self) (e.placed w.batches.length) (placed w after) := by
  cases e with
  | polled waker cached fail answer =>
    obtain ⟨hperm, h⟩ := Option.ite_none_right_eq_some.mp h
    have hset : ∀ future : StandaloneBatchFuture,
        (placed w self).batches.set w.batches.length (some future) =
          w.batches ++ [some future] := by
      intro future
      rw [placed, List.set_append_right _ _ (le_refl _), Nat.sub_self]
      rfl
    rw [poll_eq] at h
    rcases hcall : self.pollWithRing self.ring waker cached fail with ⟨a, future, ring⟩ | _ | _
    · rw [hcall] at h
      obtain ⟨rfl, hafter⟩ := Option.ite_none_right_eq_some.mp h
      obtain rfl := Option.some.inj hafter
      have hstep : (placed w self).pollBatch w.batches.length waker cached fail =
          some (.batchPolled a, placed w (withBoth future ring)) := by
        simp only [World.pollBatch, batches_placed, hset]
        have hring : (placed w self).ring = self.ring := rfl
        rw [hring, hcall]
        rfl
      exact (if_pos hperm).trans hstep
    · rw [hcall] at h
      exact absurd h (by simp [Outcome.map])
    · rw [hcall] at h
      exact absurd h (by simp [Outcome.map])
  | completed i result =>
    obtain ⟨backend, hb, rfl⟩ := Option.map_eq_some_iff.mp h
    have hring : (placed w self).ring.backend = self.ring.backend := rfl
    simp only [SaferRing.Step, World.step, Event.placed, hring, hb, Option.map_some]
    rfl

/-- **A run of the future is one of its world.** -/
theorem run_placed {es : List (Transition.Move BatchFuture Event)}
    (h : Transition.Run Step self es after) :
    Transition.Run SaferRing.Step (placed w self)
      (es.map (Transition.Move.map (placed w) (Event.placed w.batches.length)))
      (placed w after) :=
  h.map fun _ _ _ hstep => step_placed hstep

end BatchFuture

end SaferRing
