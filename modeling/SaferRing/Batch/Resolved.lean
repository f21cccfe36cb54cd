import SaferRing.Batch.WakeUp

/-!
# A batch that is resolved, and polled again

A poll that finds a result for every position marks the future as completed, and from then on
it answers with the results and asks its ring for nothing. A poll that a failure ends answers, too,
but returns before it sets the mark: the next one takes every completion its ring has, of whatever
operations, and passes an error of the backend on. So **a batch stays resolved exactly when no
failure ended it** (`SaferRing.BatchFuture.staysResolved_iff`).

The futures spoken of are those of batches submitted to any ring, polled with any rings since
(`SaferRing.StandaloneBatchFuture.OfBatch`), or with the one they hold
(`SaferRing.BatchFuture.OfBatch`).
-/

namespace SaferRing

open Transition (Move)

namespace StandaloneBatchFuture

/-! ### Polls, one after the other -/

/-- A poll of a batch, with the ring it is given. -/
structure PollCall where
  /-- The ring. -/
  ring : Ring
  /-- The waker of the task. -/
  waker : Waker
  /-- The order to empty the cache in. -/
  cached : List (ℕ × IoResult)
  /-- Whether the backend fails. -/
  fail : Option SaferRingError

/-- The cache is emptied in an order of what it holds. -/
def PollCall.WellFormed (call : PollCall) : Prop := call.cached.Perm call.ring.cachedCompletions

/-- **What one poll makes of a future**, with whatever ring. -/
def PollStep (self : StandaloneBatchFuture) (call : PollCall) (after : StandaloneBatchFuture) :
    Prop :=
  call.WellFormed ∧ ∃ answer t,
    self.pollWithRing call.ring call.waker call.cached call.fail = .returned (answer, after, t)

section Future

variable (self : StandaloneBatchFuture)

/-- **A future of a batch**: it was submitted, and polled any number of times. -/
def OfBatch : Prop :=
  ∃ (s t : Ring) (batch : Batch) (config : BatchConfig) (answers : ℕ → Except SaferRingError Unit)
    (future : StandaloneBatchFuture) (ms : List (Move StandaloneBatchFuture PollCall)),
    s.submitBatchStandaloneWithConfig batch config answers = (.ok future, t) ∧
      Transition.Run PollStep future ms self

/-- **A future stays resolved**: however often it was polled since, a poll answers with the same
results, and leaves its ring as it is. -/
def StaysResolved (result : BatchResult) : Prop :=
  ∀ (ms : List (Move StandaloneBatchFuture PollCall)) (later : StandaloneBatchFuture),
    Transition.Run PollStep self ms later → ∀ call : PollCall, call.WellFormed →
      ∃ after, later.pollWithRing call.ring call.waker call.cached call.fail =
        .returned (.ready (.ok result), after, call.ring)

/-- **A failure ends the batch**: a poll takes one of an operation that has no result. -/
def EndsBy (s : Ring) (cached : List (ℕ × IoResult)) : Prop :=
  self.failFast = true ∧ ∃ c ∈ s.taken cached,
    self.Awaits c.1 ∧ (OperationResult.ofCompletion c.2).isError = true

end Future

variable {self after : StandaloneBatchFuture} {s t : Ring} {waker : Waker}
  {cached : List (ℕ × IoResult)} {fail : Option SaferRingError} {result : BatchResult}
  {answer : Poll (Except SaferRingError BatchResult)}

/-- **A poll leaves a future one of its batch.** -/
theorem sameBatch_pollWithRing (hs : self.Indexed)
    (h : self.pollWithRing s waker cached fail = .returned (answer, after, t)) :
    self.SameBatch after := by
  have hadv : ∀ results, self.SameBatch (self.advanced results) := fun results =>
    (sameBatch_seen hs).trans (Cancels.foldl_settleCompleted _ _).same
  rcases pollWithRing_returned h with ⟨-, -, rfl, -⟩ | ⟨hdone, a, ring, hcall⟩
  · exact .refl after
  rcases pollWithRing_cases waker hdone hcall with
    ⟨_, -, hpoll⟩ | ⟨results, -, ⟨-, -, hpoll⟩ | ⟨-, hpoll⟩ | ⟨-, _, hpoll⟩⟩
  all_goals
    rw [hpoll] at h
    cases h
  · exact .refl self
  · exact (hadv results).trans (Cancels.cancelAllRemainingOperations _).same
  · exact (hadv results).trans ⟨rfl, rfl, rfl, rfl⟩
  · exact hadv results

/-- The future of a batch that is submitted. -/
theorem indexed_submitBatch {batch : Batch} {config : BatchConfig}
    {answers : ℕ → Except SaferRingError Unit}
    (h : s.submitBatchStandaloneWithConfig batch config answers = (.ok self, t)) :
    self.Indexed := by
  rw [Ring.submitBatchStandaloneWithConfig] at h
  split at h
  · exact absurd (Prod.mk.inj h).1 (by simp)
  · split at h
    · exact absurd (Prod.mk.inj h).1 (by simp)
    · obtain rfl := Except.ok.inj (Prod.mk.inj h).1
      exact indexed_new _ _ _

/-- **The ids of a future of a batch are indexed**, whatever rings it was polled with. -/
theorem OfBatch.indexed (h : self.OfBatch) : self.Indexed := by
  obtain ⟨_, _, _, _, _, future, ms, hsub, hrun⟩ := h
  refine hrun.preserves Indexed (fun s call u hstep hs => ?_) (indexed_submitBatch hsub)
  obtain ⟨-, _, _, hpoll⟩ := hstep
  exact (sameBatch_pollWithRing hs hpoll).indexed hs

/-! ### The poll that resolves a batch -/

/-- A poll has seen a failure when it took one of the batch. -/
theorem endsBy_iff (hs : self.Indexed) {results : List CompletionResult} {ring : Ring}
    (hcall : s.tryComplete cached fail = .returned (.ok results, ring)) :
    ((self.advanced results).failFast && (self.seen results).anyFailed) = true ↔
      self.EndsBy s cached := by
  obtain ⟨hmap, hnodup⟩ := Ring.taken_of_ok hcall
  have hfast : (self.advanced results).failFast = self.failFast :=
    (sameBatch_seen hs).failFast ▸ (Cancels.foldl_settleCompleted _ _).same.failFast
  have hfailure : ∀ c : CompletionResult, self.FailureIn c ↔ self.Awaits c.operationId ∧
      (OperationResult.ofCompletion c.result).isError = true := by
    intro c
    simp only [FailureIn, Awaits, ← and_assoc, exists_and_right]
  rw [Bool.and_eq_true, hfast, anyFailed_seen hs hnodup, EndsBy, ← hmap]
  simp [hfailure]

/-- **A poll that resolves a batch** answers with its results. It marks it as completed unless a
failure ends it, and then the cache of the ring is empty after it. -/
theorem resolved_cases (hs : self.Indexed)
    (h : self.pollWithRing s waker cached fail = .returned (.ready (.ok result), after, t)) :
    result = after.collectResults ∧
      (after.completed = true ↔ self.completed = true ∨ ¬self.EndsBy s cached) ∧
      (after.completed = false → t.completionCache = ∅) := by
  rcases pollWithRing_returned h with
    ⟨hdone, hanswer, rfl, -⟩ | ⟨hdone, e | results, ring, hcall⟩
  · exact ⟨Except.ok.inj (Poll.ready.inj hanswer), iff_of_true hdone (Or.inl hdone),
      fun hc => absurd (hdone.symm.trans hc) (by simp)⟩
  · rcases pollWithRing_cases waker hdone hcall with ⟨_, -, hpoll⟩ | ⟨_, ha, -⟩
    · rw [hpoll] at h
      cases h
    · exact absurd ha (by simp)
  · have hends := endsBy_iff hs hcall
    have hcache : ring.completionCache = ∅ := by
      obtain ⟨b, hproc⟩ := Ring.tryComplete_ok hcall
      have hframe := Ring.processCompletedOperations_frame
        { s with completionCache := ∅, backend := b } (s.taken cached)
      rw [hproc] at hframe
      exact hframe.2.2.2
    rw [pollWithRing_ok waker hdone hcall] at h
    split at h
    · rename_i hfail
      cases h
      -- the poll returns before it marks the future
      have hopen : (self.advanced results).cancelAllRemainingOperations.completed = false :=
        advanced_frame.2.trans hdone
      refine ⟨rfl, iff_of_false (by simp [hopen]) ?_, fun _ => hcache⟩
      exact not_or.mpr ⟨by simp [hdone], not_not.mpr (hends.mp hfail)⟩
    · rename_i hfail
      split at h
      · cases h
        exact ⟨rfl, iff_of_true rfl (Or.inr fun hc => hfail (hends.mpr hc)),
          fun hc => absurd hc (by simp)⟩
      · cases h

/-- **A future stays resolved exactly when it is marked as completed.** -/
theorem staysResolved_iff_completed :
    self.StaysResolved self.collectResults ↔ self.completed = true := by
  constructor
  · intro h
    by_contra hopen
    -- not marked, it asks its ring, and the backend may fail
    obtain ⟨_, hpoll⟩ := h [] self (.nil self) ⟨.new, 0, [], some Ring.interrupted⟩ (.refl _)
    rw [pollWithRing_error (Bool.eq_false_iff.mpr hopen)] at hpoll
    cases hpoll
  · intro hdone ms later hrun call _
    have hsame : later = self := by
      refine hrun.preserves (fun u => u = self) (fun u c v hstep hu => ?_) rfl
      obtain ⟨-, _, _, hpoll⟩ := hstep
      rw [hu, pollWithRing_completed hdone] at hpoll
      cases hpoll
      rfl
    rw [hsame]
    exact ⟨self, pollWithRing_completed hdone⟩

end StandaloneBatchFuture

namespace BatchFuture

/-! ### A future that holds its ring -/

section Future

variable (self : BatchFuture)

/-- **A future of a batch** that holds its ring: it was submitted, and whatever happened since. -/
def OfBatch : Prop :=
  ∃ (s t : Ring) (batch : Batch) (config : BatchConfig) (answers : ℕ → Except SaferRingError Unit)
    (future : BatchFuture) (es : List (Move BatchFuture Event)),
    s.submitBatchWithConfig batch config answers = (.ok future, t) ∧
      Transition.Run Step future es self

/-- **It stays resolved**: whatever happened since, a poll answers with the same results, and
leaves the ring as it is. -/
def StaysResolved (result : BatchResult) : Prop :=
  ∀ (es : List (Move BatchFuture Event)) (later : BatchFuture), Transition.Run Step self es later →
    ∀ waker cached fail, cached.Perm later.ring.cachedCompletions →
      ∃ after, later.poll waker cached fail = .returned (.ready (.ok result), after) ∧
        after.ring = later.ring

end Future

variable {self after : BatchFuture} {e : Event}

/-- What can happen to a future: a poll, or its ring is another. -/
theorem step_cases (h : self.Step e after) :
    (∃ waker cached fail answer, self.poll waker cached fail = .returned (answer, after)) ∨
      after.toStandaloneBatchFuture = self.toStandaloneBatchFuture := by
  cases e with
  | polled waker cached fail answer =>
    obtain ⟨-, h⟩ := Option.ite_none_right_eq_some.mp h
    split at h
    · rename_i given polled hpoll
      obtain ⟨rfl, hafter⟩ := Option.ite_none_right_eq_some.mp h
      obtain rfl := Option.some.inj hafter
      exact Or.inl ⟨waker, cached, fail, given, hpoll⟩
    · exact absurd h (by simp)
  | completed i result =>
    obtain ⟨_, -, rfl⟩ := Option.map_eq_some_iff.mp h
    exact Or.inr rfl

/-- **The ids of a future of a batch are indexed.** -/
theorem OfBatch.indexed (h : self.OfBatch) : self.toStandaloneBatchFuture.Indexed := by
  obtain ⟨s, _, batch, config, answers, future, es, hsub, hrun⟩ := h
  refine hrun.preserves (fun u => u.toStandaloneBatchFuture.Indexed) (fun u e v hstep hu => ?_) ?_
  · rcases step_cases hstep with ⟨_, _, _, _, hpoll⟩ | hsame
    · exact (StandaloneBatchFuture.sameBatch_pollWithRing hu (pollWithRing_of_poll hpoll)).indexed
        hu
    · rwa [hsame]
  · rw [Ring.submitBatchWithConfig_eq] at hsub
    rcases hcall : s.submitBatchStandaloneWithConfig batch config answers with ⟨_ | first, t⟩
    · rw [hcall] at hsub
      exact absurd (Prod.mk.inj hsub).1 (by simp [Except.map])
    · rw [hcall] at hsub
      obtain rfl := Except.ok.inj (Prod.mk.inj hsub).1
      exact StandaloneBatchFuture.indexed_submitBatch hcall

/-- A poll of a future that is marked as completed. -/
theorem poll_completed (h : self.completed = true) (waker : Waker) (cached : List (ℕ × IoResult))
    (fail : Option SaferRingError) :
    self.poll waker cached fail = .returned (.ready (.ok self.collectResults), self) := by
  rw [poll, if_pos h]

/-- **It stays resolved exactly when it is marked as completed**, when nothing is cached. -/
theorem staysResolved_iff_completed
    (hcache : self.completed = false → self.ring.completionCache = ∅) :
    self.StaysResolved self.collectResults ↔ self.completed = true := by
  constructor
  · intro h
    by_contra hopen
    rw [Bool.not_eq_true] at hopen
    have hperm : ([] : List (ℕ × IoResult)).Perm self.ring.cachedCompletions := by
      rw [Ring.cachedCompletions, hcache hopen]
      exact .refl _
    obtain ⟨_, hpoll, -⟩ := h [] self (.nil self) 0 [] (some Ring.interrupted) hperm
    have hpoll := pollWithRing_of_poll hpoll
    rw [StandaloneBatchFuture.pollWithRing_error hopen] at hpoll
    cases hpoll
  · intro hdone es later hrun waker cached fail _
    have hsame : later.toStandaloneBatchFuture = self.toStandaloneBatchFuture := by
      refine hrun.preserves (fun u => u.toStandaloneBatchFuture = self.toStandaloneBatchFuture)
        (fun u e v hstep hu => ?_) rfl
      rcases step_cases hstep with ⟨waker, cached, fail, _, hpoll⟩ | hsame
      · rw [poll_completed (by rw [hu, hdone])] at hpoll
        cases hpoll
        exact hu
      · exact hsame.trans hu
    refine ⟨later, ?_, rfl⟩
    rw [poll_completed (by rw [hsame, hdone]), hsame]

/-- **A batch stays resolved exactly when** it was completed before the poll that answered, or no
failure that the poll took ends it. So it is of both futures. -/
theorem staysResolved_iff (waker : Waker) (cached : List (ℕ × IoResult))
    (fail : Option SaferRingError) (result : BatchResult) :
    (∀ (self after : StandaloneBatchFuture) (s t : Ring), self.OfBatch →
      self.pollWithRing s waker cached fail = .returned (.ready (.ok result), after, t) →
        (after.StaysResolved result ↔ self.completed = true ∨ ¬self.EndsBy s cached)) ∧
    ∀ self after : BatchFuture, self.OfBatch →
      self.poll waker cached fail = .returned (.ready (.ok result), after) →
        (after.StaysResolved result ↔ self.completed = true ∨ ¬self.EndsBy self.ring cached) := by
  constructor
  · intro self after s t hself hpoll
    obtain ⟨rfl, hcompleted, -⟩ := StandaloneBatchFuture.resolved_cases hself.indexed hpoll
    rw [StandaloneBatchFuture.staysResolved_iff_completed, hcompleted]
  · intro self after hself hpoll
    obtain ⟨rfl, hcompleted, hcache⟩ :=
      StandaloneBatchFuture.resolved_cases hself.indexed (pollWithRing_of_poll hpoll)
    rw [staysResolved_iff_completed hcache, hcompleted]

/-- One failure ends the batch. -/
def endsAtFirst : BatchConfig := { BatchConfig.default with failFast := true }

/-- The future of two reads that one failure ends. -/
def eagerReads : StandaloneBatchFuture := .new [some 1, some 2] ∅ true

/-- The ring once both reads are done. -/
def bothDone : Ring :=
  { firstDone with backend := (firstDone.backend.complete 0 (.ok 8)).getD firstDone.backend }

/-- **Two reads are done**, and the batch stays resolved. -/
theorem staysResolved_bothDone :
    Ring.new.submitBatchStandaloneWithConfig twoReads endsAtFirst (fun _ => .ok ()) =
      (.ok eagerReads, submitted) ∧
    (∃ after t, eagerReads.pollWithRing bothDone 7 [] none =
        .returned (.ready (.ok ⟨[.success 8, .success 8], 2, 0⟩), after, t) ∧
      after.StaysResolved ⟨[.success 8, .success 8], 2, 0⟩) ∧
    ∃ es later after, Transition.Run Step (withBoth eagerReads submitted) es later ∧
      later.poll 7 [] none = .returned (.ready (.ok ⟨[.success 8, .success 8], 2, 0⟩), after) ∧
      after.StaysResolved ⟨[.success 8, .success 8], 2, 0⟩ := by
  have hnone : ¬eagerReads.EndsBy bothDone [] := by
    rintro ⟨-, c, hc, -, herr⟩
    have hc : c ∈ [(1, .ok 8), ((2, .ok 8) : ℕ × IoResult)] := hc
    simp only [List.mem_cons, List.not_mem_nil, or_false] at hc
    rcases hc with rfl | rfl <;> exact absurd herr (by decide)
  have hsubmitted : eagerReads.OfBatch :=
    ⟨.new, submitted, twoReads, endsAtFirst, fun _ => .ok (), eagerReads, [], rfl, .nil _⟩
  have hrun : Transition.Run Step (withBoth eagerReads submitted)
      ([] ++
        [⟨withBoth eagerReads submitted, .completed 0 (.ok 8), withBoth eagerReads firstDone⟩] ++
        [⟨withBoth eagerReads firstDone, .completed 0 (.ok 8), withBoth eagerReads bothDone⟩])
      (withBoth eagerReads bothDone) := ((Transition.Run.nil _).snoc rfl).snoc rfl
  have hborrowing : (withBoth eagerReads bothDone).OfBatch :=
    ⟨.new, submitted, twoReads, endsAtFirst, fun _ => .ok (), withBoth eagerReads submitted, _, rfl,
      hrun⟩
  have hiff := staysResolved_iff 7 [] none ⟨[.success 8, .success 8], 2, 0⟩
  exact ⟨rfl, ⟨_, _, rfl, (hiff.1 eagerReads _ bothDone _ hsubmitted rfl).mpr (Or.inr hnone)⟩,
    ⟨_, _, _, hrun, rfl, (hiff.2 (withBoth eagerReads bothDone) _ hborrowing rfl).mpr
      (Or.inr hnone)⟩⟩

/-- The ring once the first read failed. -/
def firstFailed : Ring :=
  { submitted with
    backend := (submitted.backend.complete 0 (.error (.os 5))).getD submitted.backend }

/-- The future once the failure ended its batch. -/
def endedReads : StandaloneBatchFuture :=
  { eagerReads with results := [some (.error (.strerror 5)), some .cancelled] }

/-- The result of the batch. -/
def endedResult : BatchResult := ⟨[.error (.strerror 5), .cancelled], 0, 1⟩

/-- The ring after that. -/
def afterEnd : Ring :=
  { firstFailed with
    backend := firstFailed.backend.drained
    operations := (firstFailed.operations.completeOperation 1).2 }

/-- Then another read was submitted, and is done. -/
def otherDone : Ring :=
  let ring := (afterEnd.submit otherRead (.ok ())).2
  { ring with backend := (ring.backend.complete 1 (.ok 8)).getD ring.backend }

/-- **The batch answers once more, and takes the completion of the other read**, which nobody finds
any more. -/
theorem not_staysResolved_endedReads :
    Ring.new.submitBatchStandaloneWithConfig twoReads endsAtFirst (fun _ => .ok ()) =
      (.ok eagerReads, submitted) ∧
    eagerReads.pollWithRing firstFailed 7 [] none =
      .returned (.ready (.ok endedResult), endedReads, afterEnd) ∧
    (∃ t, otherDone.tryCompleteById 3 0 none = .returned (.ok (some (.ok 8)), t)) ∧
    (∃ later t u, endedReads.pollWithRing otherDone 7 [] none =
        .returned (.ready (.ok endedResult), later, t) ∧
      t.tryCompleteById 3 0 none = .returned (.ok none, u)) ∧
    ¬endedReads.StaysResolved endedResult ∧
    (withBoth eagerReads firstFailed).poll 7 [] none =
      .returned (.ready (.ok endedResult), withBoth endedReads afterEnd) ∧
    ¬(withBoth endedReads afterEnd).StaysResolved endedResult := by
  refine ⟨rfl, rfl, ⟨_, rfl⟩, ⟨_, _, _, rfl, rfl⟩, fun h => ?_, rfl, fun h => ?_⟩
  · exact absurd (StandaloneBatchFuture.staysResolved_iff_completed.mp h) (by decide)
  · exact absurd ((staysResolved_iff_completed fun _ => rfl).mp h) (by decide)

end BatchFuture

end SaferRing
