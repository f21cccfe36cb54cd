import SaferRing.Batch.Borrowing
import SaferRing.Batch.Single
import SaferRing.Draining
import SaferRing.Wakers

/-!
# What wakes the task of a batch

A poll of a batch that answers `Pending` registers no waker. It wakes its own task when a
completion it took is of an operation of the batch, so that it is polled again; when it took none
of those, nothing of the call is left that could wake the task
(`SaferRing.StandaloneBatchFuture.ArrangesWakeUp`), unless the same task waits elsewhere for an
operation whose completion the poll took, or for one of the batch:
`SaferRing.BatchFuture.arrangesWakeUp_iff`.
-/

namespace SaferRing

namespace Ring

variable {self s t : Ring} {completions : List (ℕ × IoResult)}

/-! ### Who is woken -/

/-- **A waker is woken** on the way from one ring to another. -/
def Wakes (s t : Ring) (waker : Waker) : Prop :=
  ∃ woken, t.wakerRegistry.woken = s.wakerRegistry.woken ++ woken ∧ waker ∈ woken

/-- **Waking an operation** wakes who waits for it, and nobody waits for it any more. -/
theorem wakeOperation_wakers (self : Ring) (id : ℕ) :
    (self.wakeOperation id).wakerRegistry.woken =
        self.wakerRegistry.woken ++ (self.wakers.lookup id).toList ∧
      ∀ j, (self.wakeOperation id).wakers.lookup j =
        if j = id then none else self.wakers.lookup j := by
  unfold wakeOperation WakerRegistry.wakeOperation
  rcases hid : self.wakers.lookup id with _ | waker
  · refine ⟨(List.append_nil _).symm, fun j => ?_⟩
    by_cases hj : j = id
    · rw [if_pos hj, hj]
      exact hid
    · rw [if_neg hj]
  · refine ⟨rfl, fun j => ?_⟩
    by_cases hj : j = id
    · rw [if_pos hj, hj]
      exact AList.lookup_erase _ _
    · rw [if_neg hj]
      exact AList.lookup_erase_ne hj

/-- **Completions handed over wake who waits for them**, and nobody waits for them any more. -/
theorem wakers_processCompletedOperations (self : Ring) {results : List CompletionResult}
    (h : self.processCompletedOperations completions = (.ok results, t)) :
    t.wakerRegistry.woken = self.wakerRegistry.woken ++
        (completions.map Prod.fst).filterMap self.wakers.lookup ∧
      ∀ id, t.wakers.lookup id =
        if id ∈ completions.map Prod.fst then none else self.wakers.lookup id := by
  induction completions generalizing self results t with
  | nil =>
    obtain ⟨-, rfl⟩ := Prod.mk.inj h
    exact ⟨(List.append_nil _).symm, fun id => (if_neg List.not_mem_nil).symm⟩
  | cons c rest ih =>
    have hnodup := (processCompletedOperations_results h).2.1
    obtain ⟨k, res⟩ := c
    obtain ⟨hk, -⟩ := List.nodup_cons.mp hnodup
    rw [processCompletedOperations] at h
    rcases hl : self.operations.inFlight.lookup k with _ | handle
    · simp [OperationTracker.completeOperation, hl] at h
    simp only [OperationTracker.completeOperation, hl] at h
    split at h
    swap
    · exact absurd (Prod.mk.inj h).1 (by simp)
    rename_i handed ring hrest
    obtain ⟨-, rfl⟩ := Prod.mk.inj h
    obtain ⟨hwoken, hlookup⟩ := ih _ hrest
    let removed : Ring :=
      { self with operations := ⟨self.operations.inFlight.erase k, self.operations.nextId⟩ }
    obtain ⟨hone, hlost⟩ := removed.wakeOperation_wakers k
    -- the waker of the first operation is of none of the others
    have hsame : (rest.map Prod.fst).filterMap (removed.wakeOperation k).wakers.lookup =
        (rest.map Prod.fst).filterMap self.wakers.lookup := by
      refine List.filterMap_congr fun id hid => ?_
      have hne : id ≠ k := fun hc => hk (hc ▸ hid)
      rw [hlost, if_neg hne]
    rw [hsame, hone, List.append_assoc] at hwoken
    refine ⟨?_, fun id => ?_⟩
    · rw [hwoken, List.map_cons, List.filterMap_cons]
      rcases self.wakers.lookup k with _ | waker <;> rfl
    · rw [hlookup, hlost, List.map_cons]
      by_cases hid : id = k
      · rw [hid, if_neg hk, if_pos rfl, if_pos List.mem_cons_self]
      · rw [if_neg hid]
        exact if_congr (by rw [List.mem_cons, or_iff_right hid]) rfl rfl

end Ring

namespace StandaloneBatchFuture

/-! ### What a poll leaves behind -/

section Future

variable (self : StandaloneBatchFuture)

/-- An operation of the batch has no result. -/
def Unresolved (id : ℕ) : Prop :=
  ∃ i, self.operationIds[i]? = some (some id) ∧ self.resultAt i = none

/-- The batch records a completion of the operation `id`. -/
def Awaits (id : ℕ) : Prop := ∃ i, self.idToIndex.lookup id = some i ∧ self.resultAt i = none

/-- **A poll arranges a wake-up**: it woke the task, or the task is registered for an operation
that has no result. -/
def ArrangesWakeUp (s t : Ring) (waker : Waker) : Prop :=
  s.Wakes t waker ∨ ∃ id, self.Unresolved id ∧ t.wakers.lookup id = some waker

/-- A completion that a poll takes is of an operation of the batch that has no result. -/
def Progresses (s : Ring) (cached : List (ℕ × IoResult)) : Prop :=
  ∃ c ∈ s.taken cached, self.Awaits c.1

/-- **The task waits already**, for an operation whose completion a poll takes, or for one of the
batch that has no result. -/
def WaitsAlready (s : Ring) (waker : Waker) (cached : List (ℕ × IoResult)) : Prop :=
  ∃ id, s.wakers.lookup id = some waker ∧
    (id ∈ (s.taken cached).map Prod.fst ∨ self.Unresolved id)

end Future

variable {self s polled : StandaloneBatchFuture} {p : Progress} {c : CompletionResult}
  {completions : List CompletionResult} {ring t : Ring} {waker : Waker}
  {cached : List (ℕ × IoResult)} {fail : Option SaferRingError}

/-- A completion nothing awaits is passed over. -/
theorem recordCompletion_of_not_awaits (h : ¬p.future.Awaits c.operationId) :
    recordCompletion p c = p := by
  rw [recordCompletion]
  split
  · rfl
  · rename_i index hindex
    rw [if_pos]
    rw [Option.isSome_iff_ne_none]
    exact fun hnone => h ⟨index, hindex, hnone⟩

/-- A completion that is awaited is one that completed. -/
theorem anyCompleted_of_awaits (h : p.future.Awaits c.operationId) :
    (recordCompletion p c).anyCompleted = true := by
  obtain ⟨index, hindex, hnone⟩ := h
  simp only [recordCompletion, hindex, hnone, Option.isSome_none, Bool.false_eq_true, if_false]

/-- **A poll has seen a completion of its own** when one is among those it was handed. -/
theorem anyCompleted_seen :
    (s.seen completions).anyCompleted = true ↔ ∃ c ∈ completions, s.Awaits c.operationId := by
  have hfold : ∀ (completions : List CompletionResult) (p : Progress),
      (completions.foldl recordCompletion p).anyCompleted = true ↔
        p.anyCompleted = true ∨ ∃ c ∈ completions, p.future.Awaits c.operationId := by
    intro completions
    induction completions with
    | nil => simp
    | cons c rest ih =>
      intro p
      rw [List.foldl_cons, ih, List.exists_mem_cons_iff]
      by_cases hc : p.future.Awaits c.operationId
      · exact iff_of_true (Or.inl (anyCompleted_of_awaits hc)) (Or.inr (Or.inl hc))
      · rw [recordCompletion_of_not_awaits hc, or_iff_right hc]
  exact (hfold completions ⟨s, false, false, []⟩).trans (by simp)

/-- **A poll without completions of its own leaves the future as it is.** -/
theorem advanced_of_not_awaits (h : ∀ c ∈ completions, ¬s.Awaits c.operationId) :
    s.advanced completions = s := by
  have hseen : s.seen completions = ⟨s, false, false, []⟩ :=
    List.foldlRecOn (motive := fun p : Progress => p = ⟨s, false, false, []⟩) completions
      recordCompletion rfl fun p hp c hc => by
        subst hp
        exact recordCompletion_of_not_awaits (h c hc)
  rw [advanced, hseen]
  rfl

/-- **A poll that answers `Pending`** was handed what `try_complete` took, and wakes its task when
it has seen a completion of its own. -/
theorem pending_cases
    (h : self.pollWithRing ring waker cached fail = .returned (.pending, polled, t)) :
    ∃ results after, ring.tryComplete cached fail = .returned (.ok results, after) ∧
      polled = self.advanced results ∧
      t = { after with wakerRegistry := if (self.seen results).anyCompleted then
        after.wakerRegistry.wake waker else after.wakerRegistry } := by
  rcases pollWithRing_returned h with
    ⟨-, hanswer, -, -⟩ | ⟨hdone, e | results, after, hcall⟩
  · exact absurd hanswer (by simp)
  · rcases pollWithRing_cases waker hdone hcall with ⟨_, -, hpoll⟩ | ⟨_, ha, -⟩
    · rw [hpoll] at h
      cases h
    · exact absurd ha (by simp)
  · refine ⟨results, after, hcall, ?_⟩
    rw [pollWithRing_ok waker hdone hcall] at h
    split at h
    · cases h
    · split at h
      · cases h
      · cases h
        exact ⟨rfl, rfl⟩

/-- Who was woken by `try_complete`, and who is left to be. -/
theorem wakers_tryComplete {results : List CompletionResult}
    (h : ring.tryComplete cached fail = .returned (.ok results, t)) :
    t.wakerRegistry.woken = ring.wakerRegistry.woken ++
        ((ring.taken cached).map Prod.fst).filterMap ring.wakers.lookup ∧
      ∀ id, t.wakers.lookup id =
        if id ∈ (ring.taken cached).map Prod.fst then none else ring.wakers.lookup id := by
  obtain ⟨b, hcall⟩ := Ring.tryComplete_ok h
  exact Ring.wakers_processCompletedOperations { ring with completionCache := ∅, backend := b }
    hcall

/-- **When a poll that answers `Pending` arranges a wake-up.** -/
theorem arrangesWakeUp_of_pending
    (h : self.pollWithRing ring waker cached fail = .returned (.pending, polled, t)) :
    polled.ArrangesWakeUp ring t waker ↔
      self.Progresses ring cached ∨ self.WaitsAlready ring waker cached := by
  obtain ⟨results, after, hcall, rfl, rfl⟩ := pending_cases h
  obtain ⟨hwoken, hlookup⟩ := wakers_tryComplete hcall
  have hprogress : (self.seen results).anyCompleted = true ↔ self.Progresses ring cached := by
    rw [anyCompleted_seen, Progresses, ← (Ring.taken_of_ok hcall).1]
    simp
  by_cases hp : self.Progresses ring cached
  · -- the task is woken after what `try_complete` woke
    have hown : waker ∈
        ((ring.taken cached).map Prod.fst).filterMap ring.wakers.lookup ++ [waker] :=
      List.mem_append_right _ List.mem_cons_self
    refine iff_of_true (Or.inl ⟨_, ?_, hown⟩) (Or.inl hp)
    rw [if_pos (hprogress.mpr hp), ← List.append_assoc, ← hwoken]
    rfl
  have hsame : self.advanced results = self := by
    refine advanced_of_not_awaits fun c hc hawaits => hp (hprogress.mp ?_)
    exact anyCompleted_seen.mpr ⟨c, hc, hawaits⟩
  rw [or_iff_right hp, hsame, if_neg (mt hprogress.mp hp), ArrangesWakeUp, WaitsAlready]
  constructor
  · rintro (⟨woken, heq, hmem⟩ | ⟨id, hunresolved, hid⟩)
    · obtain rfl := List.append_cancel_left (hwoken.symm.trans heq)
      obtain ⟨id, hid, hlook⟩ := List.mem_filterMap.mp hmem
      exact ⟨id, hlook, Or.inl hid⟩
    · rw [show Ring.wakers { after with wakerRegistry := after.wakerRegistry } = after.wakers
        from rfl, hlookup] at hid
      split at hid
      · exact absurd hid (by simp)
      · exact ⟨id, hid, Or.inr hunresolved⟩
  · rintro ⟨id, hlook, htaken⟩
    by_cases hid : id ∈ (ring.taken cached).map Prod.fst
    · exact Or.inl ⟨_, hwoken, List.mem_filterMap.mpr ⟨id, hid, hlook⟩⟩
    · refine Or.inr ⟨id, htaken.resolve_left hid, ?_⟩
      exact (hlookup id).trans ((if_neg hid).trans hlook)

end StandaloneBatchFuture

namespace BatchFuture

/-- A poll that answers is one of the standalone future. -/
theorem pollWithRing_of_poll {self polled : BatchFuture} {waker : Waker}
    {cached : List (ℕ × IoResult)} {fail : Option SaferRingError}
    {answer : Poll (Except SaferRingError BatchResult)}
    (h : self.poll waker cached fail = .returned (answer, polled)) :
    self.pollWithRing self.ring waker cached fail =
      .returned (answer, polled.toStandaloneBatchFuture, polled.ring) := by
  rw [poll_eq] at h
  rcases hcall : self.pollWithRing self.ring waker cached fail with ⟨a, future, ring⟩ | _ | _
  all_goals
    rw [hcall] at h
    cases h
  rfl

/-- **A poll of a batch that answers `Pending` arranges a wake-up exactly when** it takes a
completion of an operation of the batch that has no result, or the task waits already, for an
operation whose completion it takes or for one of the batch. So it is of both futures. -/
theorem arrangesWakeUp_iff (waker : Waker) (cached : List (ℕ × IoResult))
    (fail : Option SaferRingError) :
    (∀ (future polled : StandaloneBatchFuture) (s t : Ring),
      future.pollWithRing s waker cached fail = .returned (.pending, polled, t) →
        (polled.ArrangesWakeUp s t waker ↔
          future.Progresses s cached ∨ future.WaitsAlready s waker cached)) ∧
    ∀ future polled : BatchFuture, future.poll waker cached fail = .returned (.pending, polled) →
      (polled.ArrangesWakeUp future.ring polled.ring waker ↔
        future.Progresses future.ring cached ∨ future.WaitsAlready future.ring waker cached) :=
  ⟨fun _ _ _ _ h => StandaloneBatchFuture.arrangesWakeUp_of_pending h,
    fun _ _ h => StandaloneBatchFuture.arrangesWakeUp_of_pending (pollWithRing_of_poll h)⟩

/-- The future of two reads. -/
def reads : StandaloneBatchFuture := .new [some 1, some 2] ∅ false

/-- The ring they were submitted to. -/
def submitted : Ring :=
  (Ring.new.submitBatchStandaloneWithConfig twoReads .default fun _ => .ok ()).2

/-- The ring once the first read is done. -/
def firstDone : Ring :=
  { submitted with backend := (submitted.backend.complete 0 (.ok 8)).getD submitted.backend }

/-- **The first of two reads is done**, so the task is woken and polls for the other. -/
theorem arrangesWakeUp_firstDone :
    Ring.new.submitBatchStandaloneWithConfig twoReads .default (fun _ => .ok ()) =
      (.ok reads, submitted) ∧
    (∃ polled t, reads.pollWithRing firstDone 7 [] none = .returned (.pending, polled, t) ∧
      polled.ArrangesWakeUp firstDone t 7) ∧
    ∃ polled, (withBoth reads firstDone).poll 7 [] none = .returned (.pending, polled) ∧
      polled.ArrangesWakeUp firstDone polled.ring 7 := by
  have hprogress : reads.Progresses firstDone [] := ⟨(1, .ok 8), List.mem_cons_self, 0, rfl, rfl⟩
  have hiff := arrangesWakeUp_iff 7 [] none
  exact ⟨rfl, ⟨_, _, rfl, (hiff.1 reads _ firstDone _ rfl).mpr (Or.inl hprogress)⟩,
    ⟨_, rfl, (hiff.2 (withBoth reads firstDone) _ rfl).mpr (Or.inl hprogress)⟩⟩

/-- **Neither of two reads is done**: the batch answers `Pending` and leaves its ring as it was, in
which no waker is registered. -/
theorem not_arrangesWakeUp_twoReads :
    Ring.new.submitBatchStandaloneWithConfig twoReads .default (fun _ => .ok ()) =
      (.ok reads, submitted) ∧
    reads.Unresolved 1 ∧ submitted.wakers = ∅ ∧
    reads.pollWithRing submitted 7 [] none = .returned (.pending, reads, submitted) ∧
    ¬reads.ArrangesWakeUp submitted submitted 7 ∧
    (withBoth reads submitted).poll 7 [] none = .returned (.pending, withBoth reads submitted) := by
  have hpoll : reads.pollWithRing submitted 7 [] none =
      .returned (.pending, reads, submitted) := rfl
  refine ⟨rfl, ⟨0, rfl, rfl⟩, rfl, hpoll, fun h => ?_, rfl⟩
  rcases (StandaloneBatchFuture.arrangesWakeUp_of_pending hpoll).mp h with
    ⟨c, hc, -⟩ | ⟨id, hid, -⟩
  · exact absurd hc List.not_mem_nil
  · have hnone : submitted.wakers.lookup id = none := rfl
    exact absurd (hnone.symm.trans hid) (by simp)

end BatchFuture

end SaferRing
