import SaferRing.Polling

/-!
# A draining call that fails

`try_complete` and `wait_for_completion` empty the cache before they ask the backend, and hand over
what they have one completion after the other, until one is of an operation that is not tracked. An
error of the backend, or of that one completion, is all they then return: what they took from the
cache and from the backend is gone.

What a ring still has to hand over is `SaferRing.Ring.held`: nothing else is ever handed out
(`SaferRing.Ring.mem_held_of_retrieved`). A draining call that fails keeps it **exactly when there
was nothing to lose**: `SaferRing.Ring.keepsHeld_iff`.
-/

namespace SaferRing

namespace Ring

variable {self s t : Ring} {cached completions : List (ℕ × IoResult)} {fail : Option SaferRingError}

/-! ### What a ring has to hand over -/

/-- **The completions a ring has to hand over**: those in its cache, and those its backend has. -/
def held (self : Ring) : List (ℕ × IoResult) := self.cachedCompletions ++ self.backend.waiting

/-- A completion is in the cache under its id. -/
theorem mem_cachedCompletions {c : ℕ × IoResult} :
    c ∈ self.cachedCompletions ↔ self.cached c.1 = some c.2 := by
  obtain ⟨id, res⟩ := c
  rw [cachedCompletions, List.mem_map]
  constructor
  · rintro ⟨entry, hentry, heq⟩
    obtain ⟨rfl, rfl⟩ := Prod.mk.inj heq
    exact AList.mem_lookup_iff.mpr hentry
  · exact fun h => ⟨⟨id, res⟩, AList.mem_lookup_iff.mp h, rfl⟩

/-- What is found among completions is one of them. -/
theorem mem_of_collect {id : ℕ} {res : IoResult} {ring : Ring}
    (h : (collect id completions none ring).1 = some res) : (id, res) ∈ completions := by
  have hfound : ∀ v, (collect id completions none ring).1 = some v → (id, v) ∈ completions := by
    refine List.foldlRecOn (motive := fun r : Option IoResult × Ring =>
      ∀ v, r.1 = some v → (id, v) ∈ completions) completions _ (fun v hv => ?_) fun r hr c hc => ?_
    · exact absurd hv (by simp)
    · intro v hv
      simp only [collectCompletion] at hv
      split at hv
      · split at hv
        · rename_i hid
          obtain rfl := Option.some.inj hv
          exact hid ▸ hc
        · exact hr v hv
      · exact hr v hv
  exact hfound res h

/-- The operations of completions are all tracked, each for one of them. -/
def AllTracked (self : Ring) (completions : List (ℕ × IoResult)) : Prop :=
  (completions.map Prod.fst).Nodup ∧ ∀ id ∈ completions.map Prod.fst, id ∈ self.operations.inFlight

/-- **Completions handed over are those there were**, all of tracked operations. -/
theorem processCompletedOperations_results {results : List CompletionResult}
    (h : self.processCompletedOperations completions = (.ok results, t)) :
    results.map (fun c => (c.operationId, c.result)) = completions ∧
      self.AllTracked completions := by
  induction completions generalizing self results t with
  | nil =>
    obtain ⟨hres, -⟩ := Prod.mk.inj h
    obtain rfl := Except.ok.inj hres
    exact ⟨rfl, List.nodup_nil, fun id hid => absurd hid List.not_mem_nil⟩
  | cons c rest ih =>
    obtain ⟨k, res⟩ := c
    rw [processCompletedOperations] at h
    rcases hk : self.operations.inFlight.lookup k with _ | handle
    · simp [OperationTracker.completeOperation, hk] at h
    · simp only [OperationTracker.completeOperation, hk] at h
      split at h
      · rename_i handed ring hrest
        obtain ⟨hres, -⟩ := Prod.mk.inj h
        obtain rfl := Except.ok.inj hres
        obtain ⟨hmap, hnodup, htracked⟩ := ih hrest
        -- what is tracked after the first completion is not its operation
        have hleft : ∀ id ∈ rest.map Prod.fst, id ≠ k ∧ id ∈ self.operations.inFlight :=
          fun id hid => AList.mem_erase.mp (htracked id hid)
        refine ⟨congrArg ((k, res) :: ·) hmap, ?_, fun id hid => ?_⟩
        · exact List.nodup_cons.mpr ⟨fun hc => (hleft k hc).1 rfl, hnodup⟩
        · rcases List.mem_cons.mp hid with rfl | hid
          · exact AList.lookup_isSome.mp (by rw [hk]; rfl)
          · exact (hleft id hid).2
      · exact absurd (Prod.mk.inj h).1 (by simp)

/-- **Completions are handed over exactly when their operations are tracked.** -/
theorem processCompletedOperations_ok_iff :
    (∃ results t, self.processCompletedOperations completions = (.ok results, t)) ↔
      self.AllTracked completions := by
  constructor
  · rintro ⟨results, t, h⟩
    exact (processCompletedOperations_results h).2
  · rintro ⟨hnodup, htracked⟩
    obtain ⟨results, t, h, -⟩ := self.processCompletedOperations_ok hnodup htracked
    exact ⟨results, t, h⟩

/-! ### What `try_complete` takes -/

/-- The completions `try_complete` takes: what is cached, and where nothing is, what waits. -/
def taken (self : Ring) (cached : List (ℕ × IoResult)) : List (ℕ × IoResult) :=
  if cached.isEmpty then self.backend.waiting else cached

/-- **`try_complete` hands over what it takes.** -/
theorem tryComplete_ok {results : List CompletionResult}
    (h : self.tryComplete cached fail = .returned (.ok results, t)) :
    ∃ b, { self with completionCache := ∅, backend := b }.processCompletedOperations
      (self.taken cached) = (.ok results, t) := by
  unfold tryComplete processCompletionQueue at h
  unfold taken
  rw [if_neg Bool.false_ne_true] at h
  split at h
  · rename_i hempty
    rw [if_pos hempty]
    rcases fail with _ | e
    · exact ⟨_, Outcome.returned.inj h⟩
    · exact absurd (Prod.mk.inj (Outcome.returned.inj h)).1 (by simp)
  · rename_i hempty
    rw [if_neg hempty]
    exact ⟨_, Outcome.returned.inj h⟩

/-- **`try_complete` returns what it takes**, each completion of another operation. -/
theorem taken_of_ok {results : List CompletionResult}
    (h : self.tryComplete cached fail = .returned (.ok results, t)) :
    results.map (fun c => (c.operationId, c.result)) = self.taken cached ∧
      (results.map CompletionResult.operationId).Nodup := by
  obtain ⟨b, hcall⟩ := tryComplete_ok h
  obtain ⟨hmap, hnodup, -⟩ := processCompletedOperations_results hcall
  refine ⟨hmap, ?_⟩
  rw [← hmap, List.map_map] at hnodup
  exact hnodup

/-- A call that retrieves a completion: one for its operation, or one for all. -/
def Retrieves (self : Ring) (c : ℕ × IoResult) : Prop :=
  (∃ count fail t, self.tryCompleteById c.1 count fail = .returned (.ok (some c.2), t)) ∨
    ∃ cached fail results t, cached.Perm self.cachedCompletions ∧
      (self.tryComplete cached fail = .returned (.ok results, t) ∨
        self.waitForCompletion cached fail = .returned (.ok results, t)) ∧
      c ∈ results.map fun r => (r.operationId, r.result)

/-- **Nothing but what is held is ever handed over.** -/
theorem mem_held_of_retrieved {c : ℕ × IoResult} (h : self.Retrieves c) : c ∈ self.held := by
  have hdrain : ∀ wait cached fail results t, cached.Perm self.cachedCompletions →
      self.processCompletionQueue wait cached fail = .returned (.ok results, t) →
      c ∈ results.map (fun r => (r.operationId, r.result)) → c ∈ self.held := by
    intro wait cached fail results t hperm hcall hc
    rcases processCompletionQueue_cases hcall with ⟨e, -, he, -⟩ | ⟨b, completions, hwhat, hproc⟩
    · exact absurd he (by simp)
    rw [(processCompletedOperations_results hproc).1] at hc
    rcases hwhat with ⟨-, rfl⟩ | ⟨-, rfl⟩
    · exact List.mem_append_left _ (hperm.mem_iff.mp hc)
    · rcases List.mem_append.mp hc with hc | hc
      · exact List.mem_append_left _ (hperm.mem_iff.mp hc)
      · exact List.mem_append_right _ hc
  rcases h with ⟨count, fail, t, hcall⟩ | ⟨cached, fail, results, t, hperm, hcall | hcall, hc⟩
  · rcases tryCompleteById_cases hcall with ⟨res, hcached, ha, -⟩ | ⟨e, -, -, ha, -⟩ | ⟨-, -, ha, -⟩
    · rw [Except.ok.injEq, Option.some.injEq] at ha
      exact List.mem_append_left _ (mem_cachedCompletions.mpr (ha ▸ hcached))
    · exact absurd ha (by simp)
    · exact List.mem_append_right _ (mem_of_collect (Except.ok.inj ha).symm)
  · exact hdrain false cached fail results t hperm hcall hc
  · unfold waitForCompletion at hcall
    split at hcall
    · exact hdrain true cached fail results t hperm hcall hc
    · exact absurd hcall (by simp)

/-! ### What a failure should leave -/

/-- **A ring keeps what another one has to hand over**: every completion, as many times as it was
there, and the operations it is of stay tracked. -/
structure KeepsHeld (s t : Ring) : Prop where
  held : s.held.Subperm t.held
  tracked : ∀ id ∈ s.held.map Prod.fst, id ∈ s.operations.inFlight → id ∈ t.operations.inFlight

/-- Nothing is lost of an empty cache. -/
theorem keepsHeld_of_nil (h : self.cachedCompletions = []) :
    self.KeepsHeld { self with completionCache := ∅ } := by
  refine ⟨?_, fun _ _ hid => hid⟩
  rw [held, h]
  exact List.Subperm.refl _

/-- **Completions that were taken are lost when handing them over fails.** -/
theorem not_keepsHeld (hheld : s.held.Perm (completions ++ t.held)) (hne : completions ≠ []) :
    ¬s.KeepsHeld t := by
  intro hkeep
  have hle := hkeep.held.length_le
  rw [hheld.length_eq, List.length_append] at hle
  have hpos := List.length_pos_iff.mpr hne
  omega

/-- What is taken from the cache, and from the backend, is what is lost. -/
theorem held_processCompletedOperations {b : Backend}
    {a : Except SaferRingError (List CompletionResult)}
    (h : { self with completionCache := ∅, backend := b }.processCompletedOperations completions =
      (a, t)) : t.held = b.waiting := by
  obtain ⟨hb, -, -, hc⟩ := processCompletedOperations_frame
    { self with completionCache := ∅, backend := b } completions
  rw [h] at hb hc
  rw [held, cachedCompletions, show t.completionCache = ∅ from hc, show t.backend = b from hb]
  rfl

/-- **Handing over what was taken keeps what was held exactly when it does not fail.** -/
theorem keepsHeld_processed {b : Backend} (hheld : self.held.Perm (completions ++ b.waiting)) :
    (∀ e t, Outcome.returned ({ self with completionCache := ∅, backend := b
        }.processCompletedOperations completions) = .returned (.error e, t) → self.KeepsHeld t) ↔
      self.AllTracked completions := by
  let ring : Ring := { self with completionCache := ∅, backend := b }
  have hok : (∃ results t, ring.processCompletedOperations completions = (.ok results, t)) ↔
      self.AllTracked completions := processCompletedOperations_ok_iff
  rw [← hok]
  simp only [Outcome.returned.injEq]
  constructor
  · intro hkeep
    rcases hcall : ring.processCompletedOperations completions with ⟨e | results, t⟩
    · -- it fails, so there was something to hand over
      have hne : completions ≠ [] := by
        rintro rfl
        exact absurd hcall (by simp [processCompletedOperations])
      rw [← held_processCompletedOperations hcall] at hheld
      exact absurd (hkeep e t hcall) (not_keepsHeld hheld hne)
    · exact ⟨results, t, rfl⟩
  · rintro ⟨results, u, hu⟩ e t hcall
    exact absurd (hu.symm.trans hcall) (by simp)

/-- **When `try_complete` keeps what is held.** -/
theorem keepsHeld_tryComplete (hcached : cached.Perm self.cachedCompletions) :
    (∀ e t, self.tryComplete cached fail = .returned (.error e, t) → self.KeepsHeld t) ↔
      self.AllTracked cached ∧
        (cached = [] → fail = none → self.AllTracked self.backend.waiting) := by
  have hheld : self.held.Perm (cached ++ self.backend.waiting) := hcached.symm.append_right _
  by_cases hempty : cached = []
  · subst hempty
    have hnone : self.AllTracked [] := ⟨List.nodup_nil, fun _ hid => absurd hid List.not_mem_nil⟩
    rcases fail with _ | e
    · have hwaiting : self.held.Perm (self.backend.waiting ++ self.backend.drained.waiting) := by
        rwa [show self.backend.drained.waiting = [] from rfl, List.append_nil]
      simp only [hnone, true_and, forall_const]
      exact keepsHeld_processed hwaiting
    · refine iff_of_true (fun e' t hcall => ?_) ⟨hnone, fun _ h => absurd h (by simp)⟩
      obtain ⟨-, rfl⟩ := Prod.mk.inj (Outcome.returned.inj hcall)
      exact keepsHeld_of_nil hcached.nil_eq.symm
  · have hcall : self.tryComplete cached fail =
        .returned ({ self with completionCache := ∅ }.processCompletedOperations cached) := by
      have hne : cached.isEmpty = false := List.isEmpty_eq_false_iff.mpr hempty
      simp [tryComplete, processCompletionQueue, hne]
    rw [hcall, and_iff_left fun h => absurd h hempty]
    exact keepsHeld_processed hheld

/-- A wait, where it gets as far as waiting. -/
theorem waitForCompletion_of_inFlight (h : self.hasOperationsInFlight = true)
    (cached : List (ℕ × IoResult)) (fail : Option SaferRingError) :
    self.waitForCompletion cached fail = match fail with
      | some e => .returned (.error e, { self with completionCache := ∅ })
      | none =>
        if self.backend.ready = [] then .blocked
        else .returned ({ self with
          completionCache := ∅
          backend := self.backend.drained
          }.processCompletedOperations (cached ++ self.backend.waiting)) := by
  rw [waitForCompletion, if_pos h, processCompletionQueue, if_pos rfl]
  rcases fail with _ | e
  · simp only [Backend.waitForCompletion, List.isEmpty_iff]
    by_cases hready : self.backend.ready = []
    · rw [if_pos hready, if_pos hready]
    · rw [if_neg hready, if_neg hready]
      rfl
  · rfl

/-- **When `wait_for_completion` keeps what is held.** -/
theorem keepsHeld_waitForCompletion (hcached : cached.Perm self.cachedCompletions) :
    (∀ e t, self.waitForCompletion cached fail = .returned (.error e, t) → self.KeepsHeld t) ↔
      (self.hasOperationsInFlight = true → (fail ≠ none → cached = []) ∧
        (fail = none → self.backend.ready ≠ [] →
          self.AllTracked (cached ++ self.backend.waiting))) := by
  have hheld : self.held.Perm (cached ++ self.backend.waiting) := hcached.symm.append_right _
  by_cases hflight : self.hasOperationsInFlight = true
  swap
  · refine iff_of_true (fun e t hcall => ?_) (fun h => absurd h hflight)
    rw [waitForCompletion, if_neg hflight] at hcall
    obtain ⟨-, rfl⟩ := Prod.mk.inj (Outcome.returned.inj hcall)
    exact ⟨List.Subperm.refl _, fun _ _ hid => hid⟩
  rw [waitForCompletion_of_inFlight hflight, forall_prop_of_true hflight]
  rcases fail with _ | e
  · by_cases hready : self.backend.ready = []
    · simp [hready]
    · have hwaiting : self.held.Perm
          (cached ++ self.backend.waiting ++ self.backend.drained.waiting) := by
        rwa [show self.backend.drained.waiting = [] from rfl, List.append_nil]
      simpa [hready] using keepsHeld_processed hwaiting
  · have hkeep : self.KeepsHeld { self with completionCache := ∅ } ↔ cached = [] := by
      constructor
      · intro hkeep
        by_contra hne
        exact not_keepsHeld hheld hne hkeep
      · rintro rfl
        exact keepsHeld_of_nil hcached.nil_eq.symm
    simp [hkeep]

/-- **A draining call that fails keeps what the ring has to hand over exactly when**, for
`try_complete`: what is cached is of tracked operations, and where nothing is, what waits is, unless
the backend fails. For `wait_for_completion`, where it gets as far as waiting: nothing is cached
when the backend fails; and when it does not, what is cached and what waits is of tracked
operations, unless nothing waits, and the call blocks. -/
theorem keepsHeld_iff (self : Ring) {cached : List (ℕ × IoResult)}
    (hcached : cached.Perm self.cachedCompletions) (fail : Option SaferRingError) :
    ((∀ e t, self.tryComplete cached fail = .returned (.error e, t) → self.KeepsHeld t) ↔
      self.AllTracked cached ∧
        (cached = [] → fail = none → self.AllTracked self.backend.waiting)) ∧
    ((∀ e t, self.waitForCompletion cached fail = .returned (.error e, t) → self.KeepsHeld t) ↔
      (self.hasOperationsInFlight = true → (fail ≠ none → cached = []) ∧
        (fail = none → self.backend.ready ≠ [] →
          self.AllTracked (cached ++ self.backend.waiting)))) :=
  ⟨keepsHeld_tryComplete hcached, keepsHeld_waitForCompletion hcached⟩

/-- **An idle ring loses nothing**, and one with a read in flight loses nothing when a wait is
interrupted. -/
theorem keepsHeld_reading : reading.hasOperationsInFlight = true ∧
    (∀ e t, new.tryComplete [] (some interrupted) = .returned (.error e, t) → new.KeepsHeld t) ∧
    ∀ e t, reading.waitForCompletion [] (some interrupted) = .returned (.error e, t) →
      reading.KeepsHeld t := by
  have hnew := keepsHeld_iff new (List.Perm.refl new.cachedCompletions) (some interrupted)
  have hreading := keepsHeld_iff reading (List.Perm.refl reading.cachedCompletions)
    (some interrupted)
  have hnone : new.AllTracked [] := ⟨List.nodup_nil, fun _ hid => absurd hid List.not_mem_nil⟩
  exact ⟨rfl, hnew.1.mpr ⟨hnone, fun _ h => absurd h (by simp)⟩,
    hreading.2.mpr fun _ => ⟨fun _ => rfl, fun h => absurd h (by simp)⟩⟩

/-- A ring that two reads were submitted to, of which the first is done. -/
def readingTwo : Ring :=
  let ring := (reading.submit ⟨.pinned ⟨8192, 8⟩, .raw 4, 0, .read, ⟨⟩⟩ (.ok ())).2
  { ring with backend := (ring.backend.complete 0 (.ok 8)).getD ring.backend }

/-- The ring once the second read was asked for, which has the result of the first in its cache. -/
def firstCached : Ring := (readingTwo.collectFor 2).2

/-- **A wait that is interrupted loses the result of the first read**, whose operation stays tracked
and will never complete. -/
theorem not_keepsHeld_firstCached : ∃ ring,
    readingTwo.tryCompleteById 2 0 none = .returned (.ok none, firstCached) ∧
    firstCached.cached 1 = some (.ok 8) ∧
    firstCached.waitForCompletion firstCached.cachedCompletions (some interrupted) =
      .returned (.error interrupted, ring) ∧
    ¬ring.Retrieves (1, .ok 8) ∧ 1 ∈ ring.operations.inFlight ∧
    1 ∉ ring.backend.inFlightIds ∧ ¬firstCached.KeepsHeld ring := by
  have hcall : firstCached.waitForCompletion firstCached.cachedCompletions (some interrupted) =
      .returned (.error interrupted, { firstCached with completionCache := ∅ }) := rfl
  have hheld : Ring.held { firstCached with completionCache := ∅ } = [] := rfl
  refine ⟨_, rfl, rfl, hcall, fun h => ?_, by decide, by decide, fun h => ?_⟩
  · have hmem := mem_held_of_retrieved h
    rw [hheld] at hmem
    exact absurd hmem List.not_mem_nil
  · have hle := h.held.length_le
    rw [hheld] at hle
    exact absurd hle (by decide)

end Ring

end SaferRing
