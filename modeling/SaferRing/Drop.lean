import SaferRing.Ids

/-!
# Dropping a ring

`SaferRing.Ring.drop` panics while operations are in flight, and looks for them in the
tracker of the legacy interface. What is tracked and what the backend works on are two
things: an operation the backend refused stays tracked, which makes the ring panic for
nothing, and an owned operation is never tracked.

`SaferRing.Ring.Watched` is what the tracker is good for: a legacy operation in flight is
tracked, and its completion is not in the cache. No call that collects completions takes
that away (`SaferRing.Ring.Spares`), so `SaferRing.dropGuards_iff` is that **the guard fails
exactly when an owned operation is in flight and no legacy one is tracked**.
-/

namespace SaferRing

open Transition (Move)

namespace Ring

variable (self : Ring)

/-- **`Ring::drop`**, with the message of its panic. -/
def drop : Except String Unit :=
  let count := self.operations.count
  if count > 0 then
    let message := self.operations.debugInfo.foldl
      (fun message (id, opType, fd) =>
        message ++ s!"  - Operation {id}: {opType.debug} on fd {fd}\n")
      s!"Ring dropped with {count} operations in flight:\n"
    .error (message ++ "All operations must complete before dropping the ring.")
  else .ok ()

variable {self}

/-- A ring drops quietly when it tracks nothing. -/
theorem drop_eq_ok_iff : self.drop = .ok () ↔ ∀ id, id ∉ self.operations.inFlight := by
  have hcount : self.operations.count = 0 ↔ ∀ id, id ∉ self.operations.inFlight := by
    rw [OperationTracker.count, List.length_eq_zero_iff, List.eq_nil_iff_forall_not_mem]
    exact forall_congr' fun id => not_congr AList.mem_keys.symm
  rw [← hcount, drop]
  by_cases h : self.operations.count > 0
  · rw [if_pos h]
    simp [Nat.ne_of_gt h]
  · rw [if_neg h]
    simp [Nat.eq_zero_of_not_pos h]

/-! ### What collecting leaves of an operation -/

/-- **A call spares an operation**: it goes on tracking it, and caches no completion
of it. -/
structure Spares (s t : Ring) (j : ℕ) : Prop where
  tracked : j ∈ s.operations.inFlight → j ∈ t.operations.inFlight
  uncached : s.cached j = none → t.cached j = none

namespace Spares

variable {s t u : Ring} {j : ℕ}

theorem of_eq (ho : t.operations.inFlight = s.operations.inFlight)
    (hc : t.completionCache = s.completionCache) : Spares s t j := by
  refine ⟨fun h => ho ▸ h, fun h => ?_⟩
  rw [cached, hc]
  exact h

theorem trans (h : Spares s t j) (h' : Spares t u j) : Spares s u j :=
  ⟨fun hj => h'.tracked (h.tracked hj), fun hj => h'.uncached (h.uncached hj)⟩

/-- Handing completions to their operations spares the others. -/
theorem processCompletedOperations (s : Ring) {completions : List (ℕ × IoResult)}
    (hj : j ∉ completions.map Prod.fst) :
    Spares s (s.processCompletedOperations completions).2 j := by
  refine processCompletedOperations_induction (P := fun ring => Spares s ring j)
    (fun ring k hk h => ⟨fun hs => ?_, h.uncached⟩) s (of_eq rfl rfl)
  have hne : j ≠ k := fun hc => hj (hc ▸ hk)
  exact (OperationTracker.mem_completeOperation _).mpr ⟨hne, h.tracked hs⟩

/-- Emptying the cache and asking the backend spares what has its completion in
neither. -/
theorem processCompletionQueue {wait : Bool} {cached : List (ℕ × IoResult)}
    {fail : Option SaferRingError} {a : Except SaferRingError (List CompletionResult)}
    (h : s.processCompletionQueue wait cached fail = .returned (a, t))
    (hj : j ∉ cached.map Prod.fst)
    (hw : t.backend = s.backend.drained → j ∉ s.backend.waiting.map Prod.fst) :
    Spares s t j := by
  rcases processCompletionQueue_cases h with ⟨_, -, -, rfl⟩ | ⟨b, completions, hwhat, hcall⟩
  · exact ⟨fun h => h, fun _ => rfl⟩
  let ring : Ring := { s with completionCache := ∅, backend := b }
  have hnot : j ∉ completions.map Prod.fst := by
    rcases hwhat with ⟨-, rfl⟩ | ⟨rfl, rfl⟩
    · exact hj
    · obtain ⟨hb, -⟩ := ring.processCompletedOperations_frame (cached ++ s.backend.waiting)
      rw [hcall] at hb
      rw [List.map_append, List.mem_append, not_or]
      exact ⟨hj, hw hb⟩
  -- whatever was in the cache, nothing is from here on
  have hspares := processCompletedOperations ring hnot
  rw [hcall] at hspares
  exact ⟨hspares.tracked, fun _ => hspares.uncached rfl⟩

/-- Taking completions, looking for one, spares the others. -/
theorem foldl_collectCompletion (id : ℕ) {completions : List (ℕ × IoResult)}
    (acc : Option IoResult × Ring) (hj : j ∉ completions.map Prod.fst) :
    Spares acc.2 (completions.foldl (collectCompletion id) acc).2 j := by
  refine List.foldlRecOn (motive := fun r : Option IoResult × Ring => Spares acc.2 r.2 j)
    completions _ (of_eq rfl rfl) fun r h c hc => h.trans ?_
  have hne : j ≠ c.1 := fun hcj => hj (hcj ▸ List.mem_map_of_mem hc)
  simp only [collectCompletion]
  split
  · split
    · exact ⟨fun h => (OperationTracker.mem_completeOperation _).mpr ⟨hne, h⟩, fun h => h⟩
    · exact ⟨fun h => h, fun h => (AList.lookup_insert_ne hne).trans h⟩
  · exact of_eq rfl rfl

/-- `try_complete_by_id`. -/
theorem tryCompleteById {id count : ℕ} {fail : Option SaferRingError}
    {a : Except SaferRingError (Option IoResult)}
    (h : s.tryCompleteById id count fail = .returned (a, t)) (hj : s.cached j = none)
    (hw : t.backend = s.backend.drained → j ∉ s.backend.waiting.map Prod.fst) :
    Spares s t j := by
  rcases tryCompleteById_cases h with
    ⟨result, hcached, -, rfl⟩ | ⟨_, -, -, -, rfl⟩ | ⟨-, -, -, rfl⟩
  -- taken from the cache, which has nothing of the operation spared
  · have hne : j ≠ id := by
      rintro rfl
      exact absurd (hcached.symm.trans hj) (by simp)
    exact ⟨fun h => (OperationTracker.mem_completeOperation _).mpr ⟨hne, h⟩,
      fun h => (AList.lookup_erase_ne hne).trans h⟩
  · exact of_eq rfl rfl
  · let taken : Ring := { s with backend := s.backend.drained }
    have htaken : Spares s taken j := of_eq rfl rfl
    exact htaken.trans (foldl_collectCompletion id (none, taken) (hw backend_collectFor))

/-- `poll_operation_completion` spares every operation. -/
theorem pollOperationCompletion (s : Ring) (id : ℕ) (fail : Option SaferRingError) (j : ℕ) :
    Spares s (s.pollOperationCompletion id fail).2 j := by
  rcases fail with _ | e
  · have hfind := findCompletion_frame id { s with backend := s.backend.drained } s.backend.waiting
    simp only [Ring.pollOperationCompletion, Backend.tryComplete]
    rw [hfind]
    exact of_eq rfl rfl
  · exact of_eq rfl rfl

/-- An owned operation that looks for its completion spares what is not among those it
collects. -/
theorem tryCompleteSafeOperation (s : Ring) (id : ℕ) (fail : Option SaferRingError)
    (hw : (s.tryCompleteSafeOperation id fail).2.backend = s.backend.drained →
      j ∉ s.backend.waiting.map Prod.fst) :
    Spares s (s.tryCompleteSafeOperation id fail).2 j := by
  rcases s.tryCompleteSafeOperation_cases id fail with ⟨result, hc, h⟩ | ⟨_, -, -, h⟩ | ⟨-, -, h⟩
  · rw [h]
    refine ⟨fun h => h, fun hj => ?_⟩
    have hne : j ≠ id := by
      rintro rfl
      exact absurd (hc.symm.trans hj) (by simp)
    exact (AList.lookup_erase_ne hne).trans hj
  · rw [h]
    exact of_eq rfl rfl
  · obtain ⟨hb, ho, -⟩ := @route_frame { s with backend := s.backend.drained } id
      s.backend.waiting none
    rw [h] at hw ⊢
    have hops : (s.drainFor id).2.operations = s.operations := ho
    refine ⟨fun hj => hops ▸ hj, fun hj => ?_⟩
    exact (cached_route_of_notMem (Or.inl (hw hb))).trans hj

end Spares

end Ring

/-- **Polling a future spares what is not among the completions it collects.** -/
theorem OwnedFuture.spares_poll {future polled : OwnedFuture} {ring ring' : Ring} {waker : Waker}
    {fail : Option SaferRingError} {answer : Poll SafeOutput} {j : ℕ}
    (h : future.poll ring waker fail = some (answer, polled, ring'))
    (hw : ring'.backend = ring.backend.drained → j ∉ ring.backend.waiting.map Prod.fst) :
    ring.Spares ring' j := by
  rcases hop : future.operation with _ | op
  · obtain ⟨rfl, -⟩ := poll_of_not_live (fun op hop' => by simp [hop] at hop') h
    exact .of_eq rfl rfl
  rw [OwnedFuture.poll_eq hop] at h
  obtain ⟨-, -, rfl⟩ : _ ∧ _ ∧ _ = ring' := by simpa using h
  -- whatever comes of the call, the future changes no more than wakers and orphans after it
  have hcall := Ring.Spares.tryCompleteSafeOperation (j := j) ring op.submissionId fail
  revert hw
  simp only [pollOperation]
  split
  · exact fun _ => .of_eq rfl rfl
  split
  · rename_i hdone
    rw [hdone] at hcall
    split
    · exact hcall
    · exact fun hw => (hcall hw).trans (.of_eq rfl rfl)
  · rename_i hdone
    rw [hdone] at hcall
    exact fun hw => (hcall hw).trans (.of_eq rfl rfl)
  · rename_i hdone
    rw [hdone] at hcall
    exact fun hw => (hcall hw).trans (.of_eq rfl rfl)

/-! ### What the tracker is good for -/

namespace Ring

/-- **Every legacy operation in flight is tracked**, and its completion is not in the
cache. -/
structure Watched (ring : Ring) : Prop where
  tracked : ∀ r ∈ ring.backend.inFlight, r.caller.isLegacy = true →
    r.userData ∈ ring.operations.inFlight
  uncached : ∀ r ∈ ring.backend.inFlight, r.caller.isLegacy = true →
    ring.cached r.userData = none

namespace Watched

variable {s t : Ring}

theorem new : Watched Ring.new := by
  constructor <;>
  · intro r hr
    exact absurd hr (by simp [Ring.new, Backend.new, Backend.inFlight])

/-- What is in flight after a call was so before, and is spared. -/
theorem of_spares (h : Watched s) (hfl : ∀ r ∈ t.backend.inFlight, r.caller.isLegacy = true →
    r ∈ s.backend.inFlight ∧ Spares s t r.userData) : Watched t := by
  refine ⟨fun r hr hl => ?_, fun r hr hl => ?_⟩
  · obtain ⟨hin, hs⟩ := hfl r hr hl
    exact hs.tracked (h.tracked r hin hl)
  · obtain ⟨hin, hs⟩ := hfl r hr hl
    exact hs.uncached (h.uncached r hin hl)

/-- **Completions are taken, or not**: what stays in flight is not among them. -/
theorem taken (h : Watched s) (hnd : s.backend.inFlightIds.Nodup)
    (hb : t.backend = s.backend ∨ t.backend = s.backend.drained)
    (hs : ∀ j, s.cached j = none →
      (t.backend = s.backend.drained → j ∉ s.backend.waiting.map Prod.fst) → Spares s t j) :
    Watched t := by
  refine h.of_spares fun r hr hl => ?_
  have hin : r ∈ s.backend.inFlight := by
    rcases hb with hb | hb
    · exact hb ▸ hr
    · rw [hb, Backend.inFlight_drained] at hr
      exact Backend.mem_inFlight.mpr (Or.inl hr)
  refine ⟨hin, hs _ (h.uncached r hin hl) fun hd hw => ?_⟩
  rw [hd, Backend.inFlight_drained] at hr
  rw [Backend.inFlightIds_eq] at hnd
  exact List.disjoint_of_nodup_append hnd (List.mem_map_of_mem hr) hw

/-- An operation of the owned interface is accepted, or nothing is. -/
theorem owned (h : Watched s)
    (hfl : ∀ r ∈ t.backend.inFlight, r.caller.isLegacy = true → r ∈ s.backend.inFlight)
    (ho : t.operations = s.operations) (hc : t.completionCache = s.completionCache) :
    Watched t :=
  h.of_spares fun r hr hl => ⟨hfl r hr hl, .of_eq (congrArg OperationTracker.inFlight ho) hc⟩

/-- **A legacy submission tracks what it submits**, under an id that nothing is cached
for. -/
theorem submit (h : Watched s) {operation : Operation Building}
    {answer : Except SaferRingError Unit}
    (hfree : answer = .ok () → operation.validate = .ok () →
      s.cached s.operations.nextId = none) : Watched (s.submit operation answer).2 := by
  have htrack : ∀ j, Spares s (s.tracking operation) j :=
    fun j => ⟨fun hj => (AList.mem_insert _).mpr (Or.inr hj), fun hj => hj⟩
  rcases s.submit_cases operation answer with ⟨_, -, hsub⟩ | ⟨_, -, -, hsub⟩ | ⟨ha, hv, hsub⟩
  · rw [hsub]
    exact h
  · rw [hsub]
    exact h.of_spares fun r hr _ => ⟨hr, htrack _⟩
  · rw [hsub]
    have hid : (legacyRequest { operation with state := ⟨s.operations.nextId⟩ }).userData =
        s.operations.nextId := userData_legacyRequest _
    refine ⟨fun r hr hl => ?_, fun r hr hl => ?_⟩
    · rcases Backend.mem_inFlight_accepted.mp hr with rfl | hr
      · exact (AList.mem_insert _).mpr (Or.inl hid)
      · exact (htrack _).tracked (h.tracked r hr hl)
    · rcases Backend.mem_inFlight_accepted.mp hr with rfl | hr
      · rw [hid]
        exact hfree ha hv
      · exact h.uncached r hr hl

end Watched

end Ring

/-- **A legacy operation draws an id that nothing is cached for**, whenever the backend
accepts it. -/
def DrawsUncached (w : World) (e : Event) : Prop :=
  match e.action with
  | .submit operation answer => answer = .ok () → operation.validate = .ok () →
      w.ring.cached w.ring.operations.nextId = none
  | .submitBatch batch config answers =>
    Ring.checkBatch batch config = .ok () → ∀ k < batch.len,
      (∀ j ≤ k, Ring.Accepts answers batch.operations j) →
      w.ring.cached (wrappingAdd w.ring.operations.nextId k) = none
  | _ => True

section Steps

variable {w w' : World} {e : Event} {n : ℕ} {r : Response}

/-- The submission of a batch tracks what it submits. -/
theorem watched_submitBatch {batch : Batch} {config : BatchConfig}
    {answers : ℕ → Except SaferRingError Unit}
    (hstep : Step w ⟨.submitBatch batch config answers, r⟩ w')
    (hfree : DrawsUncached w ⟨.submitBatch batch config answers, r⟩)
    (hapart : Ring.Apart n w.ring) (h : w.ring.Watched) : w'.ring.Watched := by
  let P : ℕ → Ring → Prop :=
    fun _ ring => ring.Watched ∧ ring.completionCache = w.ring.completionCache
  have hnext : ∀ k operation ring, Ring.checkBatch batch config = .ok () → k < batch.len →
      (answers k = .ok () → operation.validate = .ok () →
        ∀ j ≤ k, Ring.Accepts answers batch.operations j) →
      ring.operations.nextId = wrappingAdd w.ring.operations.nextId k → P k ring →
      P (k + 1) (ring.submit operation (answers k)).2 := by
    rintro k operation ring hcheck hk hacc hid ⟨hwatched, hcache⟩
    obtain ⟨-, -, hsame, -⟩ := ring.submit_frame operation (answers k)
    refine ⟨hwatched.submit fun ha hv => ?_, hsame.trans hcache⟩
    have hnone := hfree hcheck k hk (hacc ha hv)
    rw [Ring.cached, hcache, hid]
    exact hnone
  obtain ⟨result, ring, hcall, hw⟩ := hstep.submitBatch
  obtain ⟨k, -, hP, -⟩ :=
    Ring.submitBatch_numbered (hapart.drawn true).wrappingAdd_zero hnext ⟨h, rfl⟩
  rw [hcall] at hP
  rcases hw with ⟨_, -, rfl⟩ | ⟨_, -, rfl⟩ <;> exact hP

/-- **A step leaves the legacy operations in flight tracked.** -/
theorem watched_step (hstep : Step w e w') (hfree : DrawsUncached w e) (hapart : w.ring.Apart n)
    (h : w.ring.Watched) : w'.ring.Watched := by
  obtain ⟨action, response⟩ := e
  have hnd := hapart.nodup
  -- an order to empty the cache in has the ids of what is cached
  have hkeys : ∀ {cached : List (ℕ × IoResult)} {j : ℕ}, cached.Perm w.ring.cachedCompletions →
      w.ring.cached j = none → j ∉ cached.map Prod.fst := by
    intro cached j hperm hj hmem
    rw [(hperm.map Prod.fst).mem_iff, Ring.map_fst_cachedCompletions] at hmem
    exact AList.lookup_eq_none.mp hj hmem
  cases action with
  | owned call i answer =>
    obtain ⟨buffer, -, ⟨-, -, rfl⟩ | ⟨-, rfl⟩⟩ := hstep.owned
    · refine h.owned (fun q hq hl => ?_) rfl rfl
      rcases Backend.mem_inFlight_accepted.mp hq with rfl | hq
      · rw [OwnedCall.caller_request] at hl
        exact absurd hl (by simp [Caller.isLegacy])
      · exact hq
    · exact h.owned (fun _ hq _ => hq) rfl rfl
  | acceptSafe fd addr answer =>
    rcases hstep.acceptSafe with ⟨-, rfl⟩ | ⟨_, -, rfl⟩
    · refine h.owned (fun q hq hl => ?_) rfl rfl
      rcases Backend.mem_inFlight_accepted.mp hq with rfl | hq
      · exact absurd hl (by simp [Caller.isLegacy, acceptRequest])
      · exact hq
    · exact h.owned (fun _ hq _ => hq) rfl rfl
  | submit operation answer =>
    obtain ⟨-, rfl⟩ := Prod.mk.inj (Option.some.inj hstep)
    exact h.submit hfree
  | submitBatch batch config answers => exact watched_submitBatch hstep hfree hapart h
  | pollFuture f waker fail =>
    obtain ⟨_, _, _, _, -, hpoll, -, rfl⟩ := hstep.pollFuture
    exact h.taken hnd (OwnedFuture.poll_frame hpoll).1
      fun j _ hw => OwnedFuture.spares_poll hpoll hw
  | dropFuture f =>
    obtain ⟨future, -, rfl⟩ := hstep.dropFuture
    obtain ⟨hb, hops, -⟩ := future.drop_frame w.ring
    have hcache : (future.drop w.ring).completionCache = w.ring.completionCache := by
      unfold OwnedFuture.drop
      split <;> rfl
    exact h.owned (fun _ hq _ => hb ▸ hq) hops hcache
  | pollBatch b waker cached fail =>
    obtain ⟨hperm, _, _, _, _, -, hcall, -, rfl⟩ := hstep.pollBatch
    rcases StandaloneBatchFuture.pollWithRing_ring hcall with rfl | ⟨_, ring, _, htry, rfl⟩
    · exact h
    · have hring : ring.Watched := h.taken hnd (Ring.collects_tryComplete htry).backend
        fun j hj hw => .processCompletionQueue htry (hkeys hperm hj) hw
      exact ⟨hring.tracked, hring.uncached⟩
  | dropBatch b =>
    obtain ⟨_, -, rfl⟩ := hstep.dropBatch
    exact h.owned (fun _ hq _ => hq) rfl rfl
  | tryComplete cached fail =>
    obtain ⟨hperm, -⟩ := Option.ite_none_right_eq_some.mp hstep
    obtain ⟨_, _, hcall, rfl⟩ := hstep.tryComplete
    exact h.taken hnd (Ring.collects_tryComplete hcall).backend
      fun j hj hw => .processCompletionQueue hcall (hkeys hperm hj) hw
  | waitForCompletion cached fail =>
    obtain ⟨hperm, -⟩ := Option.ite_none_right_eq_some.mp hstep
    obtain ⟨_, _, hcall, rfl⟩ := hstep.waitForCompletion
    refine h.taken hnd (Ring.collects_waitForCompletion hcall).backend fun j hj hw => ?_
    rcases Ring.waitForCompletion_cases hcall with hsame | hcall
    · rw [hsame]
      exact .of_eq rfl rfl
    · exact .processCompletionQueue hcall (hkeys hperm hj) hw
  | tryCompleteById id count fail =>
    obtain ⟨_, _, hcall, rfl⟩ := hstep.tryCompleteById
    exact h.taken hnd (Ring.collects_tryCompleteById hcall).backend
      fun j hj hw => .tryCompleteById hcall hj hw
  | pollOperationCompletion id fail =>
    obtain ⟨-, rfl⟩ := Prod.mk.inj (Option.some.inj hstep)
    exact h.taken hnd (w.ring.collects_pollOperationCompletion id fail).backend
      fun j _ _ => .pollOperationCompletion w.ring id fail j
  | processCompletions =>
    obtain ⟨-, rfl⟩ := Prod.mk.inj (Option.some.inj hstep)
    exact h.owned (fun _ hq _ => hq) rfl rfl
  | complete i result =>
    obtain ⟨backend, hb, rfl⟩ := hstep.complete
    exact h.owned (fun _ hq _ => (Backend.complete_perm hb).mem_iff.mp hq) rfl rfl
  | newBuffer | fromSlice | cloneHandle | dropHandle | dropGuard | tryAccess =>
    rw [hstep.buffer trivial]
    exact h

end Steps

/-! ### The runs -/

/-- **A ring that drops quietly has nothing in flight.** -/
def DropGuards (w : World) : Prop := w.ring.drop = .ok () → w.inFlight = []

/-- **A legacy operation is tracked beside every owned one in flight.** -/
def OwnedBesideLegacy (w : World) : Prop :=
  (∃ r ∈ w.inFlight, r.caller.isLegacy = false) → ∃ id, id ∈ w.ring.operations.inFlight

/-- Where the legacy operations in flight are tracked, only owned ones get past the guard. -/
theorem Ring.Watched.guardFails_iff {w : World} (h : w.ring.Watched) :
    DropGuards w ↔ OwnedBesideLegacy w := by
  rw [DropGuards, OwnedBesideLegacy, Ring.drop_eq_ok_iff]
  constructor
  · rintro hguard ⟨r, hr, -⟩
    by_contra hnone
    rw [hguard (not_exists.mp hnone)] at hr
    exact absurd hr (by simp)
  · intro hbeside hnone
    rw [List.eq_nil_iff_forall_not_mem]
    intro r hr
    rcases hl : r.caller.isLegacy with _ | _
    · obtain ⟨id, hid⟩ := hbeside ⟨r, hr, hl⟩
      exact hnone id hid
    · exact hnone _ (h.tracked r hr hl)

/-- **The guard of `Ring::drop` fails exactly when an owned operation is in flight and no
legacy one is tracked**, in any state of any run with fewer than 2^64 submissions that draws
no id of an operation in flight of the other interface, and no legacy id that a completion
is cached for. -/
theorem dropGuards_iff {ms : List (Move World Event)} {w : World} (hrun : Run ms w)
    (hfew : Transition.spent submissionsOf ms < 2 ^ 64)
    (hapart : Transition.Guarded DrawsApart ms) (hnone : Transition.Guarded DrawsUncached ms) :
    Transition.Always (fun w => DropGuards w ↔ OwnedBesideLegacy w) World.new ms := by
  let Stands : World → Event → Prop := fun w _ => ∃ n, w.ring.Apart n
  have hcount : ∀ n s e t, Step s e t → DrawsApart s e → n + submissionsOf e < 2 ^ 64 →
      s.ring.Apart n → t.ring.Apart (n + submissionsOf e) :=
    fun _ _ _ _ hstep hg hn h => apart_step hstep hg hn h
  have hstands : Transition.Guarded Stands ms := by
    intro m hm
    obtain ⟨n, -, hn⟩ := hrun.counted_mem hcount hapart hfew Ring.Apart.new hm
    exact ⟨n, hn⟩
  have hkeep : ∀ s e t, Step s e t → DrawsUncached s e ∧ Stands s e → s.ring.Watched →
      t.ring.Watched :=
    fun _ _ _ hstep ⟨hfree, _, hn⟩ h => watched_step hstep hfree hn h
  have hwatched : Transition.Always (fun w => w.ring.Watched) World.new ms :=
    hrun.always hkeep (hnone.and hstands) Ring.Watched.new
  exact ⟨hwatched.1.guardFails_iff, fun m hm => (hwatched.2 m hm).guardFails_iff⟩

/-- A read of the owned interface, whose future is dropped. -/
def orphanedRead : List Action :=
  [.newBuffer 4096 8, .owned (.readOwned 3) 0 (.ok ()), .dropFuture 0]

/-- **The ring drops quietly, and the kernel goes on reading.** -/
theorem not_dropGuards_orphanedRead : ∃ ms w, Run ms w ∧ actionsOf ms = orphanedRead ∧
    w.ring.drop = .ok () ∧ w.inFlightIds = [1] ∧ ¬DropGuards w := by
  obtain ⟨⟨ms, w⟩, htrace⟩ : ∃ x, World.new.trace orphanedRead = some x :=
    Option.isSome_iff_exists.mp (by decide)
  obtain ⟨hrun, hacts⟩ := run_of_trace htrace
  have hend : (World.new.trace orphanedRead).map (fun x => (x.2.ring.drop, x.2.inFlightIds)) =
      some (.ok (), [1]) := by
    decide
  rw [htrace] at hend
  obtain ⟨hdrop, hids⟩ := Prod.mk.inj (Option.some.inj hend)
  refine ⟨ms, w, hrun, hacts, hdrop, hids, fun hguard => ?_⟩
  have hnone : w.inFlightIds = [] := congrArg (List.map Request.userData) (hguard hdrop)
  exact absurd (hids.symm.trans hnone) (by simp)

/-- A legacy read, and once it is done another one, beside a read of the owned interface. -/
def readsOfBoth : List Action :=
  [.newBuffer 8192 8, .submit pinnedRead (.ok ()), .complete 0 (.ok 8), .tryComplete [] none,
    .submit pinnedRead (.ok ()), .owned (.readOwned 4) 0 (.ok ())]

/-- Along that run the guard does what it can. -/
theorem dropGuards_readsOfBoth : ∃ ms w, Run ms w ∧ actionsOf ms = readsOfBoth ∧
    w.inFlightIds = [2, 1] ∧
    Transition.Always (fun w => DropGuards w ↔ OwnedBesideLegacy w) World.new ms := by
  obtain ⟨⟨ms, w⟩, htrace⟩ : ∃ x, World.new.trace readsOfBoth = some x :=
    Option.isSome_iff_exists.mp (by decide)
  obtain ⟨hrun, hacts⟩ := run_of_trace htrace
  have hend : (World.new.trace readsOfBoth).map (fun x => x.2.inFlightIds) = some [2, 1] := by
    decide
  -- what is in flight and cached where the ids are drawn
  have hdraws : (World.new.trace readsOfBoth).map (fun x => x.1.all fun m =>
      let drawn := match m.label.action with
        | .owned .. => m.before.ring.nextSubmissionId
        | _ => m.before.ring.operations.nextId
      m.before.inFlight.all (fun r => r.userData != drawn) &&
        (m.before.ring.cached drawn).isNone) = some true := by
    decide
  rw [htrace] at hend hdraws
  have hfree : ∀ m ∈ ms, _ := fun m hm => List.all_eq_true.mp (Option.some.inj hdraws) m hm
  have hact : ∀ m ∈ ms, m.label.action ∈ readsOfBoth :=
    fun m hm => hacts ▸ List.mem_map_of_mem hm
  have hfew : Transition.spent submissionsOf ms < 2 ^ 64 := by
    rw [spent_submissionsOf, hacts]
    decide
  refine ⟨ms, w, hrun, hacts, Option.some.inj hend,
    dropGuards_iff hrun hfew (fun m hm => ?_) fun m hm => ?_⟩
  all_goals
    have hdrawn := hfree m hm
    have hmem := hact m hm
    obtain ⟨before, ⟨action, response⟩, after⟩ := m
    simp only [readsOfBoth, List.mem_cons, List.not_mem_nil, or_false] at hmem
    rcases hmem with rfl | rfl | rfl | rfl | rfl | rfl
    all_goals simp only [Bool.and_eq_true, List.all_eq_true, bne_iff_ne, Option.isNone_iff_eq_none]
      at hdrawn
  · trivial
  · exact fun _ _ r hr _ => hdrawn.1 r hr
  · trivial
  · trivial
  · exact fun _ _ r hr _ => hdrawn.1 r hr
  · exact fun _ _ _ _ r hr _ => hdrawn.1 r hr
  · trivial
  · exact fun _ _ => hdrawn.2
  · trivial
  · trivial
  · exact fun _ _ => hdrawn.2
  · trivial

end SaferRing
