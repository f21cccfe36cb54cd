import SaferRing.Tracking

/-!
# Asking for an operation by its id

`try_complete_by_id` takes everything the backend has, whomever it is for, and puts what it was
not asked for in the cache. Under different ids nothing gets lost on the way
(`SaferRing.Ring.ById`): what was taken is in the cache until somebody asks for it
(`SaferRing.Ring.Unreturned`), and once it was returned its id means nothing any more
(`SaferRing.Ring.Settled`). `SaferRing.returned_once` puts this together for the runs that submit
and ask, in any order.
-/

namespace SaferRing

open Transition (Move)

/-! ### What is in the cache -/

namespace Ring

variable {s t : Ring} {id j count : ℕ} {v : IoResult} {r : Request}

/-- **The tracker is exact, no id was used twice, and what is cached was handed over.** -/
structure ById (ring : Ring) : Prop where
  tracked : ring.TracksExactly
  nodup : ring.backend.acceptedIds.Nodup
  cached : ∀ id v, ring.cached id = some v → ∃ r, (r, v) ∈ ring.backend.delivered ∧ r.userData = id

/-- **An id is settled** once its completion was handed over and is not cached any more. -/
def Settled (ring : Ring) (id : ℕ) : Prop :=
  id ∈ ring.backend.deliveredIds ∧ ring.cached id = none

/-- **A result is not returned yet**: if it was handed over, it is cached. -/
def Unreturned (ring : Ring) (id : ℕ) : Prop :=
  ∀ r v, (r, v) ∈ ring.backend.delivered → r.userData = id → ring.cached id = some v

theorem ById.new : ById Ring.new := by
  refine ⟨List.Perm.refl _, List.nodup_nil, fun id v h => ?_⟩
  have hnone : Ring.new.cached id = none := rfl
  exact absurd (hnone.symm.trans h) (by simp)

namespace ById

/-- What waits was not handed over before. -/
theorem notMem_waiting (h : s.ById) (hid : id ∈ s.backend.deliveredIds) :
    id ∉ s.backend.waiting.map Prod.fst := by
  have hnd := h.nodup
  rw [Backend.acceptedIds, Backend.inFlightIds_eq] at hnd
  exact fun hw => List.disjoint_of_nodup_append hnd (List.mem_append_right _ hw) hid

/-- What is cached was handed over. -/
theorem mem_deliveredIds (h : s.ById) (hcached : s.cached id = some v) :
    id ∈ s.backend.deliveredIds := by
  obtain ⟨r, hr, hid⟩ := h.cached id v hcached
  exact Backend.mem_deliveredIds.mpr ⟨r, v, hr, hid⟩

/-- **A settled id is neither tracked nor cached.** -/
theorem untracked (h : s.ById) (hid : s.Settled id) :
    id ∉ s.operations.inFlight ∧ id ∉ s.completionCache := by
  obtain ⟨-, hmem⟩ := tracksExactly_iff_mem.mp h.tracked
  have hcache : id ∉ s.completionCache := AList.lookup_eq_none.mp hid.2
  refine ⟨fun htracked => ?_, hcache⟩
  rcases (hmem id).mp htracked with hflight | hcached
  · exact List.disjoint_of_nodup_append h.nodup hflight hid.1
  · exact hcache hcached

end ById

/-! ### What asking does -/

/-- What handing out a cached result leaves in the cache. -/
theorem cached_handedOut : (s.handedOut id).cached j = if j = id then none else s.cached j := by
  by_cases hj : j = id
  · rw [if_pos hj, hj]
    exact AList.lookup_erase ..
  · rw [if_neg hj]
    exact AList.lookup_erase_ne hj

/-- What is found for an operation was waiting for it. -/
theorem waiting_of_collectFor (h : s.TracksExactly) (hfound : (s.collectFor id).1 = some v) :
    (id, v) ∈ s.backend.waiting := by
  by_cases hid : id ∈ s.backend.waiting.map Prod.fst
  · obtain ⟨⟨k, res⟩, hres, rfl⟩ := List.mem_map.mp hid
    have hres' : (s.collectFor k).1 = some res := target_collect h.expected hres
    obtain rfl := Option.some.inj (hres'.symm.trans hfound)
    exact hres
  · have hnone : (s.collectFor id).1 = none := target_collect_of_notMem h.expected hid
    exact absurd (hnone.symm.trans hfound) (by simp)

/-- Collecting leaves in the cache what is there already. -/
theorem cached_collectFor_of_notMem (h : s.TracksExactly)
    (hj : j ∉ s.backend.waiting.map Prod.fst ∨ j = id) :
    (s.collectFor id).2.cached j = s.cached j :=
  cached_collect_of_notMem h.expected hj

/-- Collecting for an operation hands everything over that waits. -/
theorem delivered_collectFor :
    (s.collectFor id).2.backend.delivered = s.backend.delivered ++ s.backend.ready := by
  rw [backend_collectFor, Backend.delivered_drained]

/-- An operation that is not cached is looked for in the backend. -/
theorem tryCompleteById_of_ready (hnone : s.cached id = none) (hready : s.backend.ready ≠ []) :
    s.tryCompleteById id count none =
      .returned (.ok (s.collectFor id).1, (s.collectFor id).2) := by
  have hsome : s.backend.ready.isEmpty = false := Bool.eq_false_iff.mpr fun h =>
    hready (List.isEmpty_iff.mp h)
  rw [tryCompleteById, show s.completionCache.lookup id = none from hnone]
  simp only [Backend.waitForCompletion, Backend.tryComplete, hsome]
  exact ite_self _

section Asking

variable {a : Except SaferRingError (Option IoResult)}

/-- **What is returned was handed over for the id asked for**, which is settled then. -/
theorem ById.returned (h : s.ById)
    (hcall : s.tryCompleteById id count none = .returned (.ok (some v), t)) :
    (∃ r, (r, v) ∈ t.backend.delivered ∧ r.userData = id) ∧ t.Settled id := by
  rcases tryCompleteById_ok_cases hcall with ⟨res, hcached, ha, rfl⟩ | ⟨hnone, ha, rfl⟩
  · obtain rfl : v = res := Option.some.inj (Except.ok.inj ha)
    refine ⟨h.cached id v hcached, h.mem_deliveredIds hcached, ?_⟩
    rw [cached_handedOut, if_pos rfl]
  · have hwaiting := waiting_of_collectFor h.tracked (Except.ok.inj ha).symm
    obtain ⟨r, hr, hid⟩ := Backend.mem_waiting.mp hwaiting
    have hdelivered : (r, v) ∈ (s.collectFor id).2.backend.delivered := by
      rw [delivered_collectFor]
      exact List.mem_append_right _ hr
    refine ⟨⟨r, hdelivered, hid⟩, Backend.mem_deliveredIds.mpr ⟨r, v, hdelivered, hid⟩, ?_⟩
    rw [cached_collectFor_of_notMem h.tracked (Or.inr rfl), hnone]

/-- Asking keeps the invariant. -/
theorem ById.tryCompleteById (h : s.ById)
    (hcall : s.tryCompleteById id count none = .returned (a, t)) : t.ById := by
  refine ⟨h.tracked.tryCompleteById hcall, ?_, fun j v hj => ?_⟩
  · rcases (collects_tryCompleteById hcall).backend with hb | hb
    · exact hb ▸ h.nodup
    · exact hb ▸ Backend.acceptedIds_drained.nodup_iff.mpr h.nodup
  · rcases tryCompleteById_ok_cases hcall with ⟨res, hcached, -, rfl⟩ | ⟨hnone, -, rfl⟩
    · rw [cached_handedOut] at hj
      exact h.cached j v (Option.ite_none_left_eq_some.mp hj).2
    · rw [delivered_collectFor]
      by_cases hw : j ∈ s.backend.waiting.map Prod.fst ∧ j ≠ id
      · obtain ⟨⟨k, res⟩, hres, rfl⟩ := List.mem_map.mp hw.1
        have hcache : (s.collectFor id).2.cached k = some res :=
          cached_collect h.tracked.expected hw.2 hres
        obtain rfl := Option.some.inj (hcache.symm.trans hj)
        obtain ⟨r, hr, hk⟩ := Backend.mem_waiting.mp hres
        exact ⟨r, List.mem_append_right _ hr, hk⟩
      · rw [cached_collectFor_of_notMem h.tracked ((not_and_or.mp hw).imp_right not_not.mp)] at hj
        obtain ⟨r, hr, hk⟩ := h.cached j v hj
        exact ⟨r, List.mem_append_left _ hr, hk⟩

/-- **A settled id stays settled**, and asking for it returns nothing. -/
theorem Settled.tryCompleteById (hid : s.Settled id) (h : s.ById)
    (hcall : s.tryCompleteById j count none = .returned (a, t)) :
    t.Settled id ∧ (j = id → ∀ v, a ≠ .ok (some v)) := by
  have hnot := h.notMem_waiting hid.1
  rcases tryCompleteById_ok_cases hcall with ⟨res, hcached, -, rfl⟩ | ⟨hnone, rfl, rfl⟩
  · refine ⟨⟨hid.1, ?_⟩, fun hj => ?_⟩
    · rw [cached_handedOut, hid.2, ite_self]
    · exact absurd ((hj ▸ hcached).symm.trans hid.2) (by simp)
  · refine ⟨⟨?_, ?_⟩, ?_⟩
    · rw [backend_collectFor, Backend.deliveredIds_drained]
      exact List.mem_append_left _ hid.1
    · rw [cached_collectFor_of_notMem h.tracked (Or.inl hnot), hid.2]
    · rintro rfl v hv
      have hwaiting := waiting_of_collectFor h.tracked (Except.ok.inj hv)
      exact hnot (List.mem_map_of_mem hwaiting)

/-- **A result stays unreturned** until somebody asks for it. -/
theorem Unreturned.tryCompleteById (hid : s.Unreturned id) (h : s.ById)
    (hcall : s.tryCompleteById j count none = .returned (a, t))
    (hnot : j = id → ∀ v, a ≠ .ok (some v)) : t.Unreturned id := by
  intro r v hr hrid
  rcases tryCompleteById_ok_cases hcall with ⟨res, -, rfl, rfl⟩ | ⟨hnone, rfl, rfl⟩
  · rw [cached_handedOut, if_neg fun hj => hnot hj.symm res rfl]
    exact hid r v hr hrid
  rw [delivered_collectFor, List.mem_append] at hr
  rcases hr with hr | hr
  · -- handed over before: it is cached, and does not wait
    have hused := Backend.mem_deliveredIds.mpr ⟨r, v, hr, hrid⟩
    rw [cached_collectFor_of_notMem h.tracked (Or.inl (h.notMem_waiting hused))]
    exact hid r v hr hrid
  · have hwaiting : (id, v) ∈ s.backend.waiting := Backend.mem_waiting.mpr ⟨r, hr, hrid⟩
    by_cases hj : id = j
    · subst hj
      have hfound : (s.collectFor id).1 = some v := target_collect h.tracked.expected hwaiting
      exact absurd (congrArg Except.ok hfound) (hnot rfl v)
    · exact cached_collect h.tracked.expected hj hwaiting

/-- **The next to ask for a result that was not returned gets it**, whether it was handed over
already or waits. -/
theorem Unreturned.asked (hid : s.Unreturned r.userData) (h : s.ById)
    (hr : (r, v) ∈ s.backend.delivered ∨ (r, v) ∈ s.backend.ready) (count : ℕ) :
    ∃ t, s.tryCompleteById r.userData count none = .returned (.ok (some v), t) := by
  rcases hr with hr | hr
  · exact ⟨_, tryCompleteById_of_cached (hid r v hr rfl) count none⟩
  · have hwaiting : (r.userData, v) ∈ s.backend.waiting := Backend.mem_waiting.mpr ⟨r, hr, rfl⟩
    have hnone : s.cached r.userData = none := by
      refine Option.eq_none_iff_forall_ne_some.mpr fun v' hv' => ?_
      exact h.notMem_waiting (h.mem_deliveredIds hv') (List.mem_map_of_mem hwaiting)
    have hfound : (s.collectFor r.userData).1 = some v :=
      target_collect h.tracked.expected hwaiting
    refine ⟨(s.collectFor r.userData).2, ?_⟩
    rw [tryCompleteById_of_ready hnone (List.ne_nil_of_mem hr), hfound]

end Asking

/-! ### The other calls -/

/-- **A submission under an id not used so far keeps the invariant**, and leaves the cache and
what was handed over as they are. -/
theorem ById.submit (h : s.ById) (operation : Operation Building)
    (hnew : s.operations.nextId ∉ s.backend.acceptedIds) :
    (s.submit operation (.ok ())).2.ById := by
  rcases s.submit_cases operation (.ok ()) with
    ⟨_, -, hcall⟩ | ⟨_, hrefused, -⟩ | ⟨-, -, hcall⟩
  · rw [hcall]
    exact h
  · exact absurd hrefused (by simp)
  · have hid := userData_legacyRequest { operation with state := ⟨s.operations.nextId⟩ }
    have hused := @Backend.acceptedIds_accepted s.backend
      (legacyRequest { operation with state := ⟨s.operations.nextId⟩ })
    rw [hid] at hused
    rw [hcall]
    refine ⟨(tracksExactly_tracking_accepted h.tracked hid).mpr fun htracked => hnew ?_,
      hused.nodup_iff.mpr (List.nodup_cons.mpr ⟨hnew, h.nodup⟩), h.cached⟩
    obtain ⟨-, hmem⟩ := tracksExactly_iff_mem.mp h.tracked
    rcases (hmem _).mp htracked with hflight | hcached
    · exact List.mem_append_left _ hflight
    · obtain ⟨v, hv⟩ := Option.isSome_iff_exists.mp (AList.lookup_isSome.mpr hcached)
      exact List.mem_append_right _ (h.mem_deliveredIds hv)

/-- The kernel completes an operation. -/
theorem ById.complete (h : s.ById) {i : ℕ} {b : Backend}
    (hcomplete : s.backend.complete i v = some b) : ById { s with backend := b } := by
  refine ⟨h.tracked.complete hcomplete,
    (Backend.acceptedIds_complete hcomplete).nodup_iff.mpr h.nodup, fun id v hv => ?_⟩
  rw [Backend.complete_delivered hcomplete]
  exact h.cached id v hv

/-- The ids used are among those drawn in `n` submissions. -/
def Numbered (n : ℕ) (ring : Ring) : Prop :=
  DrawnFrom n ring.operations.nextId (· ∈ ring.backend.acceptedIds)

/-- A submission draws one id. -/
theorem Numbered.submit {n : ℕ} (h : s.Numbered n) (operation : Operation Building)
    (hn : n + 1 < 2 ^ 64) : (s.submit operation (.ok ())).2.Numbered (n + 1) := by
  rcases s.submit_cases operation (.ok ()) with
    ⟨_, -, hcall⟩ | ⟨_, hrefused, -⟩ | ⟨-, -, hcall⟩
  · rw [hcall]
    exact DrawnFrom.mono h (Nat.le_succ n) fun _ hid => hid
  · exact absurd hrefused (by simp)
  · rw [hcall]
    refine DrawnFrom.draw h hn fun id hid => ?_
    have hmem := Backend.acceptedIds_accepted.mem_iff.mp hid
    rw [userData_legacyRequest, List.mem_cons] at hmem
    exact hmem.symm

/-- A call that collects completions draws none. -/
theorem Numbered.collects {n : ℕ} (h : s.Numbered n) (hcollects : s.Collects t) :
    t.Numbered n := by
  rw [Numbered, hcollects.nextId]
  refine DrawnFrom.mono h (le_refl n) fun id hid => ?_
  rcases hcollects.backend with hb | hb
  · exact hb ▸ hid
  · exact Backend.acceptedIds_drained.mem_iff.mp (hb ▸ hid)

/-- Settled is an id by the cache and what was handed over. -/
theorem Settled.of_eq (hid : s.Settled id) (hcache : t.completionCache = s.completionCache)
    (hdelivered : t.backend.delivered = s.backend.delivered) : t.Settled id := by
  rwa [Settled, cached, Backend.deliveredIds, hcache, hdelivered]

/-- So is a result not returned. -/
theorem Unreturned.of_eq (hid : s.Unreturned id) (hcache : t.completionCache = s.completionCache)
    (hdelivered : t.backend.delivered = s.backend.delivered) : t.Unreturned id := by
  rwa [Unreturned, cached, hdelivered, hcache]

end Ring

/-! ### Runs that submit and ask -/

/-- Operations are submitted and asked for, and the backend fails neither. -/
def ByIdOnly (_ : World) (e : Event) : Prop :=
  match e.action with
  | .submit _ answer => answer = .ok ()
  | .tryCompleteById _ _ fail => fail = none
  | .complete .. => True
  | _ => False

/-- A submission draws an id not used so far. -/
def DrawsNew (w : World) (e : Event) : Prop :=
  match e.action with
  | .submit .. => w.ring.operations.nextId ∉ w.ring.backend.acceptedIds
  | _ => True

/-- **A result is returned** to who asks for an operation. -/
def Returns (id : ℕ) (v : IoResult) (e : Event) : Prop :=
  (∃ count fail, e.action = .tryCompleteById id count fail) ∧
    e.response = .completion (.ok (some v))

section Steps

variable {w w' : World} {e : Event} {id : ℕ} {v : IoResult}

/-- What asking does to a world. -/
theorem Step.asks {count : ℕ} {fail : Option SaferRingError} {r : Response}
    (hstep : Step w ⟨.tryCompleteById id count fail, r⟩ w') :
    ∃ a, w.ring.tryCompleteById id count fail = .returned (a, w'.ring) ∧ r = .completion a := by
  obtain ⟨a, ring, hcall, rfl, rfl⟩ := Step.calling hstep
  exact ⟨a, hcall, rfl⟩

/-- **Two calls that ask alike return alike.** -/
theorem returns_iff {j count : ℕ} {fail : Option SaferRingError}
    {a : Except SaferRingError (Option IoResult)} :
    Returns id v ⟨.tryCompleteById j count fail, .completion a⟩ ↔ j = id ∧ a = .ok (some v) := by
  constructor
  · rintro ⟨⟨_, _, haction⟩, hresponse⟩
    exact ⟨(Action.tryCompleteById.inj haction).1, Response.completion.inj hresponse⟩
  · rintro ⟨rfl, rfl⟩
    exact ⟨⟨count, fail, rfl⟩, rfl⟩

/-- **What a step of such a run keeps**: the invariant, settled ids, and results it does not
return. -/
theorem Ring.ById.step (h : w.ring.ById) (hstep : Step w e w') (hbyId : ByIdOnly w e)
    (hnew : DrawsNew w e) : w'.ring.ById ∧ ∀ id,
      (w.ring.Settled id → w'.ring.Settled id ∧ ∀ v, ¬Returns id v e) ∧
      ((∀ v, ¬Returns id v e) → w.ring.Unreturned id → w'.ring.Unreturned id) := by
  obtain ⟨action, response⟩ := e
  cases action with
  | submit operation answer =>
    obtain rfl : answer = .ok () := hbyId
    obtain ⟨-, rfl⟩ := Prod.mk.inj (Option.some.inj hstep)
    obtain ⟨-, -, hcache, hdelivered⟩ := w.ring.submit_frame operation (.ok ())
    refine ⟨h.submit operation hnew, fun id => ⟨fun hid => ⟨hid.of_eq hcache hdelivered, ?_⟩,
      fun _ hid => hid.of_eq hcache hdelivered⟩⟩
    rintro v ⟨⟨_, _, haction⟩, -⟩
    exact Action.noConfusion haction
  | tryCompleteById j count fail =>
    obtain rfl : fail = none := hbyId
    obtain ⟨a, hcall, rfl⟩ := hstep.asks
    refine ⟨h.tryCompleteById hcall, fun id => ⟨fun hid => ?_, fun hnot hid => ?_⟩⟩
    · obtain ⟨hsettled, hnone⟩ := hid.tryCompleteById h hcall
      refine ⟨hsettled, fun v hv => ?_⟩
      obtain ⟨hj, ha⟩ := returns_iff.mp hv
      exact hnone hj v ha
    · exact hid.tryCompleteById h hcall fun hj v ha => hnot v (returns_iff.mpr ⟨hj, ha⟩)
  | complete i result =>
    obtain ⟨b, hcomplete, rfl⟩ := hstep.complete
    have hdelivered := Backend.complete_delivered hcomplete
    refine ⟨h.complete hcomplete, fun id => ⟨fun hid => ⟨hid.of_eq rfl hdelivered, ?_⟩,
      fun _ hid => hid.of_eq rfl hdelivered⟩⟩
    rintro v ⟨⟨_, _, haction⟩, -⟩
    exact Action.noConfusion haction
  | _ => exact hbyId.elim

/-- A submission draws the next id, and no other call draws one. -/
theorem Ring.Numbered.step {n : ℕ} (h : w.ring.Numbered n) (hstep : Step w e w')
    (hbyId : ByIdOnly w e) (hn : n + submissionsOf e < 2 ^ 64) :
    w'.ring.Numbered (n + submissionsOf e) := by
  obtain ⟨action, response⟩ := e
  cases action with
  | submit operation answer =>
    obtain rfl : answer = .ok () := hbyId
    obtain ⟨-, rfl⟩ := Prod.mk.inj (Option.some.inj hstep)
    exact h.submit operation hn
  | tryCompleteById j count fail =>
    obtain ⟨a, hcall, -⟩ := hstep.asks
    exact h.collects (Ring.collects_tryCompleteById hcall)
  | complete i result =>
    obtain ⟨b, hcomplete, rfl⟩ := hstep.complete
    exact DrawnFrom.mono h (le_refl n) fun id hid =>
      (Backend.acceptedIds_complete hcomplete).mem_iff.mp hid
  | _ => exact hbyId.elim

end Steps

section Runs

variable {ms : List (Move World Event)} {w : World}

/-- **A run with fewer than 2^64 submissions draws no id twice.** -/
theorem drawsNew_of_run (hrun : Run ms w) (hbyId : Transition.Guarded ByIdOnly ms)
    (hfew : Transition.spent submissionsOf ms < 2 ^ 64) : Transition.Guarded DrawsNew ms := by
  let Inv : ℕ → World → Prop := fun n w => w.ring.Numbered n
  have hkeep : ∀ n w e w', Step w e w' → ByIdOnly w e → n + submissionsOf e < 2 ^ 64 →
      Inv n w → Inv (n + submissionsOf e) w' :=
    fun _ _ _ _ hstep hg hn h => Ring.Numbered.step h hstep hg hn
  have hnew : Inv 0 World.new := DrawnFrom.start fun id hid => absurd hid List.not_mem_nil
  intro m hm
  obtain ⟨n, hn, hinv⟩ := hrun.counted_mem hkeep hbyId hfew hnew hm
  obtain ⟨before, ⟨action, response⟩, after⟩ := m
  cases action with
  | submit => exact DrawnFrom.fresh hinv hn
  | _ => trivial

/-- Operations are submitted under new ids, and asked for. -/
def AsksOnly (w : World) (e : Event) : Prop := ByIdOnly w e ∧ DrawsNew w e

/-- The invariant holds along a run that submits and asks. -/
theorem byId_of_run (hrun : Run ms w) (hguard : Transition.Guarded AsksOnly ms) :
    w.ring.ById := by
  let Inv : World → Prop := fun w => w.ring.ById
  have hkeep : ∀ s e t, Step s e t → AsksOnly s e → Inv s → Inv t :=
    fun _ _ _ hstep hg h => (Ring.ById.step h hstep hg.1 hg.2).1
  have hnew : Inv World.new := Ring.ById.new
  have hend : Inv w := hrun.invariant hkeep hguard hnew
  exact hend

/-- **A settled id stays what it is**: it is neither tracked nor cached, and nothing is returned
for it. -/
theorem settled_of_run {s : World} {id : ℕ} (hrun : Transition.Run Step s ms w)
    (hguard : Transition.Guarded AsksOnly ms) (h : s.ring.ById) (hid : s.ring.Settled id) :
    (∀ m ∈ ms, ∀ v, ¬Returns id v m.label) ∧ Transition.Always (fun w =>
      id ∉ w.ring.operations.inFlight ∧ id ∉ w.ring.completionCache) s ms := by
  let Inv : World → Prop := fun w => w.ring.ById ∧ w.ring.Settled id
  have hkeep : ∀ s e t, Step s e t → AsksOnly s e → Inv s → Inv t := by
    rintro s e t hstep hg ⟨h, hid⟩
    obtain ⟨hnext, hids⟩ := Ring.ById.step h hstep hg.1 hg.2
    exact ⟨hnext, ((hids id).1 hid).1⟩
  have halways : Transition.Always Inv s ms := hrun.always hkeep hguard ⟨h, hid⟩
  refine ⟨fun m hm => ?_, h.untracked hid, fun m hm => ?_⟩
  · obtain ⟨hbefore, hsettled⟩ := hrun.before_of_always halways hm
    obtain ⟨-, hids⟩ := Ring.ById.step hbefore (hrun.step_of_mem hm) (hguard m hm).1
      (hguard m hm).2
    exact ((hids id).1 hsettled).2
  · obtain ⟨hafter, hsettled⟩ := halways.2 m hm
    exact hafter.untracked hsettled

/-- **Along a run that does not return it, a result stays unreturned.** -/
theorem unreturned_of_run {id : ℕ} (hrun : Run ms w) (hguard : Transition.Guarded AsksOnly ms)
    (hnot : ∀ m ∈ ms, ∀ v, ¬Returns id v m.label) : w.ring.Unreturned id := by
  let Inv : World → Prop := fun w => w.ring.ById ∧ w.ring.Unreturned id
  have hkeep : ∀ s e t, Step s e t → (AsksOnly s e ∧ ∀ v, ¬Returns id v e) → Inv s → Inv t := by
    rintro s e t hstep ⟨hg, hnot⟩ ⟨h, hid⟩
    obtain ⟨hnext, hids⟩ := Ring.ById.step h hstep hg.1 hg.2
    exact ⟨hnext, (hids id).2 hnot hid⟩
  have hnew : Inv World.new :=
    ⟨Ring.ById.new, fun r v hr => absurd hr List.not_mem_nil⟩
  exact (hrun.invariant hkeep (hguard.and hnot) hnew).2

/-- **Who asks for an operation gets its result, once.** Along a run that submits and asks, with
fewer than 2^64 submissions, no id is used twice; what is returned for an id is the result handed
over for it, is returned never again, and leaves the id neither tracked nor cached from then on;
and as long as nothing was returned for an id, a result that was handed over or waits is what the
next to ask for it gets. -/
theorem returned_once (hrun : Run ms w) (hbyId : Transition.Guarded ByIdOnly ms)
    (hfew : Transition.spent submissionsOf ms < 2 ^ 64) (id : ℕ) :
    w.ring.backend.acceptedIds.Nodup ∧
    (∀ ms₁ m ms₂ v, ms = ms₁ ++ m :: ms₂ → Returns id v m.label →
      (∃ r, (r, v) ∈ m.after.delivered ∧ r.userData = id) ∧
      (∀ m' ∈ ms₂, ∀ v', ¬Returns id v' m'.label) ∧
      Transition.Always (fun w => id ∉ w.ring.operations.inFlight ∧ id ∉ w.ring.completionCache)
        m.after ms₂) ∧
    ((∀ m ∈ ms, ∀ v, ¬Returns id v m.label) → ∀ r v, r.userData = id →
      (r, v) ∈ w.delivered ∨ (r, v) ∈ w.ring.backend.ready → ∀ count,
      ∃ ring, w.ring.tryCompleteById id count none = .returned (.ok (some v), ring)) := by
  have hguard : Transition.Guarded AsksOnly ms := hbyId.and (drawsNew_of_run hrun hbyId hfew)
  refine ⟨(byId_of_run hrun hguard).nodup, ?_, ?_⟩
  · rintro ms₁ m ms₂ v rfl hreturns
    obtain ⟨hfirst, hstep, hrest⟩ := hrun.split_at
    have hm : m ∈ ms₁ ++ m :: ms₂ := List.mem_append_right _ List.mem_cons_self
    have hbefore := byId_of_run hfirst fun m' hm' => hguard m' (List.mem_append_left _ hm')
    obtain ⟨hafter, -⟩ := Ring.ById.step hbefore hstep (hguard m hm).1 (hguard m hm).2
    have hfail := (hguard m hm).1
    obtain ⟨before, ⟨action, response⟩, after⟩ := m
    obtain ⟨⟨count, fail, rfl⟩, rfl⟩ := hreturns
    obtain rfl : fail = none := hfail
    obtain ⟨a, hcall, ha⟩ := hstep.asks
    rw [← Response.completion.inj ha] at hcall
    obtain ⟨hresult, hsettled⟩ := hbefore.returned hcall
    exact ⟨hresult, settled_of_run hrest (fun m' hm' => hguard m'
      (List.mem_append_right _ (List.mem_cons_of_mem _ hm'))) hafter hsettled⟩
  · rintro hnot r v rfl hr count
    exact (unreturned_of_run hrun hguard hnot).asked (byId_of_run hrun hguard) hr count

end Runs

/-- Two reads complete in the other order, and the completion of the second is taken by who asks
for the first. -/
def askedInOrder : List Action :=
  [.submit pinnedRead (.ok ()), .submit pinnedRead (.ok ()), .complete 1 (.ok 3),
    .tryCompleteById 1 0 none, .tryCompleteById 2 1 none, .complete 0 (.ok 8),
    .tryCompleteById 2 2 none, .tryCompleteById 1 3 none]

/-- **Its result is returned to who asks for the second**, and to nobody else. -/
theorem returned_askedInOrder : ∃ ms w, Run ms w ∧ actionsOf ms = askedInOrder ∧
    ∃ ms₁ m ms₂, ms = ms₁ ++ m :: ms₂ ∧ Returns 2 (.ok 3) m.label ∧
      ∀ m' ∈ ms₂, ∀ v, ¬Returns 2 v m'.label := by
  obtain ⟨⟨ms, w⟩, htrace⟩ : ∃ x, World.new.trace askedInOrder = some x :=
    Option.isSome_iff_exists.mp (by decide)
  obtain ⟨hrun, hacts⟩ := run_of_trace htrace
  have hresponse : (World.new.trace askedInOrder).map
      (fun x => (x.1[4]?).map fun m => m.label.response) =
      some (some (.completion (.ok (some (.ok 3))))) := by
    decide
  rw [htrace] at hresponse
  obtain ⟨m, hm, hreturned⟩ := Option.map_eq_some_iff.mp (Option.some.inj hresponse)
  have haction : (actionsOf ms)[4]? = some m.label.action := by
    rw [actionsOf, List.getElem?_map, hm]
    rfl
  rw [hacts] at haction
  have hreturns : Returns 2 (.ok 3) m.label :=
    ⟨⟨1, none, (Option.some.inj haction).symm⟩, hreturned⟩
  have hbyId : ∀ a ∈ actionsOf ms, ∀ w r, ByIdOnly w ⟨a, r⟩ := by
    rw [hacts]
    simp [askedInOrder, ByIdOnly]
  have hfew : Transition.spent submissionsOf ms < 2 ^ 64 := by
    rw [spent_submissionsOf, hacts]
    decide
  obtain ⟨ms₁, ms₂, hms⟩ := List.append_of_mem (List.mem_of_getElem? hm)
  obtain ⟨-, honce, -⟩ := returned_once hrun (fun m hm => hbyId _ (List.mem_map_of_mem hm) m.before
    m.label.response) hfew 2
  exact ⟨ms, w, hrun, hacts, ms₁, m, ms₂, hms, hreturns, (honce ms₁ m ms₂ _ hms hreturns).2.1⟩

end SaferRing
