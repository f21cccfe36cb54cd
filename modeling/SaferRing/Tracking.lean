import SaferRing.Ids

/-!
# What the tracker knows

The legacy interface alone should track exactly the operations that are in flight and those
whose completion is in the cache (`SaferRing.Ring.TracksExactly`), so that an operation whose
result was handed out is counted no longer. Its calls see to that, but for one:
`poll_operation_completion` takes completions from the backend, and neither keeps them nor stops
tracking their operations. `SaferRing.tracksExactly_iff` is that the tracker is exact as long as
that call finds nothing to take, and no submission draws an id that is tracked already.
-/

namespace SaferRing

namespace Ring

variable (self : Ring)

/-- **The tracker is exact**: it tracks the operations in flight and those whose completions are
cached, each once. -/
def TracksExactly : Prop :=
  self.operations.inFlight.keys.Perm (self.backend.inFlightIds ++ self.completionCache.keys)

variable {self} {s t : Ring} {id j : ℕ} {res : IoResult} {target : Option IoResult}
  {completions cached : List (ℕ × IoResult)}

/-- What it is to be exact, id by id. -/
theorem tracksExactly_iff_mem : self.TracksExactly ↔
    (self.backend.inFlightIds ++ self.completionCache.keys).Nodup ∧
      ∀ id, id ∈ self.operations.inFlight ↔
        id ∈ self.backend.inFlightIds ∨ id ∈ self.completionCache := by
  have hkeys := self.operations.inFlight.keys_nodup
  constructor
  · exact fun h => ⟨h.nodup_iff.mp hkeys, fun id => h.mem_iff.trans List.mem_append⟩
  · rintro ⟨hnd, hmem⟩
    refine (List.perm_ext_iff_of_nodup hkeys hnd).mpr fun id => ?_
    rw [List.mem_append]
    exact hmem id

/-- What is counted is what is in flight and what is cached. -/
theorem TracksExactly.count (h : self.TracksExactly) : self.operationsInFlight =
    self.backend.inFlightIds.length + self.completionCache.keys.length :=
  h.length_eq.trans List.length_append

/-! ### Handing completions to their operations -/

/-- **Completions are handed to their operations**, which are tracked no longer; in flight or
cached is what is left. -/
theorem TracksExactly.process (h : s.TracksExactly) {b : Backend}
    (hperm : (b.inFlightIds ++ completions.map Prod.fst).Perm
      (s.backend.inFlightIds ++ s.completionCache.keys))
    {a : Except SaferRingError (List CompletionResult)}
    (hcall : { s with completionCache := ∅, backend := b }.processCompletedOperations completions =
      (a, t)) : t.TracksExactly := by
  obtain ⟨hnd, hmem⟩ := tracksExactly_iff_mem.mp h
  have hnd' := hperm.nodup_iff.mpr hnd
  have hiff : ∀ id, id ∈ s.operations.inFlight ↔
      id ∈ b.inFlightIds ∨ id ∈ completions.map Prod.fst := by
    intro id
    rw [hmem, ← List.mem_append, hperm.mem_iff, List.mem_append]
    rfl
  let ring : Ring := { s with completionCache := ∅, backend := b }
  obtain ⟨results, t', hok, -, htracked⟩ := ring.processCompletedOperations_ok
    (List.nodup_append.mp hnd').2.1 fun id hid => (hiff id).mpr (Or.inr hid)
  obtain ⟨hb, -, -, hc⟩ := ring.processCompletedOperations_frame completions
  obtain rfl : t' = t := congrArg Prod.snd (hok.symm.trans hcall)
  rw [hok] at hb hc
  have hempty : t'.completionCache = ∅ := hc
  rw [tracksExactly_iff_mem, hb, hempty]
  refine ⟨?_, fun id => (htracked id).trans ?_⟩
  · exact (List.append_nil _).symm ▸ (List.nodup_append.mp hnd').1
  · rw [or_iff_left (AList.notMem_empty id), hiff, or_and_right]
    refine (or_iff_left fun hc => hc.2 hc.1).trans ?_
    exact and_iff_left_of_imp fun hid hc => List.disjoint_of_nodup_append hnd' hid hc

/-- **Emptying the cache keeps the tracker exact.** -/
theorem TracksExactly.processCompletionQueue (h : s.TracksExactly) {wait : Bool}
    (hcached : cached.Perm s.cachedCompletions)
    {a : Except SaferRingError (List CompletionResult)}
    (hcall : s.processCompletionQueue wait cached none = .returned (a, t)) : t.TracksExactly := by
  have hkeys := map_fst_cachedCompletions ▸ hcached.map Prod.fst
  rcases processCompletionQueue_cases hcall with ⟨_, hfail, -⟩ | ⟨b, completions, hwhat, hprocess⟩
  · exact absurd hfail (by simp)
  refine h.process ?_ hprocess
  rcases hwhat with ⟨rfl, rfl⟩ | ⟨rfl, rfl⟩
  · exact hkeys.append_left s.backend.inFlightIds
  · -- what waits comes last on one side, and before the cache on the other
    rw [Backend.inFlightIds_drained, Backend.inFlightIds_eq, List.map_append, List.append_assoc]
    exact (List.perm_append_comm.trans (hkeys.append_left _)).append_left _

/-- `wait_for_completion`. -/
theorem TracksExactly.waitForCompletion (h : s.TracksExactly)
    (hcached : cached.Perm s.cachedCompletions)
    {a : Except SaferRingError (List CompletionResult)}
    (hcall : s.waitForCompletion cached none = .returned (a, t)) : t.TracksExactly := by
  rcases waitForCompletion_cases hcall with rfl | hcall
  · exact h
  · exact h.processCompletionQueue hcached hcall

/-! ### Collecting for one operation -/

/-- What asking for an operation answers, when the backend does not fail. -/
theorem tryCompleteById_ok_cases {count : ℕ} {a : Except SaferRingError (Option IoResult)}
    (hcall : self.tryCompleteById id count none = .returned (a, t)) :
    (∃ res, self.cached id = some res ∧ a = .ok (some res) ∧ t = self.handedOut id) ∨
      self.cached id = none ∧ a = .ok (self.collectFor id).1 ∧ t = (self.collectFor id).2 := by
  rcases tryCompleteById_cases hcall with hcached | ⟨_, hfail, -⟩ | ⟨-, hcollected⟩
  · exact Or.inl hcached
  · exact absurd hfail (by simp)
  · exact Or.inr hcollected

theorem collect_cons {c : ℕ × IoResult} :
    collect id (c :: completions) target self =
      collect id completions (collectCompletion id (target, self) c).1
        (collectCompletion id (target, self) c).2 := rfl

section CollectOne

variable {k : ℕ}

/-- The completion asked for is the result, and its operation is tracked no longer. -/
theorem collectCompletion_self (h : id ∈ self.operations.inFlight) :
    collectCompletion id (target, self) (id, res) = (some res, { self with
      operations := (self.operations.completeOperation id).2 }.wakeOperation id) := by
  simp [collectCompletion, OperationTracker.isOperationTracked, h]

/-- Another one is cached. -/
theorem collectCompletion_other (hk : k ≠ id) (h : k ∈ self.operations.inFlight) :
    collectCompletion id (target, self) (k, res) = (target, { self with
      completionCache := self.completionCache.insert k res }.wakeOperation k) := by
  simp [collectCompletion, OperationTracker.isOperationTracked, h, hk]

/-- Taking a completion stops tracking the operation asked for, if it is its own. -/
theorem mem_collectCompletion (h : k ∈ self.operations.inFlight) :
    j ∈ (collectCompletion id (target, self) (k, res)).2.operations.inFlight ↔
      j ∈ self.operations.inFlight ∧ ¬(j = id ∧ k = id) := by
  by_cases hk : k = id
  · subst hk
    rw [collectCompletion_self h, operations_wakeOperation, OperationTracker.mem_completeOperation,
      and_comm, and_iff_left rfl]
  · rw [collectCompletion_other hk h]
    exact (and_iff_left fun hc => hk hc.2).symm

/-- Taking a completion caches it, unless it is the one asked for. -/
theorem cached_collectCompletion (h : k ∈ self.operations.inFlight) :
    (collectCompletion id (target, self) (k, res)).2.cached j =
      if j = k ∧ k ≠ id then some res else self.cached j := by
  by_cases hk : k = id
  · subst hk
    rw [collectCompletion_self h, if_neg fun hc => hc.2 rfl]
    rfl
  · rw [collectCompletion_other hk h]
    by_cases hj : j = k
    · rw [if_pos ⟨hj, hk⟩, hj]
      exact AList.lookup_insert _
    · rw [if_neg fun hc => hj hc.1]
      exact AList.lookup_insert_ne hj

/-- Taking a completion finds the one asked for. -/
theorem target_collectCompletion (h : k ∈ self.operations.inFlight) :
    (collectCompletion id (target, self) (k, res)).1 = if k = id then some res else target := by
  by_cases hk : k = id
  · subst hk
    rw [collectCompletion_self h, if_pos rfl]
  · rw [collectCompletion_other hk h, if_neg hk]

end CollectOne

/-- Completions of different operations, all of them tracked. -/
structure Expected (ring : Ring) (finished : List (ℕ × IoResult)) : Prop where
  nodup : (finished.map Prod.fst).Nodup
  tracked : ∀ id ∈ finished.map Prod.fst, id ∈ ring.operations.inFlight

/-- What comes after the first completion is expected once it was taken. -/
theorem Expected.tail {c : ℕ × IoResult} (h : self.Expected (c :: completions)) (id : ℕ)
    (target : Option IoResult) : c.1 ∈ self.operations.inFlight ∧
      (collectCompletion id (target, self) c).2.Expected completions := by
  obtain ⟨hk, hrest⟩ := List.nodup_cons.mp h.nodup
  have htracked := h.tracked c.1 List.mem_cons_self
  refine ⟨htracked, hrest, fun j hj => (mem_collectCompletion htracked).mpr ⟨?_, ?_⟩⟩
  · exact h.tracked j (List.mem_cons_of_mem _ hj)
  · rintro ⟨rfl, hc⟩
    exact hk (hc ▸ hj)

/-- **Collecting stops tracking the operation asked for**, if its completion is there. -/
theorem mem_collect (h : self.Expected completions) :
    j ∈ (collect id completions target self).2.operations.inFlight ↔
      j ∈ self.operations.inFlight ∧ ¬(j = id ∧ id ∈ completions.map Prod.fst) := by
  induction completions generalizing target self with
  | nil => exact (and_iff_left fun hc => absurd hc.2 List.not_mem_nil).symm
  | cons c rest ih =>
    obtain ⟨htracked, htail⟩ := h.tail id target
    rw [collect_cons, ih htail, mem_collectCompletion htracked, and_assoc, List.map_cons,
      List.mem_cons, ← not_or, ← and_or_left, eq_comm (a := id)]

/-- Collecting caches nothing that is not there, and never what is asked for. -/
theorem cached_collect_of_notMem (h : self.Expected completions)
    (hj : j ∉ completions.map Prod.fst ∨ j = id) :
    (collect id completions target self).2.cached j = self.cached j := by
  induction completions generalizing target self with
  | nil => rfl
  | cons c rest ih =>
    obtain ⟨htracked, htail⟩ := h.tail id target
    rw [List.map_cons, List.mem_cons, not_or] at hj
    rw [collect_cons, ih htail (hj.imp_left And.right), cached_collectCompletion htracked, if_neg]
    rintro ⟨hc, hid⟩
    exact hj.elim (fun hj => hj.1 hc) fun hj => hid (hc.symm.trans hj)

/-- **Collecting caches every completion**, but the one asked for. -/
theorem cached_collect (h : self.Expected completions) (hj : j ≠ id)
    (hres : (j, res) ∈ completions) :
    (collect id completions target self).2.cached j = some res := by
  induction completions generalizing target self with
  | nil => exact absurd hres List.not_mem_nil
  | cons c rest ih =>
    obtain ⟨htracked, htail⟩ := h.tail id target
    rw [collect_cons]
    rcases List.mem_cons.mp hres with rfl | hres
    · -- what comes after it leaves it in the cache
      rw [cached_collect_of_notMem htail (Or.inl (List.nodup_cons.mp h.nodup).1),
        cached_collectCompletion htracked, if_pos ⟨rfl, hj⟩]
    · exact ih htail hres

/-- Collecting finds nothing that is not there. -/
theorem target_collect_of_notMem (h : self.Expected completions)
    (hid : id ∉ completions.map Prod.fst) :
    (collect id completions target self).1 = target := by
  induction completions generalizing target self with
  | nil => rfl
  | cons c rest ih =>
    obtain ⟨htracked, htail⟩ := h.tail id target
    rw [List.map_cons, List.mem_cons, not_or] at hid
    rw [collect_cons, ih htail hid.2, target_collectCompletion htracked, if_neg (Ne.symm hid.1)]

/-- **Collecting finds the completion asked for.** -/
theorem target_collect (h : self.Expected completions) (hres : (id, res) ∈ completions) :
    (collect id completions target self).1 = some res := by
  induction completions generalizing target self with
  | nil => exact absurd hres List.not_mem_nil
  | cons c rest ih =>
    obtain ⟨htracked, htail⟩ := h.tail id target
    rw [collect_cons]
    rcases List.mem_cons.mp hres with rfl | hres
    · rw [target_collect_of_notMem htail (List.nodup_cons.mp h.nodup).1,
        target_collectCompletion htracked, if_pos rfl]
    · exact ih htail hres

/-- What waits is expected by a tracker that is exact. -/
theorem TracksExactly.expected (h : self.TracksExactly) :
    Expected { self with backend := self.backend.drained } self.backend.waiting := by
  obtain ⟨hnd, hmem⟩ := tracksExactly_iff_mem.mp h
  rw [Backend.inFlightIds_eq] at hnd hmem
  refine ⟨(List.nodup_append.mp (List.nodup_append.mp hnd).1).2.1, fun id hid => ?_⟩
  exact (hmem id).mpr (Or.inl (List.mem_append_right _ hid))

/-- What collecting for an operation caches: what waits, but for the operation itself. -/
theorem mem_cache_collect (h : self.Expected completions) :
    j ∈ (collect id completions target self).2.completionCache ↔
      j ∈ self.completionCache ∨ j ≠ id ∧ j ∈ completions.map Prod.fst := by
  rw [← AList.lookup_isSome, ← AList.lookup_isSome]
  by_cases hj : j ∈ completions.map Prod.fst ∧ j ≠ id
  · obtain ⟨⟨k, res⟩, hres, rfl⟩ := List.mem_map.mp hj.1
    have hcached : (collect id completions target self).2.completionCache.lookup k = some res :=
      cached_collect h hj.2 hres
    rw [hcached]
    exact iff_of_true rfl (Or.inr hj.symm)
  · have hcached : (collect id completions target self).2.completionCache.lookup j =
        self.completionCache.lookup j :=
      cached_collect_of_notMem h ((not_and_or.mp hj).imp_right not_not.mp)
    rw [hcached]
    exact (or_iff_left fun hc => hj hc.symm).symm

/-- **Collecting for an operation keeps the tracker exact.** -/
theorem TracksExactly.collectFor (h : self.TracksExactly) (hcached : self.cached id = none) :
    (self.collectFor id).2.TracksExactly := by
  obtain ⟨hnd, hmem⟩ := tracksExactly_iff_mem.mp h
  have hid : id ∉ self.completionCache := AList.lookup_eq_none.mp hcached
  rw [Backend.inFlightIds_eq] at hnd hmem
  obtain ⟨hflight, -, hapart⟩ := List.nodup_append.mp hnd
  have hpending := List.disjoint_of_nodup_append hflight
  rw [tracksExactly_iff_mem, backend_collectFor, Backend.inFlightIds_drained]
  have hcache : ∀ j, j ∈ (self.collectFor id).2.completionCache ↔
      j ∈ self.completionCache ∨ j ≠ id ∧ j ∈ self.backend.waiting.map Prod.fst :=
    fun j => mem_cache_collect h.expected
  constructor
  · refine List.nodup_append.mpr
      ⟨(List.nodup_append.mp hflight).1, AList.keys_nodup _, fun j hj k hk => ?_⟩
    rintro rfl
    rcases (hcache j).mp hk with hk | ⟨-, hk⟩
    · exact hapart j (List.mem_append_left _ hj) j hk rfl
    · exact hpending hj hk
  · intro j
    have htracked : j ∈ (self.collectFor id).2.operations.inFlight ↔
        j ∈ self.operations.inFlight ∧ ¬(j = id ∧ id ∈ self.backend.waiting.map Prod.fst) :=
      mem_collect h.expected
    rw [htracked, hcache, hmem, List.mem_append]
    by_cases hj : j = id
    · subst hj
      have hnot : j ∈ self.backend.pending.map Request.userData →
          j ∉ self.backend.waiting.map Prod.fst := fun hp hw => hpending hp hw
      simp only [hid, or_false, true_and, ne_eq, not_true_eq_false, false_and]
      exact ⟨fun h => h.1.resolve_right h.2, fun h => ⟨Or.inl h, hnot h⟩⟩
    · simp only [hj, false_and, not_false_eq_true, and_true, ne_eq, true_and]
      exact or_right_comm.trans or_assoc

/-- **Handing out what is cached keeps the tracker exact.** -/
theorem TracksExactly.handedOut (h : self.TracksExactly) (hcached : self.cached id = some res) :
    (self.handedOut id).TracksExactly := by
  obtain ⟨hnd, hmem⟩ := tracksExactly_iff_mem.mp h
  have hid : id ∈ self.completionCache :=
    AList.lookup_isSome.mp (Option.isSome_iff_exists.mpr ⟨res, hcached⟩)
  obtain ⟨hflight, -, hapart⟩ := List.nodup_append.mp hnd
  have hcache : ∀ j, j ∈ (self.handedOut id).completionCache ↔
      j ≠ id ∧ j ∈ self.completionCache := fun j => AList.mem_erase
  rw [tracksExactly_iff_mem]
  constructor
  · refine List.nodup_append.mpr ⟨hflight, AList.keys_nodup _, fun j hj k hk => ?_⟩
    exact hapart j hj k ((hcache k).mp hk).2
  · intro j
    have htracked : j ∈ (self.handedOut id).operations.inFlight ↔
        j ≠ id ∧ j ∈ self.operations.inFlight := self.operations.mem_completeOperation
    have hne : j ∈ self.backend.inFlightIds → j ≠ id := by
      rintro hj rfl
      exact hapart j hj j hid rfl
    rw [htracked, hcache, hmem, and_or_left, and_iff_right_of_imp hne]
    rfl

/-- **Asking for an operation keeps the tracker exact.** -/
theorem TracksExactly.tryCompleteById (h : self.TracksExactly) {count : ℕ}
    {a : Except SaferRingError (Option IoResult)}
    (hcall : self.tryCompleteById id count none = .returned (a, t)) : t.TracksExactly := by
  rcases tryCompleteById_ok_cases hcall with ⟨res, hcached, -, rfl⟩ | ⟨hnone, -, rfl⟩
  · exact h.handedOut hcached
  · exact h.collectFor hnone

/-! ### The other calls -/

/-- **`poll_operation_completion` keeps the tracker exact only when it finds nothing.** -/
theorem tracksExactly_pollOperationCompletion (h : self.TracksExactly) :
    (self.pollOperationCompletion id none).2.TracksExactly ↔ self.backend.ready = [] := by
  have hpoll : (self.pollOperationCompletion id none).2 = { self with
      backend := self.backend.drained
      wakerRegistry := (self.pollOperationCompletion id none).2.wakerRegistry } :=
    findCompletion_frame id { self with backend := self.backend.drained } self.backend.waiting
  obtain ⟨hnd, hmem⟩ := tracksExactly_iff_mem.mp h
  rw [hpoll, tracksExactly_iff_mem]
  constructor
  · rintro ⟨-, hafter⟩
    by_contra hready
    obtain ⟨c, hc⟩ := List.exists_mem_of_ne_nil _ hready
    -- the operation of a completion taken is tracked, and neither in flight nor cached
    have hwaiting : c.1.userData ∈ self.backend.waiting.map Prod.fst := by
      rw [Backend.waiting_keys]
      exact List.mem_map_of_mem (List.mem_map_of_mem hc)
    have hflight : c.1.userData ∈ self.backend.inFlightIds := by
      rw [Backend.inFlightIds_eq]
      exact List.mem_append_right _ hwaiting
    rcases (hafter _).mp ((hmem _).mpr (Or.inl hflight)) with hstill | hcached
    · rw [Backend.inFlightIds_drained] at hstill
      rw [Backend.inFlightIds_eq] at hnd
      exact List.disjoint_of_nodup_append (List.nodup_append.mp hnd).1 hstill hwaiting
    · exact List.disjoint_of_nodup_append hnd hflight hcached
  · intro hready
    have hids : self.backend.drained.inFlightIds = self.backend.inFlightIds := by
      rw [Backend.inFlightIds_drained, Backend.inFlightIds_eq, Backend.waiting_keys, hready,
        List.map_nil, List.map_nil, List.append_nil]
    rw [hids]
    exact ⟨hnd, hmem⟩

/-- The kernel completes an operation, which stays in flight. -/
theorem TracksExactly.complete (h : self.TracksExactly) {i : ℕ} {b : Backend}
    (hcomplete : self.backend.complete i res = some b) :
    TracksExactly { self with backend := b } :=
  h.trans (((Backend.complete_perm hcomplete).map Request.userData).symm.append_right _)

/-- What is tracked and in flight once an operation was accepted. -/
theorem tracksExactly_tracking_accepted (h : self.TracksExactly) {operation : Operation Building}
    {request : Request} (hid : request.userData = self.operations.nextId) :
    ((self.tracking operation).accepted request).TracksExactly ↔
      self.operations.nextId ∉ self.operations.inFlight := by
  obtain ⟨hnd, hmem⟩ := tracksExactly_iff_mem.mp h
  have hids : ((self.tracking operation).accepted request).backend.inFlightIds.Perm
      (self.operations.nextId :: self.backend.inFlightIds) :=
    hid ▸ Backend.inFlight_accepted_perm.map Request.userData
  have htracked : ∀ id, id ∈ ((self.tracking operation).accepted request).operations.inFlight ↔
      id = self.operations.nextId ∨ id ∈ self.operations.inFlight := fun id => AList.mem_insert _
  rw [tracksExactly_iff_mem, (hids.append_right _).nodup_iff, List.cons_append, List.nodup_cons,
    List.mem_append]
  constructor
  · rintro ⟨⟨hnew, -⟩, -⟩
    exact fun hc => hnew ((hmem _).mp hc)
  · refine fun hnew => ⟨⟨fun hc => hnew ((hmem _).mpr hc), hnd⟩, fun id => ?_⟩
    rw [htracked, hmem, hids.mem_iff, List.mem_cons, or_assoc]
    rfl

/-- **A submission keeps the tracker exact unless it draws an id that is tracked.** -/
theorem tracksExactly_submit (h : self.TracksExactly) (operation : Operation Building) :
    (self.submit operation (.ok ())).2.TracksExactly ↔
      (operation.validate = .ok () → self.operations.nextId ∉ self.operations.inFlight) := by
  rcases self.submit_cases operation (.ok ()) with
    ⟨msg, hbad, hcall⟩ | ⟨e, hrefused, -⟩ | ⟨-, hvalid, hcall⟩
  · rw [hcall]
    exact iff_of_true h fun hc => absurd (hbad.symm.trans hc) (by simp)
  · exact absurd hrefused (by simp)
  · rw [hcall, tracksExactly_tracking_accepted h (userData_legacyRequest _)]
    exact ⟨fun hnew _ => hnew, fun hnew => hnew hvalid⟩

end Ring

/-! ### Runs of the legacy interface -/

/-- **The calls of the legacy interface**, none of which the backend fails. -/
def LegacyOnly (_ : World) (e : Event) : Prop :=
  match e.action with
  | .submit _ answer => answer = .ok ()
  | .tryComplete _ fail | .waitForCompletion _ fail | .tryCompleteById _ _ fail
  | .pollOperationCompletion _ fail => fail = none
  | .complete .. => True
  | _ => False

/-- **A poll takes nothing, and a submission draws an id that is not tracked.** -/
def LosesNothing (w : World) (e : Event) : Prop :=
  match e.action with
  | .pollOperationCompletion .. => w.ring.backend.ready = []
  | .submit operation _ =>
    operation.validate = .ok () → w.ring.operations.nextId ∉ w.ring.operations.inFlight
  | _ => True

/-- The tracker of the ring is exact. -/
def Tracked (w : World) : Prop := w.ring.TracksExactly

/-- **A call keeps the tracker exact precisely when it loses nothing.** -/
theorem Tracked.step_iff {w w' : World} {e : Event} (h : Tracked w) (hstep : Step w e w')
    (hlegacy : LegacyOnly w e) : Tracked w' ↔ LosesNothing w e := by
  obtain ⟨action, response⟩ := e
  cases action with
  | submit operation answer =>
    obtain rfl : answer = .ok () := hlegacy
    obtain ⟨-, rfl⟩ := Prod.mk.inj (Option.some.inj hstep)
    exact Ring.tracksExactly_submit h operation
  | tryComplete cached fail =>
    obtain rfl : fail = none := hlegacy
    obtain ⟨hperm, -⟩ := Option.ite_none_right_eq_some.mp hstep
    obtain ⟨_, _, hcall, rfl⟩ := hstep.tryComplete
    exact iff_of_true (h.processCompletionQueue hperm hcall) trivial
  | waitForCompletion cached fail =>
    obtain rfl : fail = none := hlegacy
    obtain ⟨hperm, -⟩ := Option.ite_none_right_eq_some.mp hstep
    obtain ⟨_, _, hcall, rfl⟩ := hstep.waitForCompletion
    exact iff_of_true (h.waitForCompletion hperm hcall) trivial
  | tryCompleteById id count fail =>
    obtain rfl : fail = none := hlegacy
    obtain ⟨_, _, hcall, rfl⟩ := hstep.tryCompleteById
    exact iff_of_true (h.tryCompleteById hcall) trivial
  | pollOperationCompletion id fail =>
    obtain rfl : fail = none := hlegacy
    obtain ⟨-, rfl⟩ := Prod.mk.inj (Option.some.inj hstep)
    exact Ring.tracksExactly_pollOperationCompletion h
  | complete i result =>
    obtain ⟨_, hcomplete, rfl⟩ := hstep.complete
    exact iff_of_true (h.complete hcomplete) trivial
  | _ => exact hlegacy.elim

/-- **The tracker is exact all along a run of the legacy interface precisely when no call of
`poll_operation_completion` takes a completion**, and no submission draws an id that is still
tracked. -/
theorem tracksExactly_iff {ms : List (Transition.Move World Event)} {w : World} (hrun : Run ms w)
    (hlegacy : Transition.Guarded LegacyOnly ms) :
    Transition.Always Tracked World.new ms ↔ Transition.Guarded LosesNothing ms := by
  have hexact : ∀ s e t, (Step s e t ∧ LegacyOnly s e) → True → Tracked s →
      True ∧ (Tracked t ↔ LosesNothing s e) :=
    fun _ _ _ ⟨hstep, hl⟩ _ hs => ⟨trivial, hs.step_iff hstep hl⟩
  have hnew : Tracked World.new := List.Perm.refl _
  exact (hrun.restrict hlegacy).always_iff_step hexact trivial hnew

/-- Two reads complete in the other order, and one poll finds nothing to take. -/
def completedInReverse : List Action :=
  [.submit pinnedRead (.ok ()), .submit pinnedRead (.ok ()), .complete 1 (.ok 3),
    .tryCompleteById 1 0 none, .pollOperationCompletion 2 none, .tryCompleteById 2 1 none,
    .complete 0 (.ok 8), .tryComplete [] none]

/-- All along that run, the tracker is exact. -/
theorem tracksExactly_completedInReverse : ∃ ms w, Run ms w ∧
    actionsOf ms = completedInReverse ∧ Transition.Always Tracked World.new ms := by
  obtain ⟨⟨ms, w⟩, htrace⟩ : ∃ x, World.new.trace completedInReverse = some x :=
    Option.isSome_iff_exists.mp (by decide)
  obtain ⟨hrun, hacts⟩ := run_of_trace htrace
  have hlegacy : ∀ a ∈ actionsOf ms, ∀ w r, LegacyOnly w ⟨a, r⟩ := by
    rw [hacts]
    simp [completedInReverse, LegacyOnly]
  have hloses : (World.new.trace completedInReverse).map (fun x => x.1.all fun m =>
      decide (m.before.ring.operations.nextId ∉ m.before.ring.operations.inFlight) &&
        match m.label.action with
        | .pollOperationCompletion .. => m.before.ring.backend.ready.isEmpty
        | _ => true) = some true := by
    decide
  rw [htrace] at hloses
  refine ⟨ms, w, hrun, hacts, (tracksExactly_iff hrun fun m hm => ?_).mpr fun m hm => ?_⟩
  · exact hlegacy _ (List.mem_map_of_mem hm) m.before m.label.response
  · have hall := List.all_eq_true.mp (Option.some.inj hloses) m hm
    obtain ⟨before, ⟨action, response⟩, after⟩ := m
    obtain ⟨hnew, hready⟩ := (Bool.and_eq_true_iff).mp hall
    cases action with
    | submit => exact fun _ => of_decide_eq_true hnew
    | pollOperationCompletion => exact List.isEmpty_iff.mp hready
    | _ => trivial

/-- A read completes, and `poll_operation_completion` hands its result out. -/
def polledOnce : List Action :=
  [.submit pinnedRead (.ok ()), .complete 0 (.ok 8), .pollOperationCompletion 1 none]

/-- **The read is still counted**, although nothing is in flight and nothing is cached. -/
theorem not_tracksExactly_polledOnce : ∃ ms w, Run ms w ∧ actionsOf ms = polledOnce ∧
    Transition.Guarded LegacyOnly ms ∧
    ms.getLast?.map (fun m => m.label.response) =
      some (.operation (.ok (some ⟨1, .read, 0, .ok 8, none⟩))) ∧
    w.inFlightIds = [] ∧ w.ring.completionCache.keys = [] ∧ w.ring.operationsInFlight = 1 ∧
    ¬Tracked w := by
  obtain ⟨⟨ms, w⟩, htrace⟩ : ∃ x, World.new.trace polledOnce = some x :=
    Option.isSome_iff_exists.mp (by decide)
  obtain ⟨hrun, hacts⟩ := run_of_trace htrace
  have hlegacy : ∀ a ∈ actionsOf ms, ∀ w r, LegacyOnly w ⟨a, r⟩ := by
    rw [hacts]
    simp [polledOnce, LegacyOnly]
  have hend : (World.new.trace polledOnce).map (fun x =>
      (x.1.getLast?.map fun m => m.label.response, x.2.inFlightIds,
        x.2.ring.completionCache.keys, x.2.ring.operationsInFlight)) =
      some (some (.operation (.ok (some ⟨1, .read, 0, .ok 8, none⟩))), [], [], 1) := by
    decide
  rw [htrace] at hend
  simp only [Option.map_some, Option.some.injEq, Prod.mk.injEq] at hend
  obtain ⟨hresponse, hflight, hcache, hcount⟩ := hend
  refine ⟨ms, w, hrun, hacts, fun m hm => ?_, hresponse, hflight, hcache, hcount, fun h => ?_⟩
  · exact hlegacy _ (List.mem_map_of_mem hm) m.before m.label.response
  · have hids : w.ring.backend.inFlightIds = [] := hflight
    have hzero := h.count
    rw [hcount, hids, hcache] at hzero
    exact absurd hzero (by decide)

end SaferRing
