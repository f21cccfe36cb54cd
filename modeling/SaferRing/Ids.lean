import SaferRing.Numbering

/-!
# Two counters, one backend

The legacy interface and the owned one draw the ids of their operations from a counter
each, and both counters start at `1`. Within 2^64 submissions two operations of *one*
interface never share an id in flight; two of different interfaces do whenever an id is
drawn that an operation of the other interface carries (`SaferRing.DrawsApart` is that none
is). `SaferRing.inFlightIds_nodup` is that this is all that can go wrong, for every
interleaving of everything that can happen to a ring.
-/

namespace SaferRing

open Transition (Move)

/-! ### What a ring keeps apart -/

/-- Whether an operation came from the legacy interface. -/
def Caller.isLegacy : Caller → Bool
  | .legacy => true
  | .owned _ => false

namespace Ring

variable (ring : Ring)

/-- The next id of an interface: of the legacy one, or of the owned one. -/
def nextOf (legacy : Bool) : ℕ := if legacy then ring.operations.nextId else ring.nextSubmissionId

/-- The ids in flight of the operations of an interface. -/
def IdOf (legacy : Bool) (id : ℕ) : Prop :=
  ∃ r ∈ ring.backend.inFlight, r.caller.isLegacy = legacy ∧ r.userData = id

/-- **No operation of the other interface carries an id.** -/
def FreeOfOther (legacy : Bool) (id : ℕ) : Prop :=
  ∀ r ∈ ring.backend.inFlight, r.caller.isLegacy ≠ legacy → r.userData ≠ id

/-- **Each interface counts its own ids**, `n` submissions on, and no two operations in
flight share one. -/
structure Apart (n : ℕ) (ring : Ring) : Prop where
  drawn : ∀ legacy, DrawnFrom n (ring.nextOf legacy) (ring.IdOf legacy)
  nodup : ring.backend.inFlightIds.Nodup

namespace Apart

variable {n m : ℕ} {s t : Ring} {k : Bool}

theorem new : Apart 0 Ring.new := by
  refine ⟨fun k => ?_, List.nodup_nil⟩
  have hnone : ∀ id, ¬Ring.new.IdOf k id := by
    rintro id ⟨r, hr, -⟩
    exact absurd hr (by simp [Ring.new, Backend.new, Backend.inFlight])
  cases k with
  | true => exact DrawnFrom.start hnone
  | false => exact DrawnFrom.start hnone

/-- What is in flight becomes less, and no id is drawn. -/
theorem mono (h : Apart n s) (hnm : n ≤ m) (hfl : t.backend.inFlight.Subperm s.backend.inFlight)
    (hnext : ∀ k, t.nextOf k = s.nextOf k) : Apart m t := by
  refine ⟨fun k => ?_, ?_⟩
  · rw [hnext]
    exact (h.drawn k).mono hnm fun id ⟨r, hr, hp⟩ => ⟨r, hfl.subset hr, hp⟩
  · obtain ⟨l, hperm, hsub⟩ := hfl
    have hnodup : (l.map Request.userData).Nodup := h.nodup.sublist (hsub.map _)
    exact ((hperm.map Request.userData).nodup_iff).mp hnodup

/-- Completions are taken, or not. -/
theorem taken (h : Apart n s) (hb : t.backend = s.backend ∨ t.backend = s.backend.drained)
    (hnext : ∀ k, t.nextOf k = s.nextOf k) : Apart n t := by
  refine h.mono (le_refl n) ?_ hnext
  rcases hb with hb | hb
  · rw [hb]
  · rw [hb, Backend.inFlight_drained]
    exact (List.sublist_append_left _ _).subperm

/-- A call that collects completions. -/
theorem collects (h : Apart n s) (hc : s.Collects t) : Apart n t := by
  refine h.taken hc.backend fun k => ?_
  cases k with
  | true => exact hc.nextId
  | false => exact congrArg OrphanTracker.nextSubmissionId hc.orphanTracker

/-- An id is drawn, and not used. -/
theorem track (h : Apart n s) (hn : n + 1 < 2 ^ 64) (hb : t.backend = s.backend)
    (hk : t.nextOf k = wrappingAdd (s.nextOf k) 1) (hother : t.nextOf (!k) = s.nextOf (!k)) :
    Apart (n + 1) t := by
  have hid : ∀ j id, t.IdOf j id → s.IdOf j id := fun j id ⟨r, hr, hp⟩ => ⟨r, hb ▸ hr, hp⟩
  refine ⟨fun j => ?_, hb ▸ h.nodup⟩
  by_cases hj : j = k
  · rw [hj, hk]
    exact (h.drawn k).draw hn fun id hid' => Or.inl (hid k id hid')
  · obtain rfl : j = !k := Bool.eq_not_of_ne hj
    rw [hother]
    exact (h.drawn (!k)).mono (Nat.le_succ n) (hid _)

/-- **An operation is accepted**, under an id that no operation of the other interface
carries. -/
theorem accept (h : Apart n s) (hn : n + 1 < 2 ^ 64) {r : Request}
    (hr : r.caller.isLegacy = k) (hid : r.userData = s.nextOf k)
    (hfree : s.FreeOfOther k (s.nextOf k)) (hb : t.backend = s.backend.accepted r)
    (hk : t.nextOf k = wrappingAdd (s.nextOf k) 1) (hother : t.nextOf (!k) = s.nextOf (!k)) :
    Apart (n + 1) t := by
  have hmem : ∀ q, q ∈ t.backend.inFlight ↔ q = r ∨ q ∈ s.backend.inFlight := by
    intro q
    rw [hb, Backend.mem_inFlight_accepted]
  refine ⟨fun j => ?_, ?_⟩
  · by_cases hj : j = k
    · rw [hj, hk]
      refine (h.drawn k).draw hn ?_
      rintro id ⟨q, hq, hcaller, hqid⟩
      rcases (hmem q).mp hq with rfl | hq
      · exact Or.inr (hqid.symm.trans hid)
      · exact Or.inl ⟨q, hq, hcaller, hqid⟩
    · obtain rfl : j = !k := Bool.eq_not_of_ne hj
      rw [hother]
      refine (h.drawn (!k)).mono (Nat.le_succ n) ?_
      rintro id ⟨q, hq, hcaller, hqid⟩
      rcases (hmem q).mp hq with rfl | hq
      · exact absurd (hcaller.symm.trans hr) hj
      · exact ⟨q, hq, hcaller, hqid⟩
  · rw [hb, Backend.nodup_inFlightIds_accepted, hid]
    refine ⟨fun hin => ?_, h.nodup⟩
    obtain ⟨q, hq, hqid⟩ := Backend.mem_inFlightIds.mp hin
    by_cases hcaller : q.caller.isLegacy = k
    · exact (h.drawn k).fresh hn ⟨q, hq, hcaller, hqid⟩
    · exact hfree q hq hcaller hqid

/-- **A legacy submission keeps the ids apart.** -/
theorem submit (h : Apart n s) (hn : n + 1 < 2 ^ 64) {operation : Operation Building}
    {answer : Except SaferRingError Unit}
    (hfree : answer = .ok () → operation.validate = .ok () →
      s.FreeOfOther true s.operations.nextId) :
    Apart (n + 1) (s.submit operation answer).2 := by
  rcases s.submit_cases operation answer with ⟨_, -, hsub⟩ | ⟨_, -, -, hsub⟩ | ⟨ha, hv, hsub⟩
  · rw [hsub]
    exact h.mono (Nat.le_succ n) (List.Subperm.refl _) fun _ => rfl
  · rw [hsub]
    exact h.track (k := true) hn rfl rfl rfl
  · rw [hsub]
    refine h.accept (k := true) hn ?_ (userData_legacyRequest _) (hfree ha hv) rfl rfl rfl
    rw [caller_legacyRequest]
    rfl

end Apart

end Ring

/-! ### The steps -/

/-- How many submissions a step makes. -/
def submissionsOf (e : Event) : ℕ :=
  match e.action with
  | .owned .. | .acceptSafe .. | .submit .. => 1
  | .submitBatch batch .. => batch.len
  | _ => 0

/-- What a run submits is for its actions to say. -/
theorem spent_submissionsOf (ms : List (Move World Event)) :
    Transition.spent submissionsOf ms =
      ((actionsOf ms).map fun a => submissionsOf ⟨a, .done⟩).sum := by
  rw [Transition.spent, actionsOf, List.map_map]
  rfl

/-- **An id drawn is apart from the other interface**: whenever the backend accepts an
operation, none of the other interface in flight carries its id. -/
def DrawsApart (w : World) (e : Event) : Prop :=
  match e.action with
  | .owned call h answer => ∀ buffer, w.handles[h]? = some buffer → answer = .ok () →
      call.Fits w.heap buffer → w.ring.FreeOfOther false w.ring.nextSubmissionId
  | .acceptSafe _ _ answer =>
    answer = .ok () → w.ring.FreeOfOther false w.ring.nextSubmissionId
  | .submit operation answer =>
    answer = .ok () → operation.validate = .ok () →
      w.ring.FreeOfOther true w.ring.operations.nextId
  | .submitBatch batch config answers =>
    Ring.checkBatch batch config = .ok () → ∀ k < batch.len,
      (∀ j ≤ k, Ring.Accepts answers batch.operations j) →
      w.ring.FreeOfOther true (wrappingAdd w.ring.operations.nextId k)
  | _ => True

section Steps

variable {w w' : World} {e : Event} {n : ℕ} {r : Response}

/-- **The induction rule for the submission of a batch, with the ids drawn**: the operation at
`k` draws the id `k` places on. -/
theorem Ring.submitBatch_numbered {P : ℕ → Ring → Prop} {batch : Batch} {config : BatchConfig}
    {answers : ℕ → Except SaferRingError Unit} {ring : Ring}
    (hzero : wrappingAdd ring.operations.nextId 0 = ring.operations.nextId)
    (hnext : ∀ k operation s, Ring.checkBatch batch config = .ok () → k < batch.len →
      (answers k = .ok () → operation.validate = .ok () →
        ∀ j ≤ k, Ring.Accepts answers batch.operations j) →
      s.operations.nextId = wrappingAdd ring.operations.nextId k → P k s →
      P (k + 1) (s.submit operation (answers k)).2)
    (h₀ : P 0 ring) :
    ∃ k ≤ batch.len, P k (ring.submitBatchStandaloneWithConfig batch config answers).2 := by
  -- the counter moved by `k` if all the operations before were accepted
  let Q : ℕ → Ring → Prop := fun k s => P k s ∧
    ((∀ j < k, Ring.Accepts answers batch.operations j) →
      s.operations.nextId = wrappingAdd ring.operations.nextId k)
  have hstep : ∀ k operation s, Ring.checkBatch batch config = .ok () →
      batch.operations[k]? = some operation →
      (∀ j < k, Ring.Accepts answers batch.operations j) → Q k s →
      Q (k + 1) (s.submit operation (answers k)).2 := by
    rintro k operation s hcheck hop hacc ⟨hP, hid⟩
    obtain ⟨hk, -⟩ := List.getElem?_eq_some_iff.mp hop
    refine ⟨hnext k operation s hcheck hk (fun ha hv j hj => ?_) (hid hacc) hP, fun hacc' => ?_⟩
    · rcases Nat.lt_or_eq_of_le hj with hj | rfl
      · exact hacc j hj
      · refine ⟨ha, fun op hop' => ?_⟩
        rwa [← Option.some.inj (hop.symm.trans hop')]
    · obtain ⟨ha, hv⟩ := hacc' k (Nat.lt_succ_self k)
      rcases s.submit_cases operation (answers k) with
        ⟨_, hbad, -⟩ | ⟨_, hbad, -, -⟩ | ⟨-, -, hsub⟩
      · exact absurd (hbad.symm.trans (hv operation hop)) (by simp)
      · exact absurd (hbad.symm.trans ha) (by simp)
      · have hmove : (s.submit operation (answers k)).2.operations.nextId =
            wrappingAdd s.operations.nextId 1 := by
          rw [hsub]
          rfl
        rw [hmove, hid hacc, wrappingAdd_succ]
  obtain ⟨k, hk, hP, -⟩ := Ring.submitBatch_invariant hstep ⟨h₀, fun _ => hzero.symm⟩
  exact ⟨k, hk, hP⟩

/-- The submission of a batch keeps the ids apart. -/
theorem apart_submitBatch {batch : Batch} {config : BatchConfig}
    {answers : ℕ → Except SaferRingError Unit}
    (hstep : Step w ⟨.submitBatch batch config answers, r⟩ w')
    (hfree : DrawsApart w ⟨.submitBatch batch config answers, r⟩) (hn : n + batch.len < 2 ^ 64)
    (h : Ring.Apart n w.ring) : Ring.Apart (n + batch.len) w'.ring := by
  -- what holds after `k` operations: the ids are apart, and no owned operation joined those in
  -- flight
  let P : ℕ → Ring → Prop := fun k ring => Ring.Apart (n + k) ring ∧
    ∀ q ∈ ring.backend.inFlight, q.caller.isLegacy ≠ true → q ∈ w.ring.backend.inFlight
  have hnext : ∀ k operation ring, Ring.checkBatch batch config = .ok () → k < batch.len →
      (answers k = .ok () → operation.validate = .ok () →
        ∀ j ≤ k, Ring.Accepts answers batch.operations j) →
      ring.operations.nextId = wrappingAdd w.ring.operations.nextId k → P k ring →
      P (k + 1) (ring.submit operation (answers k)).2 := by
    rintro k operation ring hcheck hk hacc hid ⟨hapart, hother⟩
    refine ⟨hapart.submit (by omega) fun ha hv q hq hcaller => ?_, ?_⟩
    · rw [hid]
      exact hfree hcheck k hk (hacc ha hv) q (hother q hq hcaller) hcaller
    · rcases ring.submit_cases operation (answers k) with
        ⟨_, -, hsub⟩ | ⟨_, -, -, hsub⟩ | ⟨-, -, hsub⟩
      · rw [hsub]
        exact hother
      · rw [hsub]
        exact hother
      · rw [hsub]
        intro q hq hcaller
        rcases Backend.mem_inFlight_accepted.mp hq with rfl | hq
        · exact absurd (congrArg Caller.isLegacy (Ring.caller_legacyRequest _)) hcaller
        · exact hother q hq hcaller
  obtain ⟨result, ring, hcall, hw⟩ := hstep.submitBatch
  have hzero : P 0 w.ring := ⟨h, fun q hq _ => hq⟩
  obtain ⟨k, hk, hP, -⟩ :=
    Ring.submitBatch_numbered (h.drawn true).wrappingAdd_zero hnext hzero
  rw [hcall] at hP
  have hfinal : Ring.Apart (n + batch.len) ring :=
    hP.mono (by omega) (List.Subperm.refl _) fun _ => rfl
  rcases hw with ⟨_, -, rfl⟩ | ⟨_, -, rfl⟩ <;> exact hfinal

/-- **A step keeps the ids apart.** -/
theorem apart_step (hstep : Step w e w') (hfree : DrawsApart w e)
    (hn : n + submissionsOf e < 2 ^ 64) (h : Ring.Apart n w.ring) :
    Ring.Apart (n + submissionsOf e) w'.ring := by
  obtain ⟨action, response⟩ := e
  cases action with
  | owned call i answer =>
    obtain ⟨buffer, hb, ⟨ha, hfit, rfl⟩ | ⟨-, rfl⟩⟩ := hstep.owned
    · refine h.accept (k := false) hn ?_ OwnedCall.userData_request
        (hfree buffer hb ha hfit) rfl rfl rfl
      rw [OwnedCall.caller_request]
      rfl
    · exact h.track (k := false) hn rfl rfl rfl
  | acceptSafe fd addr answer =>
    rcases hstep.acceptSafe with ⟨ha, rfl⟩ | ⟨_, -, rfl⟩
    · exact h.accept (k := false) hn rfl rfl (hfree ha) rfl rfl rfl
    · exact h.track (k := false) hn rfl rfl rfl
  | submit operation answer =>
    obtain ⟨-, rfl⟩ := Prod.mk.inj (Option.some.inj hstep)
    exact h.submit hn hfree
  | submitBatch batch config answers => exact apart_submitBatch hstep hfree hn h
  | pollFuture f waker fail =>
    obtain ⟨_, _, _, _, -, hpoll, -, rfl⟩ := hstep.pollFuture
    obtain ⟨hb, hops, hs⟩ := OwnedFuture.poll_frame hpoll
    refine h.taken hb fun k => ?_
    cases k with
    | true => exact congrArg OperationTracker.nextId hops
    | false => exact hs
  | dropFuture f =>
    obtain ⟨future, -, rfl⟩ := hstep.dropFuture
    obtain ⟨hb, hops, hs⟩ := future.drop_frame w.ring
    refine h.taken (Or.inl hb) fun k => ?_
    cases k with
    | true => exact congrArg OperationTracker.nextId hops
    | false => exact hs
  | pollBatch | dropBatch | tryComplete | waitForCompletion | tryCompleteById
  | pollOperationCompletion =>
    exact h.collects (hstep.collects trivial)
  | processCompletions =>
    obtain ⟨-, rfl⟩ := Prod.mk.inj (Option.some.inj hstep)
    exact h.taken (Or.inl rfl) fun _ => rfl
  | complete i result =>
    obtain ⟨backend, hb, rfl⟩ := hstep.complete
    exact h.mono (le_refl n) (Backend.complete_perm hb).subperm fun _ => rfl
  | newBuffer | fromSlice | cloneHandle | dropHandle | dropGuard | tryAccess =>
    rw [hstep.buffer trivial]
    exact h

end Steps

/-! ### The runs -/

/-- A legacy read of a pinned buffer. -/
def pinnedRead : Operation Building := ⟨.pinned ⟨4096, 8⟩, .raw 3, 0, .read, ⟨⟩⟩

end SaferRing
