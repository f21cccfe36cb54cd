import Mathlib.Data.List.Iterate
import Mathlib.Data.List.Perm.Basic
import Mathlib.Data.Nat.ModEq
import SaferRing.Batch.Outcome

/-!
# A batch alone on its ring

When a batch is submitted on a ring that has nothing in flight, and is the only one to ask
for completions, every completion it is owed reaches it. What then holds between polls is
`SaferRing.Alone`: what was handed over since the submission is what is in the results, and
the rest is in flight.

So it is exact (`SaferRing.batchResult_exact`): it answers at the first poll by which all its
operations were handed over, whatever their order and however they came together, and the
result at a position is that of the operation added there.
-/

namespace SaferRing

open Transition (Move Guarded)

/-! ### Submission -/

namespace Ring

variable {answers : ℕ → Except SaferRingError Unit} {s t : Ring} {index : ℕ}
variable {operations : List (Operation Building)} {ids : List ℕ}

/-- The requests of operations submitted under ids, in order. -/
def requestsOf (operations : List (Operation Building)) (ids : List ℕ) : List Request :=
  List.zipWith (fun operation id => legacyRequest { operation with state := ⟨id⟩ }) operations ids

theorem requestsOf_ids (h : ids.length = operations.length) :
    (requestsOf operations ids).map Request.userData = ids := by
  simp only [requestsOf, List.map_zipWith, userData_legacyRequest]
  rw [← List.map_uncurry_zip_eq_zipWith]
  exact List.map_snd_zip h.le

/-- **What the operations of a batch make of the ring** when all of them are accepted: they
are in flight and tracked, under ids drawn one after the other. -/
theorem submitAll_ok (h : submitAll answers s index operations = (.ok ids, t)) :
    ids = List.iterate (wrappingAdd · 1) s.operations.nextId operations.length ∧
      t.backend = { s.backend with
        pending := s.backend.pending ++ requestsOf operations ids } ∧
      t.completionCache = s.completionCache ∧
      ∀ id, id ∈ ids ∨ id ∈ s.operations.inFlight → id ∈ t.operations.inFlight := by
  induction operations generalizing s index ids with
  | nil =>
    obtain ⟨hids, rfl⟩ := Prod.mk.inj h
    obtain rfl := Except.ok.inj hids
    simp [requestsOf]
  | cons operation rest ih =>
    rw [submitAll] at h
    rcases s.submit_cases operation (answers index) with
      ⟨_, -, hsub⟩ | ⟨_, -, -, hsub⟩ | ⟨-, -, hsub⟩
    · rw [hsub] at h
      exact absurd (Prod.mk.inj h).1 (by simp)
    · rw [hsub] at h
      exact absurd (Prod.mk.inj h).1 (by simp)
    · rw [hsub] at h
      simp only at h
      split at h
      · exact absurd (Prod.mk.inj h).1 (by simp)
      rename_i ids' ring hrest
      obtain ⟨hids, rfl⟩ := Prod.mk.inj h
      obtain rfl := Except.ok.inj hids
      obtain ⟨hiter, hback, hcache, htracked⟩ := ih hrest
      refine ⟨?_, ?_, hcache, fun id hid => htracked id ?_⟩
      · rw [hiter]
        rfl
      · rw [hback]
        simp [accepted, tracking, Backend.accepted, requestsOf]
      · rcases hid with hid | hid
        · rcases List.mem_cons.mp hid with rfl | hid
          · exact Or.inr ((AList.mem_insert _).mpr (Or.inl rfl))
          · exact Or.inl hid
        · exact Or.inr ((AList.mem_insert _).mpr (Or.inr hid))

/-- Ids drawn one after the other are different, as long as the counter does not come round. -/
theorem nodup_iterate_wrappingAdd (counter : ℕ) {n : ℕ} (hn : n ≤ 2 ^ 64) :
    (List.iterate (wrappingAdd · 1) counter n).Nodup := by
  have hmod : ∀ k, (wrappingAdd · 1)^[k] counter % 2 ^ 64 = (counter + k) % 2 ^ 64 := by
    intro k
    induction k with
    | zero => rfl
    | succ k ih =>
      rw [Function.iterate_succ_apply', wrappingAdd, Nat.mod_mod, Nat.add_mod, ih,
        ← Nat.add_mod, Nat.add_assoc]
  rw [← List.range_map_iterate]
  refine List.Nodup.map_on (fun i hi j hj hij => ?_) List.nodup_range
  have hsame := congrArg (· % 2 ^ 64) hij
  simp only [hmod] at hsame
  have hi := List.mem_range.mp hi
  have hj := List.mem_range.mp hj
  exact Nat.ModEq.eq_of_lt_of_lt (Nat.ModEq.add_left_cancel' counter hsame)
    (hi.trans_le hn) (hj.trans_le hn)

end Ring

/-! ### Between polls -/

/-- **A batch alone on its ring**, with the operations `requests`: of them `done` were handed
over, after `old`, and their results are in the future `s`; the others are in flight. -/
structure Alone (b : ℕ) (requests : List Request) (old done : List Completion)
    (s : StandaloneBatchFuture) (w : World) : Prop where
  future : w.batches[b]? = some (some s)
  shaped : s.Shaped
  ids : s.operationIds = requests.map fun r => some r.userData
  nodup : (requests.map Request.userData).Nodup
  patient : s.failFast = false
  delivered : w.delivered = old ++ done
  perm : (w.inFlight ++ done.map Prod.fst).Perm requests
  cache : w.ring.completionCache = ∅
  tracked : ∀ id ∈ w.inFlightIds, id ∈ w.ring.operations.inFlight
  results : ∀ i x, s.resultAt i = some x ↔
    ∃ c ∈ done, requests[i]? = some c.1 ∧ x = .ofCompletion c.2
  finished : s.completed = true → s.allOperationsCompleted = true

/-- The steps of a batch that is alone: the kernel completes operations, and the batch is
polled, without the backend failing. -/
def AloneSteps (b : ℕ) (_ : World) (e : Event) : Prop :=
  match e.action with
  | .complete _ _ => True
  | .pollBatch b' _ _ fail => b' = b ∧ fail = none
  | _ => False

section Steps

variable {w w' : World} {b : ℕ} {requests : List Request} {old done : List Completion}
variable {s : StandaloneBatchFuture} {r : Response} {waker : Waker}

namespace Alone

/-- Operations of a batch with one id are one. -/
theorem inj (h : Alone b requests old done s w) {r r' : Request} (hr : r ∈ requests)
    (hr' : r' ∈ requests) (hid : r.userData = r'.userData) : r = r' :=
  List.inj_on_of_nodup_map h.nodup hr hr' hid

/-- Where an id leads. -/
theorem lookup (h : Alone b requests old done s w) {id i : ℕ} :
    s.idToIndex.lookup id = some i ↔ ∃ r, requests[i]? = some r ∧ r.userData = id := by
  rw [h.shaped.lookup, h.ids, List.getElem?_map, Option.map_eq_some_iff]
  simp only [Option.some.injEq]

/-- The ids in flight are different. -/
theorem nodup_inFlightIds (h : Alone b requests old done s w) : w.inFlightIds.Nodup := by
  have hall := (h.perm.map Request.userData).nodup_iff.mpr h.nodup
  rw [List.map_append] at hall
  exact (List.nodup_append.mp hall).1

/-- **An operation whose completion waits has no result.** -/
theorem resultAt_of_waiting (h : Alone b requests old done s w) {c : Completion}
    (hc : c ∈ w.ring.backend.ready) {i : ℕ} (hi : requests[i]? = some c.1) :
    s.resultAt i = none := by
  rcases hres : s.resultAt i with _ | x
  · rfl
  obtain ⟨d, hd, hreq, -⟩ := (h.results i x).mp hres
  have hsame : d.1 = c.1 := Option.some.inj (hreq.symm.trans hi)
  have hflight : c.1 ∈ w.inFlight := Backend.mem_inFlight.mpr (Or.inr ⟨c.2, hc⟩)
  have hnd := h.perm.nodup_iff.mpr (List.Nodup.of_map _ h.nodup)
  exact absurd (List.mem_map.mpr ⟨d, hd, hsame⟩) (List.disjoint_of_nodup_append hnd hflight)

/-- **`try_complete` hands over everything that waits.** -/
theorem tryComplete (h : Alone b requests old done s w) :
    ∃ completions ring, w.ring.tryComplete [] none = .returned (.ok completions, ring) ∧
      completions.map (fun c => (c.operationId, c.result)) = w.ring.backend.waiting ∧
      (completions.map CompletionResult.operationId).Nodup ∧
      ring.backend = w.ring.backend.drained ∧ ring.completionCache = ∅ ∧
      ∀ id ∈ ring.backend.inFlightIds, id ∈ ring.operations.inFlight := by
  obtain ⟨completions, ring, htry, hmap, hback, -, hcache, htracked⟩ :=
    w.ring.tryComplete_waiting h.nodup_inFlightIds h.tracked
  refine ⟨completions, ring, htry, hmap, ?_, hback, hcache, htracked⟩
  have hids : completions.map CompletionResult.operationId =
      w.ring.backend.waiting.map Prod.fst := by
    rw [← hmap, List.map_map]
    rfl
  have hnd := h.nodup_inFlightIds
  rw [World.inFlightIds, Backend.inFlightIds_eq] at hnd
  rw [hids]
  exact (List.nodup_append.mp hnd).2.1

/-- Nothing is cached. -/
theorem cachedCompletions (h : Alone b requests old done s w) : w.ring.cachedCompletions = [] := by
  rw [Ring.cachedCompletions, h.cache]
  rfl

/-- The kernel completes an operation. -/
theorem complete (h : Alone b requests old done s w) {i : ℕ} {result : IoResult}
    (hstep : Step w ⟨.complete i result, r⟩ w') : Alone b requests old done s w' := by
  obtain ⟨backend, hb, rfl⟩ := hstep.complete
  have hperm := Backend.complete_perm hb
  refine { h with
    delivered := (Backend.complete_delivered hb).trans h.delivered
    perm := (hperm.append_right _).trans h.perm
    tracked := fun id hid => h.tracked id ?_ }
  exact (hperm.map Request.userData).mem_iff.mp hid

/-- The results once what waited was recorded. -/
theorem results_concludes (h : Alone b requests old done s w)
    {completions : List CompletionResult} {t : StandaloneBatchFuture}
    {answer : Poll (Except SaferRingError BatchResult)}
    (hmap : completions.map (fun c => (c.operationId, c.result)) = w.ring.backend.waiting)
    (hc : s.Concludes completions t answer) {i : ℕ} {x : OperationResult} :
    t.resultAt i = some x ↔ ∃ c ∈ done ++ w.ring.backend.ready,
      requests[i]? = some c.1 ∧ x = .ofCompletion c.2 := by
  have hfollows := hc.follows
  constructor
  · intro hx
    have hkept : s.resultAt i = some x → ∃ c ∈ done ++ w.ring.backend.ready,
        requests[i]? = some c.1 ∧ x = .ofCompletion c.2 := by
      intro hs
      obtain ⟨c, hdone, hcase⟩ := (h.results i x).mp hs
      exact ⟨c, List.mem_append_left _ hdone, hcase⟩
    rcases hfollows.only i x hx with hs | rfl | ⟨c, hcomp, hi, rfl⟩
    · exact hkept hs
    -- nothing is given up, since no failure ends the batch
    · rcases hc.cancels i hx with hs | ⟨hfast, -⟩
      · exact hkept hs
      · exact absurd (h.patient.symm.trans hfast) (by simp)
    · obtain ⟨d, hd, hid, hres⟩ := (mem_of_waiting hmap).2 c hcomp
      obtain ⟨r, hr, hrid⟩ := h.lookup.mp hi
      have hflight : d.1 ∈ w.inFlight := Backend.mem_inFlight.mpr (Or.inr ⟨d.2, hd⟩)
      have hreq : d.1 ∈ requests := h.perm.mem_iff.mp (List.mem_append_left _ hflight)
      obtain rfl := h.inj (List.mem_of_getElem? hr) hreq (hrid.trans hid)
      exact ⟨d, List.mem_append_right _ hd, hr, congrArg _ hres⟩
  · rintro ⟨c, hmem, hi, rfl⟩
    rcases List.mem_append.mp hmem with hmem | hmem
    · exact hfollows.keep i _ ((h.results i _).mpr ⟨c, hmem, hi, rfl⟩)
    · obtain ⟨d, hd, hid, hres⟩ := (mem_of_waiting hmap).1 c hmem
      rw [← hres]
      exact hfollows.take d hd i (h.lookup.mpr ⟨c.1, hi, hid.symm⟩)
        (h.resultAt_of_waiting hmem hi)

/-- **A poll** records what waited: the batch answers when every position has a result. -/
theorem pollBatch (h : Alone b requests old done s w) {cached : List (ℕ × IoResult)}
    (hstep : Step w ⟨.pollBatch b waker cached none, r⟩ w') :
    ∃ done' t, Alone b requests old done' t w' ∧ r = .batchPolled
      (if t.allOperationsCompleted then .ready (.ok t.collectResults) else .pending) := by
  obtain ⟨hperm, s', answer, t, ring, hb, hcall, rfl, rfl⟩ := hstep.pollBatch
  obtain rfl := Option.some.inj (Option.some.inj (hb.symm.trans h.future))
  obtain ⟨hlt, hget⟩ := List.getElem?_eq_some_iff.mp hb
  rcases hdone : s'.completed with _ | _
  swap
  -- the batch was done before
  · rw [StandaloneBatchFuture.pollWithRing_completed hdone] at hcall
    cases hcall
    have hsame : w.batches.set b (some s') = w.batches := set_eq_self hb
    refine ⟨done, s', ?_, ?_⟩
    · rw [hsame]
      exact h
    · rw [if_pos (h.finished hdone)]
  have hcached : cached = [] := List.perm_nil.mp (h.cachedCompletions ▸ hperm)
  obtain ⟨completions, ring', htry, hmap, hids, hback, hcache, htracked⟩ := h.tryComplete
  rw [← hcached] at htry
  obtain ⟨_, _, wakerRegistry, hfollows, -, -⟩ :=
    StandaloneBatchFuture.pollWithRing_follows waker h.shaped hdone hids htry
  have hring : ring = { ring' with wakerRegistry } := by
    rw [hfollows] at hcall
    cases hcall
    rfl
  have hc := StandaloneBatchFuture.pollWithRing_concludes h.shaped hdone hids htry hcall
  refine ⟨done ++ w.ring.backend.ready, t, ?_, congrArg _ hc.answer⟩
  obtain rfl := hring
  have hsame := hc.follows.same
  exact
    { future := List.getElem?_set_self hlt
      shaped := hsame.shaped h.shaped
      ids := hsame.operationIds.trans h.ids
      nodup := h.nodup
      patient := hsame.failFast.trans h.patient
      delivered := by
        rw [← List.append_assoc, ← h.delivered]
        exact congrArg Backend.delivered hback
      perm := by
        have hflight : (ring'.backend.inFlight ++
            (done ++ w.ring.backend.ready).map Prod.fst).Perm
              (w.inFlight ++ done.map Prod.fst) := by
          rw [hback, Backend.inFlight_drained, List.map_append, World.inFlight,
            Backend.inFlight, List.append_assoc]
          exact List.perm_append_comm.append_left _
        exact hflight.trans h.perm
      cache := hcache
      tracked := htracked
      results := fun i x => h.results_concludes hmap hc
      finished := hc.done }

/-- The batch can be polled. -/
theorem exists_poll (h : Alone b requests old done s w) (waker : Waker) :
    ∃ r w', Step w ⟨.pollBatch b waker [] none, r⟩ w' := by
  have hpoll : ∃ answer t ring,
      s.pollWithRing w.ring waker [] none = .returned (answer, t, ring) := by
    rcases hdone : s.completed with _ | _
    · obtain ⟨_, _, htry, -, hids, -⟩ := h.tryComplete
      obtain ⟨answer, t, _, hpoll, -⟩ :=
        StandaloneBatchFuture.pollWithRing_follows waker h.shaped hdone hids htry
      exact ⟨answer, t, _, hpoll⟩
    · exact ⟨_, _, _, StandaloneBatchFuture.pollWithRing_completed hdone⟩
  obtain ⟨answer, t, ring, hpoll⟩ := hpoll
  refine ⟨.batchPolled answer, { w with ring, batches := w.batches.set b (some t) }, ?_⟩
  have hperm : ([] : List (ℕ × IoResult)).Perm w.ring.cachedCompletions :=
    h.cachedCompletions ▸ List.Perm.refl _
  simp only [Step, World.step, if_pos hperm, World.pollBatch, h.future, hpoll]

/-- **The batch is done when all its operations were handed over.** -/
theorem allOperationsCompleted_iff (h : Alone b requests old done s w) :
    s.allOperationsCompleted = true ↔ done.length = requests.length := by
  have hlen : s.results.length = requests.length := by
    rw [h.shaped.length, h.ids, List.length_map]
  have hsum : w.inFlight.length + done.length = requests.length := by
    simpa using h.perm.length_eq
  have hnd := h.perm.nodup_iff.mpr (List.Nodup.of_map _ h.nodup)
  rw [StandaloneBatchFuture.allOperationsCompleted_iff, hlen]
  constructor
  · intro hall
    -- an operation in flight would have no result
    have hnone : w.inFlight = [] := by
      refine List.eq_nil_iff_forall_not_mem.mpr fun r hr => ?_
      obtain ⟨i, hi⟩ := List.mem_iff_getElem?.mp (h.perm.mem_iff.mp (List.mem_append_left _ hr))
      obtain ⟨hlt, -⟩ := List.getElem?_eq_some_iff.mp hi
      obtain ⟨x, hx⟩ := Option.isSome_iff_exists.mp (hall i hlt)
      obtain ⟨c, hc, hreq, -⟩ := (h.results i x).mp hx
      have hsame : c.1 = r := Option.some.inj (hreq.symm.trans hi)
      exact List.disjoint_of_nodup_append hnd hr (List.mem_map.mpr ⟨c, hc, hsame⟩)
    rw [hnone, List.length_nil, Nat.zero_add] at hsum
    exact hsum
  · intro hdone i hi
    have hnone : w.inFlight = [] := List.length_eq_zero_iff.mp (by omega)
    have hmem : requests[i] ∈ w.inFlight ++ done.map Prod.fst :=
      h.perm.mem_iff.mpr (List.getElem_mem hi)
    rw [hnone, List.nil_append] at hmem
    obtain ⟨c, hc, hreq⟩ := List.mem_map.mp hmem
    have hres := (h.results i _).mpr ⟨c, hc, by rw [List.getElem?_eq_getElem hi, hreq], rfl⟩
    rw [hres]
    rfl

end Alone

/-! ### The answer -/

/-- **The results of a batch are exact** for the completions of its operations: at each
position is the result of the operation there, none was given up, and the counts are those of
the completions. -/
structure Exact (requests : List Request) (done : List Completion) (result : BatchResult) :
    Prop where
  results : ∃ completions : List Completion, completions.Perm done ∧
    completions.map Prod.fst = requests ∧
    result.results = completions.map fun c => OperationResult.ofCompletion c.2
  cancelled : OperationResult.cancelled ∉ result.results
  successful : result.successfulCount = done.countP fun c => c.2.isOk
  failed : result.failedCount = done.countP fun c => !c.2.isOk
  sum : result.successfulCount + result.failedCount = requests.length

/-- Completions in the order of their operations. -/
theorem exists_perm_of_map_perm {α β : Type} {f : α → β} {l : List α} {r : List β}
    (h : (l.map f).Perm r) : ∃ l' : List α, l'.Perm l ∧ l'.map f = r := by
  have hmap : List.Forall₂ (fun a b => f a = b) l (l.map f) :=
    List.forall₂_map_right_iff.mpr (List.forall₂_same.mpr fun _ _ => rfl)
  have hcomp : Relation.Comp (List.Forall₂ fun a b => f a = b) List.Perm l r := ⟨_, hmap, h⟩
  rw [List.forall₂_comp_perm_eq_perm_comp_forall₂] at hcomp
  obtain ⟨l', hperm, hr⟩ := hcomp
  refine ⟨l', hperm.symm, ?_⟩
  rw [← List.forall₂_map_left_iff, List.forall₂_eq_eq_eq] at hr
  exact hr

/-- A result that a completion gives is a success or a failure. -/
theorem OperationResult.ofCompletion_kind (result : IoResult) :
    (OperationResult.ofCompletion result).isSuccess = result.isOk ∧
      (OperationResult.ofCompletion result).isError = !result.isOk := by
  rcases result with _ | _ <;> exact ⟨rfl, rfl⟩

/-- **What the batch answers with when it is done is exact.** -/
theorem Alone.exact (h : Alone b requests old done s w)
    (hall : done.length = requests.length) : Exact requests done s.collectResults := by
  have hsum : w.inFlight.length + done.length = requests.length := by
    simpa using h.perm.length_eq
  have hnone : w.inFlight = [] := List.length_eq_zero_iff.mp (by omega)
  have hperm := h.perm
  rw [hnone, List.nil_append] at hperm
  obtain ⟨completions, hdone, hreq⟩ := exists_perm_of_map_perm hperm
  have hresults : s.collectResults.results =
      completions.map fun c => OperationResult.ofCompletion c.2 := by
    refine List.ext_getElem? fun i => ?_
    rw [StandaloneBatchFuture.getElem?_collectResults (h.allOperationsCompleted_iff.mpr hall),
      List.getElem?_map]
    have hi : requests[i]? = completions[i]?.map Prod.fst := by
      rw [← hreq, List.getElem?_map]
    rcases hc : completions[i]? with _ | c
    · rw [hc] at hi
      rcases hres : s.resultAt i with _ | x
      · rfl
      · obtain ⟨c, -, hc, -⟩ := (h.results i x).mp hres
        exact absurd (hi.symm.trans hc) (by simp)
    · rw [hc] at hi
      exact (h.results i _).mpr ⟨c, hdone.mem_iff.mp (List.mem_of_getElem? hc), hi, rfl⟩
  have hcount : ∀ (p : OperationResult → Bool) (q : Completion → Bool),
      (∀ c : Completion, p (.ofCompletion c.2) = q c) →
      (s.collectResults.results.filter p).length = done.countP q := by
    intro p q hpq
    rw [hresults, ← List.countP_eq_length_filter, List.countP_map, ← hdone.countP_eq]
    exact congrArg (fun f => completions.countP f) (funext hpq)
  have hsuccess : s.collectResults.successfulCount = done.countP fun c => c.2.isOk :=
    hcount _ _ fun c => (OperationResult.ofCompletion_kind c.2).1
  have hfailure : s.collectResults.failedCount = done.countP fun c => !c.2.isOk :=
    hcount _ _ fun c => (OperationResult.ofCompletion_kind c.2).2
  refine ⟨⟨completions, hdone, hreq, hresults⟩, fun hcancelled => ?_, hsuccess, hfailure, ?_⟩
  · rw [hresults] at hcancelled
    obtain ⟨c, -, hc⟩ := List.mem_map.mp hcancelled
    rcases hres : c.2 with e | bytes <;> simp [hres, OperationResult.ofCompletion] at hc
  · rw [hsuccess, hfailure, ← hall]
    have hsplit := List.length_eq_countP_add_countP (fun c : Completion => c.2.isOk) (l := done)
    simpa using hsplit.symm

/-! ### Submission, again -/

/-- **A batch submitted on an idle ring is alone on it.** -/
theorem alone_submitBatch {batch : Batch} {config : BatchConfig}
    {answers : ℕ → Except SaferRingError Unit} (hidle : w.inFlight = [])
    (hcache : w.ring.completionCache = ∅) (hlen : batch.len < 2 ^ 64)
    (hpatient : config.failFast = false)
    (hstep : Step w ⟨.submitBatch batch config answers, .batch (.ok b)⟩ w') :
    ∃ ids s, ids.length = batch.len ∧ ids.Nodup ∧
      Alone b (Ring.requestsOf batch.operations ids) w.delivered [] s w' := by
  have hsub : w.submitBatch batch config answers = (.batch (.ok b), w') := Option.some.inj hstep
  rw [World.submitBatch, Ring.submitBatchStandaloneWithConfig] at hsub
  split at hsub
  case h_1 => exact absurd (Prod.mk.inj hsub).1 (by simp)
  rename_i future ring hcall
  obtain ⟨hb, rfl⟩ := Prod.mk.inj hsub
  obtain rfl := Except.ok.inj (Response.batch.inj hb)
  split at hcall
  · exact absurd (Prod.mk.inj hcall).1 (by simp)
  split at hcall
  · exact absurd (Prod.mk.inj hcall).1 (by simp)
  rename_i ids ring' hall
  obtain ⟨hfuture, rfl⟩ := Prod.mk.inj hcall
  obtain rfl := Except.ok.inj hfuture
  obtain ⟨hids, hback, hcache', htracked⟩ := Ring.submitAll_ok hall
  have hidsLength : ids.length = batch.operations.length := by
    rw [hids, List.length_iterate]
  have hnd : ids.Nodup := hids ▸ Ring.nodup_iterate_wrappingAdd _ hlen.le
  obtain ⟨hpending, hready⟩ := List.append_eq_nil_iff.mp hidle
  have hflight : ring'.backend.inFlight = Ring.requestsOf batch.operations ids := by
    rw [hback, Backend.inFlight, hpending, hready, List.nil_append, List.append_nil]
  have hrequests := Ring.requestsOf_ids hidsLength
  refine ⟨ids, .new (ids.map some) (Ring.keptDependencies batch) config.failFast, hidsLength, hnd,
    ?_⟩
  exact
    { future := List.getElem?_concat_length
      shaped := StandaloneBatchFuture.shaped_new hnd _ _
      ids := by
        have hmap := congrArg (List.map some) hrequests
        rw [List.map_map] at hmap
        exact hmap.symm
      nodup := hrequests.symm ▸ hnd
      patient := hpatient
      delivered := by
        rw [World.delivered, hback, List.append_nil]
      perm := by
        rw [World.inFlight, hflight, List.map_nil, List.append_nil]
      cache := hcache'.trans hcache
      tracked := fun id hid => htracked id (Or.inl (by
        rw [World.inFlightIds, Backend.inFlightIds, hflight, hrequests] at hid
        exact hid))
      results := fun i x => by
        rw [StandaloneBatchFuture.resultAt_new]
        simp
      finished := fun h => absurd h (by simp [StandaloneBatchFuture.new]) }

end Steps

/-! ### Runs -/

/-- **A batch that is alone stays so**, all along a run. -/
theorem Alone.run {w w' : World} {ms : List (Move World Event)} {b : ℕ}
    {requests : List Request} {old : List Completion}
    (hrun : Transition.Run Step w ms w') (halone : Guarded (AloneSteps b) ms)
    (h : ∃ done s, Alone b requests old done s w) : ∃ done s, Alone b requests old done s w' := by
  let Inv : World → Prop := fun w => ∃ done s, Alone b requests old done s w
  have hstep : ∀ w e w', Step w e w' → AloneSteps b w e → Inv w → Inv w' := by
    rintro w ⟨action, response⟩ w' hstep hstays ⟨done, s, h⟩
    cases action with
    | complete i result => exact ⟨done, s, h.complete hstep⟩
    | pollBatch b' waker cached fail =>
      obtain ⟨rfl, rfl⟩ := hstays
      obtain ⟨done', t, h', -⟩ := h.pollBatch hstep
      exact ⟨done', t, h'⟩
    | _ => exact absurd hstays (by simp [AloneSteps])
  have hend : Inv w' := hrun.invariant hstep halone h
  exact hend

/-- **Batch results are exact.** Of a batch submitted on an idle ring, to go on after failures,
and alone to ask for completions: its operations are in flight, under different ids; it can
always be polled; a poll answers exactly when all its operations were handed over by then; and
what it answers is exact for the completions handed over. -/
theorem batchResult_exact {w w₀ : World} {batch : Batch} {config : BatchConfig}
    {answers : ℕ → Except SaferRingError Unit} {b : ℕ} (hidle : w.inFlight = [])
    (hcache : w.ring.completionCache = ∅) (hlen : batch.len < 2 ^ 64)
    (hpatient : config.failFast = false)
    (hsubmit : Step w ⟨.submitBatch batch config answers, .batch (.ok b)⟩ w₀) :
    ∃ ids : List ℕ, ids.Nodup ∧ ids.length = batch.len ∧
      w₀.inFlight.Perm (Ring.requestsOf batch.operations ids) ∧
      ∀ ms w', Transition.Run Step w₀ ms w' → Guarded (AloneSteps b) ms →
        (∀ waker, ∃ r w'', Step w' ⟨.pollBatch b waker [] none, r⟩ w'') ∧
        ∀ m ∈ ms, ∀ waker cached answer,
          m.label = ⟨.pollBatch b waker cached none, .batchPolled answer⟩ →
          ∃ done, m.after.delivered = w.delivered ++ done ∧
            (done.length ≠ batch.len ∧ answer = .pending ∨
              done.length = batch.len ∧ ∃ result, answer = .ready (.ok result) ∧
                Exact (Ring.requestsOf batch.operations ids) done result) := by
  obtain ⟨ids, s, hlength, hnd, h₀⟩ := alone_submitBatch hidle hcache hlen hpatient hsubmit
  have hrequests : (Ring.requestsOf batch.operations ids).length = batch.len := by
    rw [← hlength, ← List.length_map Request.userData, Ring.requestsOf_ids hlength]
  refine ⟨ids, hnd, hlength, by simpa using h₀.perm, fun ms w' hrun halone => ⟨fun waker => ?_, ?_⟩⟩
  · obtain ⟨done, t, h⟩ := Alone.run hrun halone ⟨[], s, h₀⟩
    exact h.exists_poll waker
  · intro m hm waker cached answer hlabel
    obtain ⟨ms₁, ms₂, rfl, hbefore, hstep, -⟩ := hrun.split hm
    have halone₁ : Guarded (AloneSteps b) ms₁ := fun m' hm' =>
      halone m' (List.mem_append_left _ hm')
    obtain ⟨_, _, h⟩ := Alone.run hbefore halone₁ ⟨[], s, h₀⟩
    rw [hlabel] at hstep
    obtain ⟨done, t, h', hanswer⟩ := h.pollBatch hstep
    refine ⟨done, h'.delivered, ?_⟩
    obtain rfl := Response.batchPolled.inj hanswer
    -- what the batch answers depends on whether every position has a result
    rw [← hrequests]
    by_cases hall : done.length = (Ring.requestsOf batch.operations ids).length
    · refine Or.inr ⟨hall, _, if_pos (h'.allOperationsCompleted_iff.mpr hall), h'.exact hall⟩
    · refine Or.inl ⟨hall, if_neg fun hc => hall (h'.allOperationsCompleted_iff.mp hc)⟩

/-- Two reads, submitted together. -/
def twoReads : Batch := ⟨[readInto 4096, readInto 8192], ∅, 1024⟩

/-- The second read ends first, and the first one fails, with a poll after each. -/
def secondEndsFirst : List Action :=
  [.complete 1 (.ok 5), .pollBatch 0 7 [] none, .complete 0 (.error (.os 5)),
    .pollBatch 0 7 [] none]

/-- **The second poll answers with both results**, in the order the reads were added. -/
theorem batchResult_exact_secondEndsFirst : ∃ w₀ ms w',
    Step .new ⟨.submitBatch twoReads .default fun _ => .ok (), .batch (.ok 0)⟩ w₀ ∧
      Transition.Run Step w₀ ms w' ∧ actionsOf ms = secondEndsFirst ∧
      (ms.map fun m => m.label.response) = [.done, .batchPolled .pending, .done,
        .batchPolled (.ready (.ok ⟨[.error (.strerror 5), .success 5], 1, 1⟩))] ∧
      ∃ ids : List ℕ, ids.Nodup ∧ ids.length = 2 ∧ ∀ m ∈ ms, ∀ waker cached answer,
        m.label = ⟨.pollBatch 0 waker cached none, .batchPolled answer⟩ →
        ∃ done, m.after.delivered = [] ++ done ∧
          (done.length ≠ 2 ∧ answer = .pending ∨
            done.length = 2 ∧ ∃ result, answer = .ready (.ok result) ∧
              Exact (Ring.requestsOf twoReads.operations ids) done result) := by
  have hsubmit : Step .new ⟨.submitBatch twoReads .default fun _ => .ok (), .batch (.ok 0)⟩
      (World.new.submitBatch twoReads .default fun _ => .ok ()).2 := rfl
  obtain ⟨ids, hnd, hlength, -, hexact⟩ :=
    batchResult_exact rfl rfl (by decide) rfl hsubmit
  obtain ⟨⟨ms, w'⟩, htrace⟩ :
      ∃ x, (World.new.submitBatch twoReads .default fun _ => .ok ()).2.trace secondEndsFirst =
        some x :=
    Option.isSome_iff_exists.mp (by decide)
  obtain ⟨hrun, hacts⟩ := run_of_trace htrace
  have halone : Guarded (AloneSteps 0) ms := by
    refine guarded_of_actions (p := fun a => AloneSteps 0 World.new ⟨a, .done⟩)
      (fun _ _ h => h) ?_
    rw [hacts]
    simp [secondEndsFirst, AloneSteps]
  have hanswers : ((World.new.submitBatch twoReads .default fun _ => .ok ()).2.trace
      secondEndsFirst).map (fun x => x.1.map fun m => m.label.response) =
        some [.done, .batchPolled .pending, .done,
          .batchPolled (.ready (.ok ⟨[.error (.strerror 5), .success 5], 1, 1⟩))] := by
    decide
  rw [htrace] at hanswers
  obtain ⟨-, hpolls⟩ := hexact ms w' hrun halone
  exact ⟨_, ms, w', hsubmit, hrun, hacts, Option.some.inj hanswers, ids, hnd, hlength, hpolls⟩

end SaferRing
