import SaferRing.Batch.Failure

/-!
# Operations given up

A batch that one failure ends answers at once, with the operations that have no result as
cancelled “before execution”. Nobody tells the kernel, though: what it was working on goes on.
`SaferRing.cancelledNeverExecuted_iff` is that **what a batch calls cancelled is never executed
exactly when the kernel works on no operation of the batch at the moment a failure ends
it**.

Where that is so, an operation given up is one whose completion was handed over before
(`SaferRing.GivenUpDelivered`), and its id is never in flight again.
-/

namespace SaferRing

open Transition (Move Guarded)

/-! ### What is promised of a cancelled operation -/

/-- **An operation stays out**: it is not in flight, never will be, and no completion of it is
handed over any more. -/
def StaysOut (id : ℕ) (now : Backend) (later : List Backend) : Prop :=
  id ∉ now.inFlightIds ∧ ∀ backend ∈ later, id ∉ backend.inFlightIds ∧
    ∀ c ∈ backend.delivered, c.1.userData = id → c ∈ now.delivered

/-- **What a batch calls cancelled is never executed**: whenever it answers, in the run that
goes on from there. -/
def CancelledNeverExecuted (b : ℕ) (ms : List (Move World Event)) : Prop :=
  ∀ ms₁ m ms₂, ms = ms₁ ++ m :: ms₂ → ∀ waker cached fail result s (i id : ℕ),
    m.label = ⟨.pollBatch b waker cached fail, .batchPolled (.ready (.ok result))⟩ →
    m.before.batches[b]? = some (some s) → result.results[i]? = some .cancelled →
    s.operationIds[i]? = some (some id) →
    StaysOut id m.after.ring.backend (ms₂.map fun m => m.after.ring.backend)

/-- The same, of the future that holds its ring. -/
def BatchFuture.CancelledNeverExecuted (es : List (Move BatchFuture BatchFuture.Event)) : Prop :=
  ∀ es₁ m es₂, es = es₁ ++ m :: es₂ → ∀ waker cached fail result (i id : ℕ),
    m.label = .polled waker cached fail (.ready (.ok result)) →
    result.results[i]? = some .cancelled → m.before.operationIds[i]? = some (some id) →
    StaysOut id m.after.ring.backend (es₂.map fun m => m.after.ring.backend)

/-- **A failure waits** of an operation of a batch. -/
def FailureWaits (backend : Backend) (s : StandaloneBatchFuture) : Prop :=
  ∃ c ∈ backend.ready, ∃ i, s.operationIds[i]? = some (some c.1.userData) ∧
    s.resultAt i = none ∧ (OperationResult.ofCompletion c.2).isError = true

/-- **A batch that a failure ends has nothing at the kernel.** -/
def EndsIdle (backend : Backend) (s : StandaloneBatchFuture) : Prop :=
  s.completed = false → s.failFast = true → FailureWaits backend s →
    ∀ r ∈ backend.pending, ∀ i, s.operationIds[i]? = some (some r.userData) → s.resultAt i ≠ none

/-- A poll of the batch at `b` that a failure ends finds nothing of it at the kernel. -/
def PollEndsIdle (b : ℕ) (w : World) (e : Event) : Prop :=
  match e.action with
  | .pollBatch b' _ _ none => b' = b → ∀ s, w.batches[b]? = some (some s) →
      EndsIdle w.ring.backend s
  | _ => True

/-- The same, of the future that holds its ring. -/
def BatchFuture.PollEndsIdle (self : BatchFuture) (e : BatchFuture.Event) : Prop :=
  match e with
  | .polled _ _ none _ => EndsIdle self.ring.backend self.toStandaloneBatchFuture
  | _ => True

/-! ### What was handed over stays so -/

section Steps

variable {w w' : World} {e : Event} {n b : ℕ} {r : Response}

/-- **Completions handed over stay so**, in front of the others. -/
theorem Outcomes.delivered_prefix (h : Outcomes n w) (hstep : Step w e w')
    (hbatch : BatchSteps w e) : w.delivered <+: w'.delivered := by
  by_cases hpoll : ∀ b waker cached fail, e.action ≠ .pollBatch b waker cached fail
  · rw [(quiet_step hstep hbatch hpoll).1]
  simp only [ne_eq, not_forall, not_not] at hpoll
  obtain ⟨b, waker, cached, fail, ha⟩ := hpoll
  obtain ⟨action, response⟩ := e
  obtain rfl : action = .pollBatch b waker cached fail := ha
  obtain ⟨s, answer, -, -, ⟨-, -, hback, -⟩ | ⟨_, -, -, hback, -⟩ | ⟨-, -, hback, -⟩⟩ :=
    h.batches.pollBatch_concludes hstep
  all_goals rw [World.delivered, World.delivered, hback]
  exact List.prefix_append _ _

/-- An operation handed over is not in flight. -/
theorem Outcomes.not_inFlight (h : Outcomes n w) {id : ℕ}
    (hid : id ∈ w.ring.backend.deliveredIds) : id ∉ w.inFlightIds :=
  fun hin => List.disjoint_of_nodup_append h.batches.ring.nodup hin hid

/-- An operation of a batch that is not in flight was handed over. -/
theorem Outcomes.delivered_of_accepted (h : Outcomes n w) {s : StandaloneBatchFuture} {i id : ℕ}
    (hb : w.batches[b]? = some (some s)) (hi : s.operationIds[i]? = some (some id))
    (hnot : id ∉ w.inFlightIds) : id ∈ w.ring.backend.deliveredIds := by
  have hacc := h.batches.accepted b s hb id (List.mem_of_getElem? hi)
  exact (List.mem_append.mp hacc).resolve_left hnot

/-- **The operations of a batch that were given up are ones whose completions were handed
over.** -/
def GivenUpDelivered (b : ℕ) (w : World) : Prop :=
  ∀ s, w.batches[b]? = some (some s) → ∀ i id, s.resultAt i = some .cancelled →
    s.operationIds[i]? = some (some id) → id ∈ w.ring.backend.deliveredIds

/-- What was handed over, by ids. -/
theorem deliveredIds_subset {backend backend' : Backend} {id : ℕ}
    (hpre : backend.delivered <+: backend'.delivered) (h : id ∈ backend.deliveredIds) :
    id ∈ backend'.deliveredIds := by
  obtain ⟨c, hc, rfl⟩ := List.mem_map.mp h
  exact List.mem_map_of_mem (hpre.subset hc)

/-- A failure among the completions taken is one that waits. -/
theorem failureIn_iff {s : StandaloneBatchFuture} {completions : List CompletionResult}
    {backend : Backend} (hs : s.Shaped)
    (hmap : completions.map (fun c => (c.operationId, c.result)) = backend.waiting) :
    (∃ c ∈ completions, s.FailureIn c) ↔ FailureWaits backend s := by
  constructor
  · rintro ⟨c, hc, i, hi, hnone, herr⟩
    obtain ⟨d, hd, hid, hres⟩ := (mem_of_waiting hmap).2 c hc
    exact ⟨d, hd, i, (hs.lookup _ i).mp (hid ▸ hi), hnone, hres ▸ herr⟩
  · rintro ⟨d, hd, i, hi, hnone, herr⟩
    obtain ⟨c, hc, hid, hres⟩ := (mem_of_waiting hmap).1 d hd
    exact ⟨c, hc, i, hid ▸ (hs.lookup _ i).mpr hi, hnone, hres ▸ herr⟩

/-- **What a poll that ends no batch at work gives up was handed over**: the kernel is not at
work on the operation, and its completion does not wait, or it would be recorded. -/
theorem Outcomes.delivered_of_givenUp (h : Outcomes n w) {s t : StandaloneBatchFuture}
    {completions : List CompletionResult} {answer : Poll (Except SaferRingError BatchResult)}
    {i id : ℕ} (hb : w.batches[b]? = some (some s))
    (hmap : completions.map (fun c => (c.operationId, c.result)) = w.ring.backend.waiting)
    (hc : s.Concludes completions t answer) (hopen : s.completed = false)
    (hidle : EndsIdle w.ring.backend s) (hid : s.operationIds[i]? = some (some id))
    (hnone : s.resultAt i = none) (hi : t.resultAt i = some .cancelled) :
    id ∈ w.ring.backend.deliveredIds := by
  have hshaped := h.batches.shaped b s hb
  rcases hc.cancels i hi with hold | ⟨hfast, hfail⟩
  · exact absurd (hnone.symm.trans hold) (by simp)
  refine h.delivered_of_accepted hb hid fun hin => ?_
  obtain ⟨q, hq, rfl⟩ := Backend.mem_inFlightIds.mp hin
  rcases Backend.mem_inFlight.mp hq with hq | ⟨res, hq⟩
  · exact hidle hopen hfast ((failureIn_iff hshaped hmap).mp hfail) q hq i hid hnone
  · obtain ⟨c, hc', hcid, -⟩ := (mem_of_waiting hmap).1 _ hq
    have htaken := hc.follows.take c hc' i (hcid ▸ (hshaped.lookup _ i).mpr hid) hnone
    rcases hres : c.result with bytes | err
    · simp [hres, OperationResult.ofCompletion, hi] at htaken
    · simp [hres, OperationResult.ofCompletion, hi] at htaken

/-- **A step that ends no batch at work gives up only what was handed over.** -/
theorem GivenUpDelivered.step (hg : GivenUpDelivered b w) (h : Outcomes n w)
    (hstep : Step w e w') (hbatch : BatchSteps w e) (hidle : PollEndsIdle b w e) :
    GivenUpDelivered b w' := by
  have hpre := h.delivered_prefix hstep hbatch
  have hsame : (∀ s, w'.batches[b]? = some (some s) → w.batches[b]? = some (some s)) →
      GivenUpDelivered b w' :=
    fun hold s hs i id hi hid => deliveredIds_subset hpre (hg s (hold s hs) i id hi hid)
  obtain ⟨action, response⟩ := e
  cases action with
  | submit operation answer =>
    obtain ⟨-, rfl⟩ := Prod.mk.inj (Option.some.inj hstep)
    exact hsame fun _ hs => hs
  | submitBatch batch config answers =>
    obtain ⟨result, ring, hcall, ⟨_, -, rfl⟩ | ⟨future, rfl, rfl⟩⟩ := hstep.submitBatch
    · exact hsame fun _ hs => hs
    intro s hs i id hi hid
    rcases batch_of_append hs with hs | ⟨-, rfl⟩
    · exact deliveredIds_subset hpre (hg s hs i id hi hid)
    -- a batch just submitted has given up nothing
    · rw [Ring.submitBatchStandaloneWithConfig] at hcall
      split at hcall
      · exact absurd (Prod.mk.inj hcall).1 (by simp)
      · split at hcall
        · exact absurd (Prod.mk.inj hcall).1 (by simp)
        · obtain rfl := Except.ok.inj (Prod.mk.inj hcall).1
          rw [StandaloneBatchFuture.resultAt_new] at hi
          exact absurd hi (by simp)
  | pollBatch b' waker cached fail =>
    obtain ⟨s, answer, hb, -, ⟨-, -, -, hbatches⟩ | ⟨_, -, -, -, hbatches⟩ |
      ⟨hopen, rfl, -, completions, t, hmap, hc, hset⟩⟩ := h.batches.pollBatch_concludes hstep
    · exact hsame (hbatches ▸ fun _ hs => hs)
    · exact hsame (hbatches ▸ fun _ hs => hs)
    intro f hf i id hi hid
    rw [hset] at hf
    rcases batch_of_set hb hf with ⟨rfl, rfl⟩ | ⟨-, hf⟩
    swap
    · exact deliveredIds_subset hpre (hg f hf i id hi hid)
    rw [hc.follows.same.operationIds] at hid
    refine deliveredIds_subset hpre ?_
    rcases hs : s.resultAt i with _ | x
    · exact h.delivered_of_givenUp hb hmap hc hopen (hidle rfl s hb) hid hs hi
    · have hx := (hc.follows.keep i x hs).symm.trans hi
      exact hg s hb i id (hs.trans hx) hid
  | complete i result =>
    obtain ⟨backend, hb, rfl⟩ := hstep.complete
    exact hsame fun _ hs => hs
  | _ => exact absurd hbatch (by simp [BatchSteps])

end Steps

/-! ### The runs -/

section Runs

variable {w w' : World} {ms : List (Move World Event)} {b : ℕ}

/-- Where a move of batches stands, within the budget of ids. -/
def Stands (w : World) (e : Event) : Prop :=
  BatchSteps w e ∧ ∃ n, n + submissionsOf e < 2 ^ 64 ∧ Outcomes n w

/-- Every move of a run of batches stands. -/
theorem BatchRun.stands (h : BatchRun ms w) : Guarded Stands ms :=
  fun m hm => ⟨h.steps m hm, h.outcomes hm⟩

/-- An operation of a batch whose completion was handed over stays out. -/
theorem staysOut (hrun : Transition.Run Step w ms w') (hstands : Guarded Stands ms)
    (hnow : ∃ n, Outcomes n w) {id : ℕ} (hid : id ∈ w.ring.backend.deliveredIds) :
    StaysOut id w.ring.backend (ms.map fun m => m.after.ring.backend) := by
  -- what was handed over stays in front, and ids are different
  let Inv : World → Prop := fun u => w.delivered <+: u.delivered ∧ ∃ n, Outcomes n u
  have hstep : ∀ u e v, Step u e v → Stands u e → Inv u → Inv v := by
    rintro u e v hstep ⟨hbatch, n, hn, h⟩ ⟨hpre, -⟩
    exact ⟨hpre.trans (h.delivered_prefix hstep hbatch), _, h.step hstep hbatch hn⟩
  have hall := (hrun.always hstep hstands ⟨List.prefix_refl _, hnow⟩).2
  obtain ⟨n, hn⟩ := hnow
  refine ⟨hn.not_inFlight hid, fun backend hback => ?_⟩
  obtain ⟨m, hm, rfl⟩ := List.mem_map.mp hback
  obtain ⟨hpre, k, hk⟩ := hall m hm
  refine ⟨hk.not_inFlight (deliveredIds_subset hpre hid), fun c hc hcid => ?_⟩
  obtain ⟨rest, hrest⟩ := hpre
  have hnd := (List.nodup_append.mp hk.batches.ring.nodup).2.1
  have hrest : m.after.ring.backend.delivered = w.ring.backend.delivered ++ rest := hrest.symm
  rw [Backend.deliveredIds, hrest, List.map_append] at hnd
  rw [hrest] at hc
  refine (List.mem_append.mp hc).resolve_right fun hc => ?_
  exact List.disjoint_of_nodup_append hnd hid (List.mem_map.mpr ⟨c, hc, hcid⟩)

/-- What a batch calls cancelled was given up, and where only what was handed over is, it was
handed over. -/
theorem delivered_of_cancelled {n : ℕ} {waker : Waker} {cached : List (ℕ × IoResult)}
    {fail : Option SaferRingError} {result : BatchResult} {s : StandaloneBatchFuture} {i id : ℕ}
    (h : Outcomes n w)
    (hstep : Step w ⟨.pollBatch b waker cached fail, .batchPolled (.ready (.ok result))⟩ w')
    (hb : w.batches[b]? = some (some s)) (hg : GivenUpDelivered b w')
    (hi : result.results[i]? = some .cancelled) (hid : s.operationIds[i]? = some (some id)) :
    id ∈ w'.ring.backend.deliveredIds := by
  obtain ⟨s', answer, hb', hr, hcase⟩ := h.batches.pollBatch_concludes hstep
  obtain rfl := Option.some.inj (Option.some.inj (hb'.symm.trans hb))
  obtain rfl := Response.batchPolled.inj hr
  rcases hcase with ⟨hdone, hanswer, hback, hbatches⟩ | ⟨_, -, hanswer, -⟩ |
    ⟨-, -, -, completions, t, -, hc, hset⟩
  · obtain rfl := Except.ok.inj (Poll.ready.inj hanswer)
    rw [StandaloneBatchFuture.getElem?_collectResults ((h.settled b s' hb).done hdone)] at hi
    exact hg s' (hbatches ▸ hb) i id hi hid
  · exact absurd (Poll.ready.inj hanswer) (by simp)
  · obtain ⟨ht, rfl⟩ := hc.results
    rw [StandaloneBatchFuture.getElem?_collectResults ht] at hi
    obtain ⟨hlt, -⟩ := List.getElem?_eq_some_iff.mp hb
    have hb' : w'.batches[b]? = some (some t) := by rw [hset, List.getElem?_set_self hlt]
    exact hg t hb' i id hi (hc.follows.same.operationIds ▸ hid)

/-- **A failure that ends a batch at work calls an operation cancelled that is in flight.** -/
theorem inFlight_of_not_idle {n : ℕ} {waker : Waker} {cached : List (ℕ × IoResult)} {r : Response}
    {s : StandaloneBatchFuture} (h : Outcomes n w)
    (hstep : Step w ⟨.pollBatch b waker cached none, r⟩ w')
    (hb : w.batches[b]? = some (some s)) (hbusy : ¬EndsIdle w.ring.backend s) :
    ∃ (result : BatchResult) (i id : ℕ), r = .batchPolled (.ready (.ok result)) ∧
      result.results[i]? = some .cancelled ∧ s.operationIds[i]? = some (some id) ∧
      id ∈ w'.inFlightIds := by
  simp only [EndsIdle, not_forall, not_not] at hbusy
  obtain ⟨hopen, hfast, hfail, q, hq, i, hid, hnone⟩ := hbusy
  obtain ⟨s', answer, hb', rfl, hcase⟩ := h.batches.pollBatch_concludes hstep
  obtain rfl := Option.some.inj (Option.some.inj (hb'.symm.trans hb))
  rcases hcase with ⟨hdone, -⟩ | ⟨_, hbad, -⟩ | ⟨-, -, hback, completions, t, hmap, hc, -⟩
  · exact absurd (hopen.symm.trans hdone) (by simp)
  · exact absurd hbad (by simp)
  have hshaped := h.batches.shaped b s' hb
  have ht := hc.ends hfast ((failureIn_iff hshaped hmap).mpr hfail)
  have hanswer := hc.answer
  rw [if_pos ht] at hanswer
  have hlt : i < t.results.length := by
    obtain ⟨hlt, -⟩ := List.getElem?_eq_some_iff.mp hid
    rw [hc.follows.same.length, hshaped.length]
    exact hlt
  obtain ⟨x, hx⟩ := Option.isSome_iff_exists.mp
    (StandaloneBatchFuture.allOperationsCompleted_iff.mp ht i hlt)
  -- the result is of no completion, since the kernel is still at work on the operation
  have hcancelled : x = .cancelled := by
    rcases hc.follows.only i x hx with hold | hx | ⟨c, hc', hi, -⟩
    · exact absurd (hnone.symm.trans hold) (by simp)
    · exact hx
    · obtain ⟨d, hd, hdid, -⟩ := (mem_of_waiting hmap).2 c hc'
      have hqid : q.userData = d.1.userData := by
        have hi' := (hshaped.lookup _ i).mp hi
        rw [hdid] at hi'
        exact Option.some.inj (Option.some.inj (hid.symm.trans hi'))
      have hnd := (List.nodup_append.mp h.batches.ring.nodup).1
      rw [Backend.inFlightIds_eq, Backend.waiting_keys] at hnd
      have hwait : q.userData ∈ (w.ring.backend.ready.map Prod.fst).map Request.userData := by
        rw [hqid]
        exact List.mem_map_of_mem (List.mem_map_of_mem hd)
      exact absurd hwait (List.disjoint_of_nodup_append hnd (List.mem_map_of_mem hq))
  refine ⟨t.collectResults, i, q.userData, by rw [hanswer], ?_, hid, ?_⟩
  · rw [StandaloneBatchFuture.getElem?_collectResults ht, hx, hcancelled]
  · rw [World.inFlightIds, hback, Backend.inFlightIds, Backend.inFlight_drained]
    exact List.mem_map_of_mem hq

/-- **From any world of batches on**: what a batch calls cancelled is never executed exactly
when every poll that a failure ends finds nothing of the batch at the kernel. -/
theorem cancelledNeverExecuted_of_run (hrun : Transition.Run Step w ms w')
    (hstands : Guarded Stands ms) (hg : GivenUpDelivered b w) :
    CancelledNeverExecuted b ms ↔ Guarded (PollEndsIdle b) ms := by
  constructor
  · intro hnever m hm
    obtain ⟨ms₁, ms₂, hms, -, hstep, -⟩ := hrun.split hm
    obtain ⟨-, n, -, hn⟩ := hstands m hm
    have hsplit := hnever ms₁ m ms₂ hms
    obtain ⟨before, ⟨action, response⟩, after⟩ := m
    cases action with
    | pollBatch b' waker cached fail =>
      rcases fail with _ | err
      swap
      · trivial
      rintro rfl s hb
      by_contra hbusy
      obtain ⟨result, i, id, rfl, hi, hid, hin⟩ := inFlight_of_not_idle hn hstep hb hbusy
      exact (hsplit _ _ _ _ s i id rfl hb hi hid).1 hin
    | _ => trivial
  · rintro hidle ms₁ m ms₂ rfl waker cached fail result s i id hlabel hb hi hid
    obtain ⟨h₁, hstep, h₂⟩ := hrun.split_at
    have hm : m ∈ ms₁ ++ m :: ms₂ := by simp
    obtain ⟨hbatch, n, hlt, hn⟩ := hstands m hm
    have hkeep : ∀ u e v, Step u e v → Stands u e ∧ PollEndsIdle b u e → GivenUpDelivered b u →
        GivenUpDelivered b v :=
      fun _ _ _ hstep ⟨⟨hbatch, _, _, h⟩, hidle⟩ hg => hg.step h hstep hbatch hidle
    have hbefore : GivenUpDelivered b m.before := h₁.invariant hkeep
      (fun m' hm' => ⟨hstands m' (List.mem_append_left _ hm'),
        hidle m' (List.mem_append_left _ hm')⟩) hg
    have hafter := hkeep _ _ _ hstep ⟨hstands m hm, hidle m hm⟩ hbefore
    have hafter' := hn.step hstep hbatch hlt
    have hlater : Guarded Stands ms₂ :=
      fun m' hm' => hstands m' (List.mem_append_right _ (List.mem_cons_of_mem _ hm'))
    refine staysOut h₂ hlater ⟨_, hafter'⟩ ?_
    rw [hlabel] at hstep
    exact delivered_of_cancelled hn hstep hb hafter hi hid

/-! ### The future that holds its ring -/

section Borrowing

variable {future : BatchFuture} {e : BatchFuture.Event}
  {es : List (Move BatchFuture BatchFuture.Event)}

/-- A move of a future that holds its ring, as one of its world. -/
abbrev placedMove (w : World) (m : Move BatchFuture BatchFuture.Event) : Move World Event :=
  m.map (BatchFuture.placed w) (BatchFuture.Event.placed w.batches.length)

theorem pollEndsIdle_placed :
    PollEndsIdle w.batches.length (BatchFuture.placed w future) (e.placed w.batches.length) ↔
      future.PollEndsIdle e := by
  cases e with
  | polled waker cached fail answer =>
    rcases fail with _ | err
    · constructor
      · exact fun h => h rfl _ BatchFuture.batches_placed
      · rintro h - s hs
        obtain rfl := Option.some.inj (Option.some.inj (hs.symm.trans BatchFuture.batches_placed))
        exact h
    · exact Iff.rfl
  | completed i result => exact Iff.rfl

theorem cancelledNeverExecuted_placed :
    SaferRing.CancelledNeverExecuted w.batches.length (es.map (placedMove w)) ↔
      BatchFuture.CancelledNeverExecuted es := by
  have hlater : ∀ later : List (Move BatchFuture BatchFuture.Event),
      ((later.map (placedMove w)).map fun m => m.after.ring.backend) =
        later.map fun m => m.after.ring.backend := fun later => List.map_map
  constructor
  · rintro h es₁ m es₂ rfl waker cached fail result i id hlabel hi hid
    have hlabel' : (placedMove w m).label = ⟨.pollBatch w.batches.length waker cached fail,
        .batchPolled (.ready (.ok result))⟩ :=
      congrArg (BatchFuture.Event.placed w.batches.length) hlabel
    have hout := h (es₁.map (placedMove w)) (placedMove w m) (es₂.map (placedMove w)) (by simp)
      _ _ _ _ _ i id hlabel' BatchFuture.batches_placed hi hid
    rw [hlater] at hout
    exact hout
  · intro h ms₁ m' ms₂ hms waker cached fail result s i id hlabel hs hi hid
    obtain ⟨es₁, rest, rfl, rfl, hrest⟩ := List.map_eq_append_iff.mp hms
    obtain ⟨m, es₂, rfl, rfl, rfl⟩ := List.map_eq_cons_iff.mp hrest
    obtain rfl := Option.some.inj (Option.some.inj (hs.symm.trans BatchFuture.batches_placed))
    rw [hlater]
    obtain ⟨before, label, after⟩ := m
    cases label with
    | polled waker' cached' fail' answer =>
      obtain ⟨haction, hresponse⟩ := Event.mk.inj hlabel
      obtain ⟨-, rfl, rfl, rfl⟩ := Action.pollBatch.inj haction
      obtain rfl := Response.batchPolled.inj hresponse
      exact h es₁ _ es₂ rfl _ _ _ _ i id rfl hi hid
    | completed k res => exact absurd (Event.mk.inj hlabel).1 (by simp)

end Borrowing

/-- **What a batch calls cancelled is never executed exactly when no failure ends it while the
kernel works on an operation of it**: the standalone futures of any run of batches, and a
future that holds its ring from there on. -/
theorem cancelledNeverExecuted_iff (hrun : BatchRun ms w) :
    (∀ b, CancelledNeverExecuted b ms ↔ Guarded (PollEndsIdle b) ms) ∧
    (∀ batch future es after, BorrowingRun ms w batch future es after →
      (BatchFuture.CancelledNeverExecuted es ↔ Guarded BatchFuture.PollEndsIdle es)) := by
  refine ⟨fun b => cancelledNeverExecuted_of_run hrun.run hrun.stands fun s hs =>
    absurd hs (by simp [World.new]), fun batch future es after hrun => ?_⟩
  obtain ⟨ms', hrun'⟩ := hrun.batchRun
  have hstands : Guarded Stands (es.map (placedMove w)) :=
    fun m hm => hrun'.stands m (List.mem_append_right _ hm)
  have hnew : GivenUpDelivered w.batches.length (BatchFuture.placed w future) := by
    intro s hs i id hi
    obtain rfl := Option.some.inj (Option.some.inj (hs.symm.trans BatchFuture.batches_placed))
    obtain ⟨config, answers, ring, hsub⟩ := hrun.submitted
    rw [Ring.submitBatchWithConfig] at hsub
    split at hsub
    · exact absurd (Prod.mk.inj hsub).1 (by simp)
    · split at hsub
      · exact absurd (Prod.mk.inj hsub).1 (by simp)
      · obtain rfl := Except.ok.inj (Prod.mk.inj hsub).1
        exact absurd (StandaloneBatchFuture.resultAt_new.symm.trans hi) (by simp)
  rw [← cancelledNeverExecuted_placed,
    cancelledNeverExecuted_of_run (BatchFuture.run_placed hrun.polls) hstands hnew]
  -- guard by guard
  constructor
  · intro h m hm
    exact pollEndsIdle_placed.mp (h (placedMove w m) (List.mem_map_of_mem hm))
  · intro h m hm
    obtain ⟨m', hm', rfl⟩ := List.mem_map.mp hm
    exact pollEndsIdle_placed.mpr (h m' hm')

end Runs

/-- **The second read is called cancelled, and goes on.** -/
theorem not_cancelledNeverExecuted_firstEnds : ∃ ms w, BatchRun ms w ∧
    actionsOf ms = firstEnds ∧ w.inFlightIds = [2] ∧ ¬CancelledNeverExecuted 0 ms := by
  obtain ⟨ms₁, m, hrun, hacts, hlabel, hids, hin⟩ := exists_firstEnds
  obtain ⟨s, hs, hids⟩ := Option.map_eq_some_iff.mp hids
  refine ⟨_, _, hrun, hacts, hin, fun hnever => ?_⟩
  have hi : s.operationIds[1]? = some (some 2) := by rw [hids]; rfl
  have hmem : 2 ∈ m.after.inFlightIds := by rw [hin]; simp
  exact (hnever ms₁ m [] rfl _ _ _ _ s 1 2 hlabel (Option.join_eq_some_iff.mp hs) rfl hi).1 hmem

/-- The second read of a batch is done, and a poll of another batch takes its completion; then the
first one fails. -/
def takenByOther : List Action :=
  [.submitBatch readAfterFirst ⟨true, 256, true⟩ fun _ => .ok (),
    .submitBatch readAfterFirst ⟨true, 256, true⟩ fun _ => .ok (), .complete 1 (.ok 8),
    .pollBatch 1 9 [] none, .complete 0 (.error (.os 5)), .pollBatch 0 7 [] none]

/-- The batch an action polls, if it does. -/
def Action.polledBatch : Action → Option ℕ
  | .pollBatch b .. => some b
  | _ => none

/-- **A read that is done already is called cancelled**, and goes on no more; and what holds of a
future that holds its ring. -/
theorem cancelledNeverExecuted_takenByOther :
    (∃ ms w, BatchRun ms w ∧ actionsOf ms = takenByOther ∧
      (∃ m ∈ ms, m.label.response =
        .batchPolled (.ready (.ok ⟨[.error (.strerror 5), .cancelled], 0, 1⟩))) ∧
      CancelledNeverExecuted 0 ms) ∧
    ∃ future after, ∃ es : List (Move BatchFuture BatchFuture.Event),
      BorrowingRun [] World.new readAfterFirst future es after ∧
      es.map Move.label = firstEndsBorrowing ∧
      (BatchFuture.CancelledNeverExecuted es ↔ Guarded BatchFuture.PollEndsIdle es) := by
  constructor
  · obtain ⟨⟨ms, w⟩, htrace⟩ : ∃ x, World.new.trace takenByOther = some x :=
      Option.isSome_iff_exists.mp (by decide)
    obtain ⟨hrun, hacts⟩ := run_of_trace htrace
    have hlast : (World.new.trace takenByOther).map (fun x =>
        x.1.getLast?.map fun m => m.label.response) = some (some (.batchPolled
          (.ready (.ok ⟨[.error (.strerror 5), .cancelled], 0, 1⟩)))) := rfl
    have hidle : (World.new.trace takenByOther).map (fun x => x.1.all fun m =>
        m.label.action.polledBatch != some 0 || m.before.ring.backend.pending.all fun r =>
          (m.before.batches[0]?).join.all fun s =>
            !s.operationIds.contains (some r.userData)) = some true := by
      decide
    rw [htrace] at hlast hidle
    obtain ⟨m, hm, hresponse⟩ := Option.map_eq_some_iff.mp (Option.some.inj hlast)
    have hidle := List.all_eq_true.mp (Option.some.inj hidle)
    have hbatch : BatchRun ms w := by
      refine ⟨hrun, ?_, ?_⟩
      · refine guarded_of_actions (p := fun a => BatchSteps World.new ⟨a, .done⟩)
          (fun _ _ h => h) ?_
        rw [hacts]
        simp [takenByOther, BatchSteps]
      · rw [spent_submissionsOf, hacts]
        decide
    refine ⟨ms, w, hbatch, hacts, ⟨m, List.mem_of_getLast? hm, hresponse⟩,
      ((cancelledNeverExecuted_iff hbatch).1 0).mpr fun m hm => ?_⟩
    have hnone := hidle m hm
    obtain ⟨before, ⟨action, response⟩, after⟩ := m
    cases action with
    | pollBatch b waker cached fail =>
      rcases fail with _ | err
      swap
      · trivial
      -- what is pending is none of the batch's own
      rintro rfl s hs - - - r hr i hi
      have hs : before.batches[0]? = some (some s) := hs
      have hall := ((Bool.or_eq_true _ _).mp hnone).resolve_left (by simp [Action.polledBatch])
      have hnot := List.all_eq_true.mp hall r hr
      rw [hs] at hnot
      have hmem : some r.userData ∈ s.operationIds := List.mem_of_getElem? hi
      simp [hmem] at hnot
    | _ => trivial
  · obtain ⟨future, after, es, hrun, hlabels⟩ := exists_firstEndsBorrowing
    exact ⟨future, after, es, hrun, hlabels,
      (cancelledNeverExecuted_iff hrun.before).2 _ _ _ _ hrun⟩

end SaferRing
