import SaferRing.Batch.Isolation
import SaferRing.Batch.Order

/-!
# What a batch answers

A poll that the backend answers ends in one of two ways
(`SaferRing.StandaloneBatchFuture.Concludes`): every position has a result, and the batch
answers with them; or some have none, and it goes on waiting. Operations are given up in one
case only, when one failure ends the batch and a completion recorded is one.

Of an operation that is not given up, the result a batch answers with is that of its
completion (`SaferRing.Batches.answers`).
-/

namespace SaferRing

open Transition (Move)

namespace StandaloneBatchFuture

variable {s t : StandaloneBatchFuture} {p : Progress} {c : CompletionResult}
variable {completions : List CompletionResult} {i : ℕ}

/-! ### Failures -/

/-- A completion is a failure of an operation of the batch that has no result. -/
def FailureIn (s : StandaloneBatchFuture) (c : CompletionResult) : Prop :=
  ∃ i, s.idToIndex.lookup c.operationId = some i ∧ s.resultAt i = none ∧
    (OperationResult.ofCompletion c.result).isError = true

/-- What recording a completion says about failures. -/
theorem anyFailed_recordCompletion :
    (recordCompletion p c).anyFailed = true ↔ p.anyFailed = true ∨ FailureIn p.future c := by
  rw [FailureIn, recordCompletion]
  rcases p.future.idToIndex.lookup c.operationId with _ | index
  · simp
  · rcases hres : p.future.resultAt index with _ | x
    · simp [hres]
    · simp [hres]

/-- **A poll has seen a failure** when one is among the completions. -/
theorem anyFailed_seen (hs : Indexed s)
    (hnd : (completions.map CompletionResult.operationId).Nodup) :
    (s.seen completions).anyFailed = true ↔ ∃ c ∈ completions, FailureIn s c := by
  have hfold : ∀ (completions : List CompletionResult) (p : Progress), Indexed p.future →
      (completions.map CompletionResult.operationId).Nodup →
      ((completions.foldl recordCompletion p).anyFailed = true ↔
        p.anyFailed = true ∨ ∃ c ∈ completions, FailureIn p.future c) := by
    intro completions
    induction completions with
    | nil => simp
    | cons c rest ih =>
      intro p hp hnd
      obtain ⟨hc, hrest⟩ := List.nodup_cons.mp hnd
      have hfuture : Indexed (recordCompletion p c).future ∧ ∀ d ∈ rest,
          (FailureIn (recordCompletion p c).future d ↔ FailureIn p.future d) := by
        rcases recordCompletion_cases (c := c) hp with ⟨k, hid, -, hsame, hres⟩ | ⟨heq, -⟩
        · refine ⟨hsame.indexed hp, fun d hd => ?_⟩
          rw [FailureIn, FailureIn, hsame.idToIndex]
          refine exists_congr fun j => and_congr_right fun hj => ?_
          -- another completion is of another operation, at another position
          have hne : j ≠ k := by
            rintro rfl
            have hids : d.operationId = c.operationId := hp.inj hj hid
            exact hc (List.mem_map.mpr ⟨d, hd, hids⟩)
          rw [hres, if_neg hne]
        · exact ⟨heq ▸ hp, fun d _ => by rw [heq]⟩
      rw [List.foldl_cons, ih _ hfuture.1 hrest, anyFailed_recordCompletion, or_assoc,
        List.exists_mem_cons_iff]
      refine or_congr_right (or_congr_right (exists_congr fun d => and_congr_right fun hd => ?_))
      exact hfuture.2 d hd
  exact (hfold completions ⟨s, false, false, []⟩ hs hnd).trans (by simp)

/-- Recording gives nothing up. -/
theorem resultAt_seen (hs : Indexed s) :
    (s.seen completions).future.resultAt i = some .cancelled → s.resultAt i = some .cancelled := by
  refine seen_induction (P := fun p => p.future.resultAt i = some .cancelled →
    s.resultAt i = some .cancelled) hs id fun p c hp hkeep hi => hkeep ?_
  rcases recordCompletion_cases (c := c) hp with ⟨k, -, -, -, hres⟩ | ⟨heq, -⟩
  · rw [hres] at hi
    split at hi
    · rcases hc : c.result with bytes | e
      · simp [hc, OperationResult.ofCompletion] at hi
      · simp [hc, OperationResult.ofCompletion] at hi
    · exact hi
  · rwa [heq] at hi

/-- **Unless a failure was seen, what completed has results** that are no errors. -/
def Progress.Clean (p : Progress) : Prop :=
  p.anyFailed = false → ∀ i ∈ p.completedOperations,
    ∃ x, p.future.resultAt i = some x ∧ x.isError = false

/-- Recording a completion keeps it so. -/
theorem clean_recordCompletion (hp : Indexed p.future) (hclean : p.Clean) :
    (recordCompletion p c).Clean := by
  rcases recordCompletion_cases (c := c) hp with ⟨k, hid, hnone, -, hres⟩ | ⟨-, hsome⟩
  · have hcompleted : (recordCompletion p c).completedOperations = p.completedOperations ++ [k] ∧
        (recordCompletion p c).anyFailed =
          (p.anyFailed || (OperationResult.ofCompletion c.result).isError) := by
      simp only [recordCompletion, hid, hnone, Option.isSome_none, Bool.false_eq_true, if_false,
        and_self]
    intro hany i hi
    rw [hcompleted.2, Bool.or_eq_false_iff] at hany
    rw [hcompleted.1, List.mem_append, List.mem_singleton] at hi
    rw [hres]
    by_cases hik : i = k
    · exact ⟨_, if_pos hik, hany.2⟩
    · rw [if_neg hik]
      exact hclean hany.1 i (hi.resolve_right hik)
  · have hsame : recordCompletion p c = p := by
      rw [recordCompletion]
      split
      · rfl
      · rename_i k hk
        rw [if_pos (hsome k hk)]
    rwa [hsame]

/-- A poll keeps it so. -/
theorem clean_seen (hs : Indexed s) : (s.seen completions).Clean :=
  seen_induction hs (fun _ i hi => absurd hi (by simp)) fun _ _ => clean_recordCompletion

/-- **Where nothing failed nothing is given up**: the operations that completed have results
that are no errors. -/
theorem advanced_eq (hs : Indexed s)
    (h : (s.failFast && (s.seen completions).anyFailed) = false) :
    s.advanced completions = (s.seen completions).future := by
  refine List.foldlRecOn (motive := fun u => u = (s.seen completions).future) _ _ rfl
    fun u hu i hi => ?_
  subst hu
  have hfast : (s.seen completions).future.failFast = s.failFast := (sameBatch_seen hs).failFast
  have hno : ((s.seen completions).future.failFast &&
      (((s.seen completions).future.resultAt i).map OperationResult.isError).getD false) =
        false := by
    rw [hfast]
    rcases hff : s.failFast with _ | _
    · rfl
    · rw [hff, Bool.true_and] at h
      obtain ⟨x, hx, herr⟩ := clean_seen hs h i hi
      rw [hx]
      exact herr
  simp only [settleCompleted, checkReadyOperations, hno, Bool.false_eq_true, if_false]

/-! ### The answer of a poll -/

/-- **How a poll ends** that was handed completions: its batch follows from them; it answers
with the results when every position has one, and else waits; operations are given up only
when one failure ends the batch and there is one, and then all that are left are. -/
structure Concludes (s : StandaloneBatchFuture) (completions : List CompletionResult)
    (t : StandaloneBatchFuture) (answer : Poll (Except SaferRingError BatchResult)) : Prop where
  follows : Follows s completions t
  dependencies : t.dependencies = s.dependencies
  answer : answer = if t.allOperationsCompleted then .ready (.ok t.collectResults) else .pending
  done : t.completed = true → t.allOperationsCompleted = true
  cancels : ∀ i, t.resultAt i = some .cancelled → s.resultAt i = some .cancelled ∨
    s.failFast = true ∧ ∃ c ∈ completions, FailureIn s c
  ends : s.failFast = true → (∃ c ∈ completions, FailureIn s c) → t.allOperationsCompleted = true

/-- A poll that answers with results has one for every position. -/
theorem Concludes.results {result : BatchResult}
    (h : Concludes s completions t (.ready (.ok result))) :
    t.allOperationsCompleted = true ∧ result = t.collectResults := by
  have hanswer := h.answer
  by_cases ht : t.allOperationsCompleted = true
  · rw [if_pos ht] at hanswer
    exact ⟨ht, Except.ok.inj (Poll.ready.inj hanswer)⟩
  · rw [if_neg ht] at hanswer
    exact absurd hanswer (by simp)

/-- The dependencies stay what they are, and a batch is not done before it answers. -/
theorem advanced_frame : (s.advanced completions).dependencies = s.dependencies ∧
    (s.advanced completions).completed = s.completed := by
  have hseen : (s.seen completions).future.dependencies = s.dependencies ∧
      (s.seen completions).future.completed = s.completed := by
    refine List.foldlRecOn (motive := fun p : Progress => p.future.dependencies = s.dependencies ∧
      p.future.completed = s.completed) completions recordCompletion (And.intro rfl rfl)
      fun p hp c _ => ?_
    rw [recordCompletion]
    split
    · exact hp
    · split <;> exact hp
  refine List.foldlRecOn (motive := fun u => u.dependencies = s.dependencies ∧
    u.completed = s.completed) _ settleCompleted hseen fun u hu i _ => ?_
  rw [settleCompleted]
  split <;> exact hu

/-- After giving up all that is left every position has a result. -/
theorem allOperationsCompleted_cancelAll :
    s.cancelAllRemainingOperations.allOperationsCompleted = true := by
  rw [allOperationsCompleted, List.all_eq_true]
  intro x hx
  obtain ⟨r, -, rfl⟩ := List.mem_map.mp hx
  rfl

/-- **How a poll ends** once `try_complete` returned completions of different operations. -/
theorem pollWithRing_concludes {ring ring' ring'' : Ring} {waker : Waker}
    {cached : List (ℕ × IoResult)} {fail : Option SaferRingError}
    {answer : Poll (Except SaferRingError BatchResult)} (hs : Shaped s)
    (hopen : s.completed = false)
    (hnd : (completions.map CompletionResult.operationId).Nodup)
    (hcall : ring.tryComplete cached fail = .returned (.ok completions, ring'))
    (hpoll : s.pollWithRing ring waker cached fail = .returned (answer, t, ring'')) :
    Concludes s completions t answer := by
  have hseen : Follows s completions (s.seen completions).future :=
    follows_foldl (p := ⟨s, false, false, []⟩) hs hnd
  have hadv : Follows s completions (s.advanced completions) :=
    hseen.cancels (.foldl_settleCompleted _ _)
  have hfast : (s.advanced completions).failFast = s.failFast := hadv.same.failFast
  have hfailed := anyFailed_seen hs.indexed hnd
  obtain ⟨hdeps, hdone⟩ := @advanced_frame s completions
  -- where there is no failure that ends the batch, it is left as it was recorded
  have hcancels : ∀ i, (s.advanced completions).resultAt i = some .cancelled →
      s.resultAt i = some .cancelled ∨ s.failFast = true ∧ ∃ c ∈ completions, FailureIn s c := by
    intro i hi
    by_cases hends : s.failFast = true ∧ ∃ c ∈ completions, FailureIn s c
    · exact Or.inr hends
    · rw [advanced_eq hs.indexed] at hi
      · exact Or.inl (resultAt_seen hs.indexed hi)
      · rw [Bool.eq_false_iff, ne_eq, Bool.and_eq_true, hfailed]
        exact hends
  by_cases hends : s.failFast = true ∧ ∃ c ∈ completions, FailureIn s c
  · rw [pollWithRing_ok waker hopen hcall, hfast, hends.1, hfailed.mpr hends.2] at hpoll
    cases hpoll
    exact ⟨hadv.cancels (.cancelAllRemainingOperations _), hdeps,
      (if_pos allOperationsCompleted_cancelAll).symm, fun _ => allOperationsCompleted_cancelAll,
      fun _ _ => Or.inr hends, fun _ _ => allOperationsCompleted_cancelAll⟩
  rcases pollWithRing_cases waker hopen hcall with
    ⟨e, he, -⟩ | ⟨_, hc, ⟨hff, haf, -⟩ | ⟨hall, hcase⟩ | ⟨hnot, wakerRegistry, hcase⟩⟩
  · exact absurd he (by simp)
  · obtain rfl := Except.ok.inj hc
    exact absurd ⟨hfast.symm.trans hff, hfailed.mp haf⟩ hends
  · obtain rfl := Except.ok.inj hc
    rw [hcase] at hpoll
    cases hpoll
    exact ⟨hadv.cancels ⟨⟨rfl, rfl, rfl, rfl⟩, fun _ => Or.inl rfl⟩, hdeps, (if_pos hall).symm,
      fun _ => hall, hcancels, fun _ _ => hall⟩
  · obtain rfl := Except.ok.inj hc
    rw [hcase] at hpoll
    cases hpoll
    refine ⟨hadv, hdeps, ?_, fun hc => ?_, hcancels, fun hff hc => absurd ⟨hff, hc⟩ hends⟩
    · rw [hnot]
      rfl
    · exact absurd (hdone.symm.trans hc) (by simp [hopen])

end StandaloneBatchFuture

/-! ### What holds of the future of a batch -/

namespace Ring

variable {answers : ℕ → Except SaferRingError Unit} {batch : Batch} {config : BatchConfig}

/-- **The dependencies kept of a batch** are those of the operations it has. -/
theorem lookup_keptDependencies (batch : Batch) (i : ℕ) :
    (keptDependencies batch).lookup i =
      if i < batch.len then batch.dependencies.lookup i else none := by
  rw [keptDependencies]
  -- induction on how many operations were gone through
  induction batch.len with
  | zero => rfl
  | succ n ih =>
    rw [List.range_succ, List.foldl_append, List.foldl_cons, List.foldl_nil]
    have hlt : i < n + 1 ↔ i < n ∨ i = n := Nat.lt_succ_iff_lt_or_eq
    rcases hdeps : batch.dependencies.lookup n with _ | dependencies
    all_goals
      by_cases hi : i = n
    · rw [if_pos (hlt.mpr (Or.inr hi)), hi, hdeps]
      rw [hi, if_neg (Nat.lt_irrefl n)] at ih
      exact ih
    · refine ih.trans ?_
      exact if_congr ⟨fun h => hlt.mpr (Or.inl h), fun h => (hlt.mp h).resolve_right hi⟩ rfl rfl
    · rw [if_pos (hlt.mpr (Or.inr hi)), hi, hdeps]
      exact AList.lookup_insert _
    · refine (AList.lookup_insert_ne hi).trans (ih.trans ?_)
      exact if_congr ⟨fun h => hlt.mpr (Or.inl h), fun h => (hlt.mp h).resolve_right hi⟩ rfl rfl

/-- A batch that is submitted has one id for each operation. -/
theorem length_of_submitAll {ring ring' : Ring} {index : ℕ} {operations : List (Operation Building)}
    {ids : List ℕ} (h : submitAll answers ring index operations = (.ok ids, ring')) :
    ids.length = operations.length := by
  induction operations generalizing ring ring' index ids with
  | nil =>
    obtain ⟨hids, -⟩ := Prod.mk.inj h
    rw [← Except.ok.inj hids]
    rfl
  | cons operation rest ih =>
    rw [submitAll] at h
    split at h
    · exact absurd (Prod.mk.inj h).1 (by simp)
    · split at h
      · exact absurd (Prod.mk.inj h).1 (by simp)
      · rename_i ids' ring'' hrest
        obtain ⟨hids, -⟩ := Prod.mk.inj h
        rw [← Except.ok.inj hids, List.length_cons, List.length_cons, ih hrest]

end Ring

namespace StandaloneBatchFuture

variable {s t : StandaloneBatchFuture} {completions : List CompletionResult}
variable {answer : Poll (Except SaferRingError BatchResult)} {i : ℕ}

/-- **A future as it comes to be**: it is done when every position has a result; it gives
nothing up unless one failure ends the batch; and its operations depend on something only
where there are operations. -/
structure Settled (s : StandaloneBatchFuture) : Prop where
  done : s.completed = true → s.allOperationsCompleted = true
  patient : s.failFast = false → ∀ i, s.resultAt i ≠ some .cancelled
  graph : ∀ i j, DependsOn s.dependencies i j → i < s.results.length

/-- The future of a batch that is submitted. -/
theorem settled_new {batch : Batch} {ids : List ℕ} (hlen : ids.length = batch.len)
    (failFast : Bool) :
    Settled (.new (ids.map some) (Ring.keptDependencies batch) failFast) := by
  refine ⟨fun h => absurd h (by simp [new]), fun _ i => ?_, fun i j hij => ?_⟩
  · rw [resultAt_new]
    simp
  · have hlook : DependsOn (Ring.keptDependencies batch) i j := hij
    rw [DependsOn, dependenciesOf, Ring.lookup_keptDependencies] at hlook
    by_cases hi : i < batch.len
    · rw [new, List.length_map, List.length_map, hlen]
      exact hi
    · rw [if_neg hi] at hlook
      exact absurd hlook (by simp)

/-- A poll leaves a future settled. -/
theorem Settled.concludes (h : Settled s) (hc : Concludes s completions t answer) : Settled t := by
  refine ⟨hc.done, fun hpatient i hi => ?_, fun i j hij => ?_⟩
  · have hs : s.failFast = false := hc.follows.same.failFast ▸ hpatient
    rcases hc.cancels i hi with hi | ⟨hff, -⟩
    · exact h.patient hs i hi
    · exact absurd (hs.symm.trans hff) (by simp)
  · rw [hc.dependencies] at hij
    rw [hc.follows.same.length]
    exact h.graph i j hij

/-- **What a batch answers with**, once every position has a result. -/
theorem getElem?_collectResults (h : s.allOperationsCompleted = true) (i : ℕ) :
    s.collectResults.results[i]? = s.resultAt i := by
  have hall := allOperationsCompleted_iff.mp h i
  rw [collectResults, BatchResult.new, List.getElem?_map, resultAt]
  rw [resultAt] at hall
  rcases hr : s.results[i]? with _ | r
  · rfl
  · obtain ⟨hlt, -⟩ := List.getElem?_eq_some_iff.mp hr
    rw [hr] at hall
    obtain ⟨x, rfl⟩ := Option.isSome_iff_exists.mp (hall hlt)
    rfl

end StandaloneBatchFuture

/-! ### In a world of batches -/

section Worlds

variable {w w' : World} {e : Event} {n b : ℕ} {r : Response} {waker : Waker}
variable {cached : List (ℕ × IoResult)} {fail : Option SaferRingError}

/-- **A step of a poll, with its answer**: of a batch that is done, its results; an error of the
backend; or what becomes of everything that waits. -/
theorem Batches.pollBatch_concludes (h : Batches n w)
    (hstep : Step w ⟨.pollBatch b waker cached fail, r⟩ w') :
    ∃ s answer, w.batches[b]? = some (some s) ∧ r = .batchPolled answer ∧
      (s.completed = true ∧ answer = .ready (.ok s.collectResults) ∧
          w'.ring.backend = w.ring.backend ∧ w'.batches = w.batches ∨
        (∃ e, fail = some e ∧ answer = .ready (.error e) ∧
          w'.ring.backend = w.ring.backend ∧ w'.batches = w.batches) ∨
        s.completed = false ∧ fail = none ∧ w'.ring.backend = w.ring.backend.drained ∧
          ∃ completions t,
            completions.map (fun c => (c.operationId, c.result)) = w.ring.backend.waiting ∧
            s.Concludes completions t answer ∧ w'.batches = w.batches.set b (some t)) := by
  obtain ⟨hperm, s, answer, t, ring, hb, hcall, rfl, rfl⟩ := hstep.pollBatch
  rw [h.ring.cachedCompletions, List.perm_nil] at hperm
  obtain rfl := hperm
  have hsame : w.batches.set b (some s) = w.batches := set_eq_self hb
  refine ⟨s, answer, hb, rfl, ?_⟩
  rcases hdone : s.completed with _ | _
  swap
  · rw [StandaloneBatchFuture.pollWithRing_completed hdone] at hcall
    cases hcall
    exact Or.inl ⟨rfl, rfl, rfl, hsame⟩
  rcases fail with _ | e
  swap
  · rw [StandaloneBatchFuture.pollWithRing_error hdone] at hcall
    cases hcall
    exact Or.inr (Or.inl ⟨e, rfl, rfl, rfl, hsame⟩)
  obtain ⟨completions, ring', htry, hmap, hback, -⟩ := h.ring.tryComplete
  have hnd := h.ring.nodup_completions hmap
  have hback' : ring.backend = w.ring.backend.drained := by
    rcases StandaloneBatchFuture.pollWithRing_cases waker hdone htry with
      ⟨_, he, -⟩ | ⟨_, -, ⟨-, -, hcase⟩ | ⟨-, hcase⟩ | ⟨-, _, hcase⟩⟩
    · exact absurd he (by simp)
    all_goals
      rw [hcase] at hcall
      cases hcall
      exact hback
  exact Or.inr (Or.inr ⟨rfl, rfl, hback', completions, t, hmap,
    StandaloneBatchFuture.pollWithRing_concludes (h.shaped b s hb) hdone hnd htry hcall, rfl⟩)

/-- **The batches of a world, with futures as they come to be.** -/
structure Outcomes (n : ℕ) (w : World) : Prop where
  batches : Batches n w
  settled : ∀ (b : ℕ) s, w.batches[b]? = some (some s) → s.Settled

theorem Outcomes.new : Outcomes 0 World.new :=
  ⟨Batches.new, fun b s h => absurd h (by simp [World.new])⟩

/-- **A step keeps the futures of batches settled.** -/
theorem Outcomes.step (h : Outcomes n w) (hstep : Step w e w') (hbatch : BatchSteps w e)
    (hn : n + submissionsOf e < 2 ^ 64) : Outcomes (n + submissionsOf e) w' := by
  refine ⟨h.batches.step hstep hbatch hn, ?_⟩
  obtain ⟨action, response⟩ := e
  cases action with
  | submit operation answer =>
    obtain ⟨-, rfl⟩ := Prod.mk.inj (Option.some.inj hstep)
    exact h.settled
  | submitBatch batch config answers =>
    obtain ⟨result, ring, hcall, ⟨_, -, rfl⟩ | ⟨future, rfl, rfl⟩⟩ := hstep.submitBatch
    · exact h.settled
    intro b s hb
    rcases batch_of_append hb with hb | ⟨-, rfl⟩
    · exact h.settled b s hb
    rw [Ring.submitBatchStandaloneWithConfig] at hcall
    split at hcall
    · exact absurd (Prod.mk.inj hcall).1 (by simp)
    · split at hcall
      · exact absurd (Prod.mk.inj hcall).1 (by simp)
      · rename_i ids _ hall
        obtain rfl := Except.ok.inj (Prod.mk.inj hcall).1
        exact StandaloneBatchFuture.settled_new (Ring.length_of_submitAll hall) _
  | pollBatch b waker cached fail =>
    obtain ⟨s, answer, hb, -, ⟨-, -, -, hsame⟩ | ⟨_, -, -, -, hsame⟩ |
      ⟨-, -, -, _, t, -, hc, hset⟩⟩ := h.batches.pollBatch_concludes hstep
    · exact hsame ▸ h.settled
    · exact hsame ▸ h.settled
    · intro b' f hf
      rw [hset] at hf
      rcases batch_of_set hb hf with ⟨-, rfl⟩ | ⟨-, hf⟩
      · exact (h.settled b s hb).concludes hc
      · exact h.settled b' f hf
  | complete i result =>
    obtain ⟨backend, hb, rfl⟩ := hstep.complete
    exact h.settled
  | _ => exact absurd hbatch (by simp [BatchSteps])

/-- **An operation of a batch was executed, with a result**: it is recorded, or its completion
waits to be. -/
def Executed (backend : Backend) (s : StandaloneBatchFuture) (i : ℕ) (out : OperationResult) :
    Prop :=
  s.resultAt i = some out ∨ s.resultAt i = none ∧ ∃ c ∈ backend.ready,
    s.operationIds[i]? = some (some c.1.userData) ∧ out = .ofCompletion c.2

/-- **What a batch answers with is what its operations were executed with**, short of those
given up. -/
theorem Outcomes.answers (h : Outcomes n w) {result : BatchResult}
    (hstep : Step w ⟨.pollBatch b waker cached fail, .batchPolled (.ready (.ok result))⟩ w') :
    ∃ s, w.batches[b]? = some (some s) ∧
      (∀ i < s.results.length, ∃ out, result.results[i]? = some out) ∧
      ∀ i out, out ≠ .cancelled →
        (result.results[i]? = some out ↔ Executed w.ring.backend s i out) := by
  obtain ⟨s, answer, hb, hr, hcase⟩ := h.batches.pollBatch_concludes hstep
  obtain rfl := Response.batchPolled.inj hr
  have hall : ∀ {u : StandaloneBatchFuture}, u.allOperationsCompleted = true →
      ∀ i < u.results.length, ∃ out, u.collectResults.results[i]? = some out := by
    intro u hu i hi
    rw [StandaloneBatchFuture.getElem?_collectResults hu]
    exact Option.isSome_iff_exists.mp
      (StandaloneBatchFuture.allOperationsCompleted_iff.mp hu i hi)
  refine ⟨s, hb, ?_⟩
  rcases hcase with ⟨hdone, hanswer, -, -⟩ | ⟨_, -, hanswer, -⟩ |
    ⟨-, -, -, completions, t, hmap, hc, -⟩
  -- the batch was done: every position had a result
  · obtain rfl := Except.ok.inj (Poll.ready.inj hanswer)
    have hs := (h.settled b s hb).done hdone
    refine ⟨hall hs, fun i out _ => ?_⟩
    rw [StandaloneBatchFuture.getElem?_collectResults hs, Executed]
    refine ⟨Or.inl, fun hx => hx.elim id ?_⟩
    rintro ⟨hnone, c, -, hi, -⟩
    obtain ⟨hlt, -⟩ := List.getElem?_eq_some_iff.mp hi
    have hsome := StandaloneBatchFuture.allOperationsCompleted_iff.mp hs i
      ((h.batches.shaped b s hb).length ▸ hlt)
    simp [hnone] at hsome
  · exact absurd (Poll.ready.inj hanswer) (by simp)
  · obtain ⟨ht, rfl⟩ := hc.results
    have hfollows := hc.follows
    refine ⟨hfollows.same.length ▸ hall ht, fun i out hout => ?_⟩
    rw [StandaloneBatchFuture.getElem?_collectResults ht, Executed]
    have hlook : ∀ {id}, s.operationIds[i]? = some (some id) ↔ s.idToIndex.lookup id = some i :=
      fun {id} => ((h.batches.shaped b s hb).lookup id i).symm
    constructor
    · intro hx
      rcases hs : s.resultAt i with _ | y
      · rcases hfollows.only i out hx with hx | hx | ⟨c, hc', hi, rfl⟩
        · exact absurd (hs.symm.trans hx) (by simp)
        · exact absurd hx hout
        · obtain ⟨d, hd, hid, hres⟩ := (mem_of_waiting hmap).2 c hc'
          exact Or.inr ⟨rfl, d, hd, hlook.mpr (hid ▸ hi), congrArg _ hres⟩
      · exact Or.inl ((hfollows.keep i y hs).symm.trans hx)
    · rintro (hx | ⟨hnone, d, hd, hi, rfl⟩)
      · exact hfollows.keep i out hx
      · obtain ⟨c, hc', hid, hres⟩ := (mem_of_waiting hmap).1 d hd
        rw [← hres]
        exact hfollows.take c hc' i (hid ▸ hlook.mp hi) hnone

end Worlds

/-! ### Runs -/

/-- **A run of batches**, and of legacy operations beside them, with fewer than 2^64
submissions. -/
structure BatchRun (ms : List (Move World Event)) (w : World) : Prop where
  run : Run ms w
  steps : Transition.Guarded BatchSteps ms
  few : Transition.spent submissionsOf ms < 2 ^ 64

/-- Where every move of a run of batches stands. -/
theorem BatchRun.outcomes {ms : List (Move World Event)} {w : World} (h : BatchRun ms w)
    {m : Move World Event} (hm : m ∈ ms) :
    ∃ n, n + submissionsOf m.label < 2 ^ 64 ∧ Outcomes n m.before :=
  h.run.counted_mem (fun _ _ _ _ hstep hbatch hn h => h.step hstep hbatch hn) h.steps h.few
    Outcomes.new hm

/-- **A run of the future of a batch that holds its ring**, after a run of batches on that
ring. -/
structure BorrowingRun (ms : List (Move World Event)) (w : World) (batch : Batch)
    (future : BatchFuture) (es : List (Move BatchFuture BatchFuture.Event)) (after : BatchFuture) :
    Prop where
  before : BatchRun ms w
  few : Transition.spent submissionsOf ms + batch.len < 2 ^ 64
  submitted : ∃ config answers ring,
    w.ring.submitBatchWithConfig batch config answers = (.ok future, ring)
  polls : Transition.Run BatchFuture.Step future es after

/-- **The world goes on with the polls of a future that holds its ring.** -/
theorem BorrowingRun.batchRun {ms : List (Move World Event)} {w : World} {batch : Batch}
    {future after : BatchFuture} {es : List (Move BatchFuture BatchFuture.Event)}
    (h : BorrowingRun ms w batch future es after) :
    ∃ ms', BatchRun (ms' ++ es.map
        (Move.map (BatchFuture.placed w) (BatchFuture.Event.placed w.batches.length)))
      (BatchFuture.placed w after) := by
  obtain ⟨config, answers, ring, hsub⟩ := h.submitted
  have hstep := BatchFuture.step_submit hsub
  have hevents : ∀ e : BatchFuture.Event,
      BatchSteps w (e.placed w.batches.length) ∧ submissionsOf (e.placed w.batches.length) = 0 := by
    intro e
    cases e <;> exact ⟨trivial, rfl⟩
  refine ⟨ms ++ [⟨w, _, BatchFuture.placed w future⟩],
    (h.before.run.snoc hstep).append (BatchFuture.run_placed h.polls), fun m hm => ?_, ?_⟩
  · have hfirst : BatchSteps w ⟨.submitBatch batch config answers,
        .batch (.ok w.batches.length)⟩ := trivial
    rcases List.mem_append.mp hm with hm | hm
    · exact Transition.guarded_snoc.mpr ⟨h.before.steps, hfirst⟩ m hm
    · obtain ⟨e, -, rfl⟩ := List.mem_map.mp hm
      exact (hevents e.label).1
  · have hzero : Transition.spent submissionsOf (es.map
        (Move.map (BatchFuture.placed w) (BatchFuture.Event.placed w.batches.length))) = 0 := by
      rw [Transition.spent, List.map_map]
      refine List.sum_eq_zero fun k hk => ?_
      obtain ⟨e, -, rfl⟩ := List.mem_map.mp hk
      exact (hevents e.label).2
    rw [Transition.spent_append, hzero, Transition.spent_snoc]
    exact h.few

end SaferRing
