import SaferRing.Batch.Outcome

/-!
# When a dependency fails

An operation whose dependency fails “will be cancelled”, says `add_dependency`. The operations
of a batch are submitted all at once, though, and nothing keeps one from being executed before
or after what it depends on fails. `SaferRing.failureLaw_iff` is that **a batch answers by the
law exactly when no operation was executed that depends on one that failed**: whether one
failure ends the batch or not, for any dependencies and any order of completions.
-/

namespace SaferRing

open Relation (TransGen)
open Transition (Move)

/-- **The law of failure**: of an operation that failed, whatever depends on it, directly or
not, is given up. -/
def FailureLaw (dependencies : HashMap (List ℕ)) (result : BatchResult) : Prop :=
  ∀ i j message, TransGen (DependsOn dependencies) i j →
    result.results[j]? = some (.error message) → result.results[i]? = some .cancelled

/-- **No operation was executed that depends on one that failed.** -/
def NoneOutran (backend : Backend) (s : StandaloneBatchFuture) : Prop :=
  ∀ i j message, TransGen (DependsOn s.dependencies) i j →
    Executed backend s j (.error message) →
    ∀ out, out ≠ .cancelled → ¬Executed backend s i out

/-- An answer obeys the law when the executions it tells of do. -/
theorem Outcomes.answer_iff {w w' : World} {n b : ℕ} {waker : Waker}
    {cached : List (ℕ × IoResult)} {fail : Option SaferRingError} {result : BatchResult}
    (h : Outcomes n w)
    (hstep : Step w ⟨.pollBatch b waker cached fail, .batchPolled (.ready (.ok result))⟩ w') :
    ∃ s, w.batches[b]? = some (some s) ∧
      (FailureLaw s.dependencies result ↔ NoneOutran w.ring.backend s) := by
  obtain ⟨s, hb, hall, hexec⟩ := h.answers hstep
  have herror : ∀ {j message}, result.results[j]? = some (.error message) ↔
      Executed w.ring.backend s j (.error message) := fun {j message} => hexec j _ (by simp)
  refine ⟨s, hb, fun hlaw i j message hij hj out hout hi => ?_, fun hnone i j message hij hj => ?_⟩
  · have hcancelled := hlaw i j message hij (herror.mpr hj)
    exact hout (Option.some.inj (((hexec i out hout).mpr hi).symm.trans hcancelled))
  · -- what depends on something has a position, and a result that is of no execution
    obtain ⟨k, hik, -⟩ := TransGen.head'_iff.mp hij
    obtain ⟨out, hout⟩ := hall i ((h.settled b s hb).graph i k hik)
    by_cases hc : out = .cancelled
    · rw [hout, hc]
    · exact absurd ((hexec i out hc).mp hout) (hnone i j message hij (herror.mp hj) out hc)

section Runs

variable {ms : List (Move World Event)} {w : World}

/-- A batch of a run answers by the law of failure exactly when no operation of it outran a
failure. -/
theorem BatchRun.answer_iff (hrun : BatchRun ms w) {m : Move World Event} (hm : m ∈ ms) {b : ℕ}
    {waker : Waker} {cached : List (ℕ × IoResult)} {fail : Option SaferRingError}
    {result : BatchResult}
    (hlabel : m.label = ⟨.pollBatch b waker cached fail, .batchPolled (.ready (.ok result))⟩) :
    ∃ s, m.before.batches[b]? = some (some s) ∧
      (FailureLaw s.dependencies result ↔ NoneOutran m.before.ring.backend s) := by
  obtain ⟨n, -, hn⟩ := hrun.outcomes hm
  have hstep := hrun.run.step_of_mem hm
  rw [hlabel] at hstep
  exact hn.answer_iff hstep

/-- **A batch answers by the law of failure exactly when no operation of it was executed that
depends on one that failed**: the standalone futures of any run of batches, and a future that
holds its ring from there on. -/
theorem failureLaw_iff (hrun : BatchRun ms w) :
    (∀ m ∈ ms, ∀ b waker cached fail result,
      m.label = ⟨.pollBatch b waker cached fail, .batchPolled (.ready (.ok result))⟩ →
      ∃ s, m.before.batches[b]? = some (some s) ∧
        (FailureLaw s.dependencies result ↔ NoneOutran m.before.ring.backend s)) ∧
    (∀ batch future es after, BorrowingRun ms w batch future es after → ∀ m ∈ es,
      ∀ waker cached fail result, m.label = .polled waker cached fail (.ready (.ok result)) →
      (FailureLaw m.before.dependencies result ↔
        NoneOutran m.before.ring.backend m.before.toStandaloneBatchFuture)) := by
  refine ⟨fun m hm b waker cached fail result hlabel => hrun.answer_iff hm hlabel,
    fun batch future es after hpolls m hm waker cached fail result hlabel => ?_⟩
  obtain ⟨ms', hrun'⟩ := hpolls.batchRun
  have hmem := List.mem_append_right ms' (List.mem_map_of_mem (f := Move.map
    (BatchFuture.placed w) (BatchFuture.Event.placed w.batches.length)) hm)
  have hlabel' : (BatchFuture.Event.placed w.batches.length m.label) =
      ⟨.pollBatch w.batches.length waker cached fail, .batchPolled (.ready (.ok result))⟩ := by
    rw [hlabel]
    rfl
  obtain ⟨s, hs, hlaw⟩ := hrun'.answer_iff hmem hlabel'
  obtain rfl := Option.some.inj (Option.some.inj (hs.symm.trans BatchFuture.batches_placed))
  exact hlaw

end Runs

/-- Two reads, of which the second depends on the first. -/
def readAfterFirst : Batch := ⟨[readInto 4096, readInto 8192], AList.insert 1 [0] ∅, 1024⟩

/-- The first read fails, and the second does not. -/
def firstFails : List Action :=
  [.submitBatch readAfterFirst .default fun _ => .ok (), .complete 0 (.error (.os 5)),
    .complete 0 (.ok 8), .pollBatch 0 7 [] none]

/-- The dependencies of the two reads have no cycle. -/
theorem acyclic_readAfterFirst : Graph.Acyclic (DependsOn readAfterFirst.dependencies) := by
  have hdepends : ∀ i j, DependsOn readAfterFirst.dependencies i j → i = 1 ∧ j = 0 := by
    intro i j hij
    rw [DependsOn, dependenciesOf, readAfterFirst] at hij
    by_cases hi : i = 1
    · rw [hi, AList.lookup_insert] at hij
      exact ⟨hi, List.mem_singleton.mp hij⟩
    · rw [AList.lookup_insert_ne hi] at hij
      exact absurd hij (by simp)
  intro n hn
  obtain ⟨m, hm, -⟩ := TransGen.head'_iff.mp hn
  obtain ⟨k, -, hk⟩ := TransGen.tail'_iff.mp hn
  exact absurd ((hdepends n m hm).1.symm.trans (hdepends k n hk).2) (by simp)

/-- **The second read succeeds**, though it depends on the first. -/
theorem not_failureLaw_firstFails : Graph.Acyclic (DependsOn readAfterFirst.dependencies) ∧
    BatchConfig.default.enforceDependencies = true ∧
    ∃ ms w m s result, BatchRun ms w ∧ actionsOf ms = firstFails ∧ m ∈ ms ∧
      m.label = ⟨.pollBatch 0 7 [] none, .batchPolled (.ready (.ok result))⟩ ∧
      m.before.batches[0]? = some (some s) ∧
      result.results = [.error (.strerror 5), .success 8] ∧
      ¬FailureLaw s.dependencies result := by
  refine ⟨acyclic_readAfterFirst, rfl, ?_⟩
  obtain ⟨⟨ms, w⟩, htrace⟩ : ∃ x, World.new.trace firstFails = some x :=
    Option.isSome_iff_exists.mp (by decide)
  obtain ⟨hrun, hacts⟩ := run_of_trace htrace
  have hend : (World.new.trace firstFails).map (fun x => (x.1[3]?).map fun m =>
      (m.label.response, (m.before.batches[0]?).join.map fun s =>
        decide (DependsOn s.dependencies 1 0))) =
      some (some (.batchPolled (.ready (.ok ⟨[.error (.strerror 5), .success 8], 1, 1⟩)),
        some true)) := by
    decide
  rw [htrace] at hend
  obtain ⟨m, hm, hend⟩ := Option.map_eq_some_iff.mp (Option.some.inj hend)
  obtain ⟨hresponse, hdeps⟩ := Prod.mk.inj hend
  obtain ⟨s, hs, hdeps⟩ := Option.map_eq_some_iff.mp hdeps
  have haction : m.label.action = .pollBatch 0 7 [] none := by
    have hget : (actionsOf ms)[3]? = firstFails[3]? := by rw [hacts]
    rw [actionsOf, List.getElem?_map, hm] at hget
    exact Option.some.inj hget
  refine ⟨ms, w, m, s, ⟨[.error (.strerror 5), .success 8], 1, 1⟩, ⟨hrun, ?_, ?_⟩, hacts,
    List.mem_of_getElem? hm, ?_, Option.join_eq_some_iff.mp hs, rfl, fun hlaw => ?_⟩
  · refine guarded_of_actions (p := fun a => BatchSteps World.new ⟨a, .done⟩) (fun _ _ h => h) ?_
    rw [hacts]
    simp [firstFails, BatchSteps]
  · rw [spent_submissionsOf, hacts]
    decide
  · exact congrArg₂ Event.mk haction hresponse
  · have hcancelled := hlaw 1 0 _ (.single (of_decide_eq_true hdeps)) rfl
    exact absurd hcancelled (by simp)

/-- A batch that one failure ends: the first read fails before the second is done. -/
def firstEnds : List Action :=
  [.submitBatch readAfterFirst ⟨true, 256, true⟩ fun _ => .ok (), .complete 0 (.error (.os 5)),
    .pollBatch 0 7 [] none]

/-- The polls of the future that holds its ring, in that case. -/
def firstEndsBorrowing : List BatchFuture.Event :=
  [.completed 0 (.error (.os 5)),
    .polled 7 [] none (.ready (.ok ⟨[.error (.strerror 5), .cancelled], 0, 1⟩))]

/-- That run, with its last move: the second read is in flight when the batch answers. -/
theorem exists_firstEnds : ∃ ms m, BatchRun (ms ++ [m]) m.after ∧
    actionsOf (ms ++ [m]) = firstEnds ∧
    m.label = ⟨.pollBatch 0 7 [] none,
      .batchPolled (.ready (.ok ⟨[.error (.strerror 5), .cancelled], 0, 1⟩))⟩ ∧
    (m.before.batches[0]?).join.map StandaloneBatchFuture.operationIds =
      some [some 1, some 2] ∧
    m.after.inFlightIds = [2] := by
  obtain ⟨⟨ms, w⟩, htrace⟩ : ∃ x, World.new.trace firstEnds = some x :=
    Option.isSome_iff_exists.mp (by decide)
  obtain ⟨hrun, hacts⟩ := run_of_trace htrace
  have hend : (World.new.trace firstEnds).map (fun x => x.1.getLast?.map fun m =>
      (m.label.response, (m.before.batches[0]?).join.map StandaloneBatchFuture.operationIds,
        m.after.inFlightIds)) =
      some (some (.batchPolled (.ready (.ok ⟨[.error (.strerror 5), .cancelled], 0, 1⟩)),
        some [some 1, some 2], [2])) := rfl
  rw [htrace] at hend
  obtain ⟨m, hm, hend⟩ := Option.map_eq_some_iff.mp (Option.some.inj hend)
  obtain ⟨hresponse, hend⟩ := Prod.mk.inj hend
  obtain ⟨hids, hin⟩ := Prod.mk.inj hend
  obtain ⟨ms', rfl⟩ := List.getLast?_eq_some_iff.mp hm
  obtain ⟨-, -, hlast⟩ := hrun.split_at
  obtain rfl := hlast.eq_of_nil
  have haction : m.label.action = .pollBatch 0 7 [] none := by
    have hget : (actionsOf (ms' ++ [m])).getLast? = firstEnds.getLast? := by rw [hacts]
    rw [actionsOf, List.map_append, List.map_singleton, List.getLast?_concat] at hget
    exact Option.some.inj hget
  refine ⟨ms', m, ⟨hrun, ?_, ?_⟩, hacts, congrArg₂ Event.mk haction hresponse, hids, hin⟩
  · refine guarded_of_actions (p := fun a => BatchSteps World.new ⟨a, .done⟩) (fun _ _ h => h) ?_
    rw [hacts]
    simp [firstEnds, BatchSteps]
  · rw [spent_submissionsOf, hacts]
    decide

/-- The polls of the future that holds its ring, in that case. -/
theorem exists_firstEndsBorrowing : ∃ future after,
    ∃ es : List (Move BatchFuture BatchFuture.Event),
      BorrowingRun [] World.new readAfterFirst future es after ∧
      es.map Move.label = firstEndsBorrowing := by
  let submitted := Ring.new.submitBatchWithConfig readAfterFirst ⟨true, 256, true⟩ fun _ => .ok ()
  obtain ⟨future, hfuture⟩ : ∃ future, submitted.1 = .ok future := ⟨_, rfl⟩
  have hsome : (submitted.1.toOption.bind fun future =>
      Transition.trace BatchFuture.step future firstEndsBorrowing).isSome = true := by
    decide
  rw [hfuture] at hsome
  obtain ⟨⟨es, after⟩, htrace⟩ := Option.isSome_iff_exists.mp hsome
  obtain ⟨hrun, hlabels⟩ := Transition.run_of_trace htrace
  exact ⟨future, after, es, ⟨⟨.nil _, Transition.guarded_nil, by decide⟩, by decide,
    ⟨⟨true, 256, true⟩, fun _ => .ok (), submitted.2, Prod.ext hfuture rfl⟩, hrun⟩, hlabels⟩

/-- **There both futures answer by the law.** -/
theorem failureLaw_firstEnds :
    (∃ ms w m s, BatchRun ms w ∧ actionsOf ms = firstEnds ∧ m ∈ ms ∧
      m.before.batches[0]? = some (some s) ∧
      (FailureLaw s.dependencies ⟨[.error (.strerror 5), .cancelled], 0, 1⟩ ↔
        NoneOutran m.before.ring.backend s)) ∧
    ∃ future after, ∃ es : List (Move BatchFuture BatchFuture.Event), ∃ m ∈ es,
      BorrowingRun [] World.new readAfterFirst future es after ∧
      es.map Move.label = firstEndsBorrowing ∧
      (FailureLaw m.before.dependencies ⟨[.error (.strerror 5), .cancelled], 0, 1⟩ ↔
        NoneOutran m.before.ring.backend m.before.toStandaloneBatchFuture) := by
  constructor
  · obtain ⟨ms, m, hrun, hacts, hlabel, -⟩ := exists_firstEnds
    have hm : m ∈ ms ++ [m] := by simp
    obtain ⟨s, hs, hlaw⟩ := (failureLaw_iff hrun).1 m hm _ _ _ _ _ hlabel
    exact ⟨_, _, m, s, hrun, hacts, hm, hs, hlaw⟩
  · obtain ⟨future, after, es, hrun, hlabels⟩ := exists_firstEndsBorrowing
    obtain ⟨m, hm, hlabel⟩ : ∃ m ∈ es, m.label =
        .polled 7 [] none (.ready (.ok ⟨[.error (.strerror 5), .cancelled], 0, 1⟩)) := by
      refine List.mem_map.mp ?_
      rw [hlabels, firstEndsBorrowing]
      simp
    exact ⟨future, after, es, m, hm, hrun, hlabels,
      (failureLaw_iff hrun.before).2 _ _ _ _ hrun m hm _ _ _ _ hlabel⟩

end SaferRing
