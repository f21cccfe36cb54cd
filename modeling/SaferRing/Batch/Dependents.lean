import SaferRing.Batch.Order
import SaferRing.Library.Search

/-!
# What a failed operation takes with it

When an operation of a batch fails that one failure ends, `cancel_dependent_operations` looks
for what depends on it, going through the dependencies backwards with a stack of its own
(`SaferRing.StandaloneBatchFuture.cancelLoop`), and gives up what of that has no result. The
same code stands in both futures of a batch.

`SaferRing.cancelDependentOperations_spec` is that **it gives up exactly the operations without a
result that depend on the failed one**, directly or not, in whatever order the map of the
dependencies is gone through.
-/

namespace SaferRing

open Graph (Search)
open Relation (TransGen)

namespace StandaloneBatchFuture

variable {dependencies : HashMap (List ℕ)} {failedIndex i current turns : ℕ}
  {visited toCancel stack found : List ℕ}

/-! ### The search -/

/-- The operations the search gives up: what depends on the failed one. -/
def dependentsToCancel (dependencies : HashMap (List ℕ)) (failedIndex : ℕ) : List ℕ :=
  (cancelLoop dependencies (cancelTurns dependencies) [] [] [failedIndex]).get
    (cancelLoop_turns dependencies failedIndex)

/-- Who depends on whom, by the entries of the map. -/
theorem dependsOn_iff_entry {j : ℕ} :
    DependsOn dependencies i j ↔ ∃ deps, ⟨i, deps⟩ ∈ dependencies.entries ∧ j ∈ deps := by
  rw [DependsOn, dependenciesOf]
  constructor
  · intro h
    rcases hlookup : dependencies.lookup i with _ | deps
    · rw [hlookup] at h
      exact absurd h List.not_mem_nil
    · rw [hlookup] at h
      exact ⟨deps, AList.mem_lookup_iff.mp hlookup, h⟩
  · rintro ⟨deps, hentry, hj⟩
    rw [AList.mem_lookup_iff.mpr hentry]
    exact hj

/-- One turn finds what depends on the operation it looks at and was not visited. -/
theorem mem_dependentsOf :
    i ∈ dependentsOf dependencies visited current ↔
      DependsOn dependencies i current ∧ i ∉ visited := by
  rw [dependsOn_iff_entry]
  constructor
  · intro h
    obtain ⟨entry, hentry, rfl⟩ := List.mem_map.mp h
    obtain ⟨hmem, hcond⟩ := List.mem_filter.mp hentry
    obtain ⟨hdep, hvis⟩ := Bool.and_eq_true_iff.mp hcond
    exact ⟨⟨entry.2, hmem, of_decide_eq_true hdep⟩, of_decide_eq_true hvis⟩
  · rintro ⟨⟨deps, hentry, hdep⟩, hvis⟩
    refine List.mem_map.mpr ⟨⟨i, deps⟩, List.mem_filter.mpr ⟨hentry, ?_⟩, rfl⟩
    exact Bool.and_eq_true_iff.mpr ⟨decide_eq_true hdep, decide_eq_true hvis⟩

/-- **The loop is a search** along the dependencies, to its end. -/
theorem cancelLoop_search
    (h : Search (DependsOn dependencies) failedIndex visited toCancel stack)
    (hfound : cancelLoop dependencies turns visited toCancel stack = some found) :
    ∃ seen, Search (DependsOn dependencies) failedIndex seen found [] := by
  induction turns generalizing visited toCancel stack with
  | zero => exact absurd hfound (by simp [cancelLoop])
  | succ turns ih =>
    rcases stack with _ | ⟨current, stack⟩
    · obtain rfl := Option.some.inj hfound
      exact ⟨visited, h⟩
    rw [cancelLoop] at hfound
    by_cases hvis : current ∈ visited
    · rw [if_pos hvis] at hfound
      exact ih (h.skip hvis) hfound
    · rw [if_neg hvis] at hfound
      exact ih (h.visit fun _ => mem_dependentsOf) hfound

/-- A loop that has ended has ended for good: more turns change nothing. -/
theorem cancelLoop_mono {turns' : ℕ} (hle : turns ≤ turns')
    (hfound : cancelLoop dependencies turns visited toCancel stack = some found) :
    cancelLoop dependencies turns' visited toCancel stack = some found := by
  induction turns generalizing visited toCancel stack turns' with
  | zero => exact absurd hfound (by simp [cancelLoop])
  | succ turns ih =>
    obtain ⟨turns', rfl⟩ := Nat.exists_eq_succ_of_ne_zero (Nat.ne_of_gt (Nat.zero_lt_of_lt hle))
    have hle := Nat.succ_le_succ_iff.mp hle
    rcases stack with _ | ⟨current, stack⟩
    · exact hfound
    rw [cancelLoop] at hfound ⊢
    by_cases hvis : current ∈ visited
    · rw [if_pos hvis] at hfound ⊢
      exact ih hle hfound
    · rw [if_neg hvis] at hfound ⊢
      exact ih hle hfound

/-- The loop ends, with what it gives up. -/
theorem cancelLoop_eq (hle : cancelTurns dependencies ≤ turns) :
    cancelLoop dependencies turns [] [] [failedIndex] =
      some (dependentsToCancel dependencies failedIndex) :=
  cancelLoop_mono hle (Option.some_get _).symm

/-- The search that was made. -/
theorem search_dependents (dependencies : HashMap (List ℕ)) (failedIndex : ℕ) :
    ∃ seen, Search (DependsOn dependencies) failedIndex seen
      (dependentsToCancel dependencies failedIndex) [] :=
  cancelLoop_search .initial (cancelLoop_eq le_rfl)

/-- What is given up depends on the failed operation. -/
theorem transGen_of_mem (h : i ∈ dependentsToCancel dependencies failedIndex) :
    TransGen (DependsOn dependencies) i failedIndex := by
  obtain ⟨seen, hsearch⟩ := search_dependents dependencies failedIndex
  exact hsearch.sound i h

/-- **Everything else that depends on the failed operation is given up.** -/
theorem mem_dependentsToCancel_iff (hi : i ≠ failedIndex) :
    i ∈ dependentsToCancel dependencies failedIndex ↔
      TransGen (DependsOn dependencies) i failedIndex := by
  obtain ⟨seen, hsearch⟩ := search_dependents dependencies failedIndex
  exact hsearch.found_iff hi

/-! ### What is given up -/

/-- One operation given up, if it has no result. -/
def cancelAt (results : List (Option OperationResult)) (index : ℕ) :
    List (Option OperationResult) :=
  if (results[index]?).join = none then results.set index (some .cancelled) else results

/-- The results after what depends on a failed operation was given up. -/
theorem results_cancelDependentOperations (self : StandaloneBatchFuture) (failedIndex : ℕ) :
    (self.cancelDependentOperations failedIndex).results =
      (dependentsToCancel self.dependencies failedIndex).foldl cancelAt self.results :=
  rfl

/-- An operation without a result is given up. -/
theorem getElem?_cancelAt_self {results : List (Option OperationResult)}
    (h : results[i]? = some none) : (cancelAt results i)[i]? = some (some .cancelled) := by
  rw [cancelAt, if_pos (by rw [h]; rfl)]
  exact List.getElem?_set_self (List.getElem?_eq_some_iff.mp h).1

/-- Nothing else changes. -/
theorem getElem?_cancelAt_of_ne {results : List (Option OperationResult)} {index : ℕ}
    (h : i = index → results[i]? ≠ some none) : (cancelAt results index)[i]? = results[i]? := by
  rw [cancelAt]
  by_cases hnone : (results[index]?).join = none
  swap
  · rw [if_neg hnone]
  rw [if_pos hnone]
  by_cases hi : i = index
  · -- there is no such operation
    subst hi
    have hout : results[i]? = none := by
      rcases hres : results[i]? with _ | _ | result
      · rfl
      · exact absurd hres (h rfl)
      · rw [hres] at hnone
        exact absurd hnone (by simp)
    rw [List.set_eq_of_length_le (List.getElem?_eq_none_iff.mp hout)]
  · exact List.getElem?_set_ne (Ne.symm hi)

/-- **What is given up are the operations named that have no result.** -/
theorem getElem?_foldl_cancelAt {indices : List ℕ} {results : List (Option OperationResult)} :
    (results[i]? = some none ∧ i ∈ indices →
      (indices.foldl cancelAt results)[i]? = some (some .cancelled)) ∧
    (¬(results[i]? = some none ∧ i ∈ indices) →
      (indices.foldl cancelAt results)[i]? = results[i]?) := by
  induction indices generalizing results with
  | nil => exact ⟨fun h => absurd h.2 List.not_mem_nil, fun _ => rfl⟩
  | cons index indices ih =>
    rw [List.foldl_cons, List.mem_cons]
    by_cases hi : i = index ∧ results[i]? = some none
    · obtain ⟨rfl, hnone⟩ := hi
      have hset := getElem?_cancelAt_self hnone
      refine ⟨fun _ => ?_, fun h => absurd ⟨hnone, Or.inl rfl⟩ h⟩
      rw [ih.2 (by rw [hset]; simp), hset]
    · have hkeep : (cancelAt results index)[i]? = results[i]? :=
        getElem?_cancelAt_of_ne fun heq hnone => hi ⟨heq, hnone⟩
      rw [← hkeep]
      refine ⟨fun h => ih.1 ⟨h.1, h.2.resolve_left fun heq => hi ⟨heq, hkeep ▸ h.1⟩⟩,
        fun h => ih.2 fun hc => h ⟨hc.1, Or.inr hc.2⟩⟩

variable {self : StandaloneBatchFuture}

/-- An operation without a result is not one that has failed. -/
theorem ne_of_unresolved (hset : (self.resultAt failedIndex).isSome)
    (hnone : self.results[i]? = some none) : i ≠ failedIndex := by
  rintro rfl
  rw [resultAt, hnone] at hset
  exact absurd hset (by simp)

/-- **What depends on the failed operation is cancelled**, if it has no result. -/
theorem results_of_dependent (self : StandaloneBatchFuture)
    (hset : (self.resultAt failedIndex).isSome)
    (h : self.results[i]? = some none ∧ TransGen (DependsOn self.dependencies) i failedIndex) :
    (self.cancelDependentOperations failedIndex).results[i]? = some (some .cancelled) := by
  rw [results_cancelDependentOperations]
  exact getElem?_foldl_cancelAt.1
    ⟨h.1, (mem_dependentsToCancel_iff (ne_of_unresolved hset h.1)).mpr h.2⟩

/-- **Everything else is as it was.** -/
theorem results_of_not_dependent (self : StandaloneBatchFuture)
    (h : ¬(self.results[i]? = some none ∧
      TransGen (DependsOn self.dependencies) i failedIndex)) :
    (self.cancelDependentOperations failedIndex).results[i]? = self.results[i]? := by
  rw [results_cancelDependentOperations]
  exact getElem?_foldl_cancelAt.2 fun hc => h ⟨hc.1, transGen_of_mem hc.2⟩

/-- The order of the map makes no difference to who depends on whom. -/
theorem dependsOn_of_perm {dependencies' : HashMap (List ℕ)}
    (h : dependencies'.entries.Perm dependencies.entries) :
    DependsOn dependencies' = DependsOn dependencies := by
  have hlookup : ∀ i, dependencies'.lookup i = dependencies.lookup i :=
    fun _ => AList.perm_lookup h
  funext i j
  rw [DependsOn, DependsOn, dependenciesOf, dependenciesOf, hlookup]

/-- **The order of the map makes no difference to what is cancelled.** -/
theorem results_of_perm {dependencies' : HashMap (List ℕ)}
    (hset : (self.resultAt failedIndex).isSome)
    (h : dependencies'.entries.Perm self.dependencies.entries) :
    ({ self with dependencies := dependencies' }.cancelDependentOperations failedIndex).results =
      (self.cancelDependentOperations failedIndex).results := by
  have hsame := dependsOn_of_perm h
  refine List.ext_getElem? fun i => ?_
  by_cases hdep : self.results[i]? = some none ∧
    TransGen (DependsOn self.dependencies) i failedIndex
  · rw [results_of_dependent self hset hdep]
    exact results_of_dependent { self with dependencies := dependencies' } hset
      (by rw [hsame]; exact hdep)
  · rw [results_of_not_dependent self hdep]
    exact results_of_not_dependent { self with dependencies := dependencies' }
      (by rw [hsame]; exact hdep)

/-- What depends on an operation is an operation of the batch. -/
theorem lt_of_transGen
    (hbatch : ∀ i j, DependsOn self.dependencies i j →
      i < self.results.length ∧ j < self.results.length)
    (h : TransGen (DependsOn self.dependencies) i failedIndex) : i < self.results.length := by
  obtain ⟨j, hstep, -⟩ := TransGen.head'_iff.mp h
  exact (hbatch i j hstep).1

end StandaloneBatchFuture

open StandaloneBatchFuture

/-- **A failed operation takes with it exactly what depends on it.** For every map of dependencies
between operations of the batch, cyclic or not: the search ends, however many turns it is
allowed beyond those it needs, and names operations of the batch only; of the operations without
a result those that depend on the failed one are cancelled and no other changes; the order of the
map does not matter; and the future that holds its ring does the same. -/
theorem cancelDependentOperations_spec (self : StandaloneBatchFuture) (failedIndex : ℕ)
    (hbatch : ∀ i j, DependsOn self.dependencies i j →
      i < self.results.length ∧ j < self.results.length)
    (hset : (self.resultAt failedIndex).isSome) :
    (∃ found, (∀ turns ≥ cancelTurns self.dependencies,
        cancelLoop self.dependencies turns [] [] [failedIndex] = some found) ∧
      ∀ i ∈ found, i < self.results.length) ∧
    (∀ i, self.results[i]? = some none ∧ TransGen (DependsOn self.dependencies) i failedIndex →
      (self.cancelDependentOperations failedIndex).results[i]? = some (some .cancelled)) ∧
    (∀ i, ¬(self.results[i]? = some none ∧
        TransGen (DependsOn self.dependencies) i failedIndex) →
      (self.cancelDependentOperations failedIndex).results[i]? = self.results[i]?) ∧
    (∀ dependencies, dependencies.entries.Perm self.dependencies.entries →
      ({ self with dependencies }.cancelDependentOperations failedIndex).results =
        (self.cancelDependentOperations failedIndex).results) ∧
    ∀ ring, (BatchFuture.withBoth self ring).cancelDependentOperations failedIndex =
      .withBoth (self.cancelDependentOperations failedIndex) ring := by
  refine ⟨⟨dependentsToCancel self.dependencies failedIndex, fun turns hle => cancelLoop_eq hle,
    fun i hi => lt_of_transGen hbatch (transGen_of_mem hi)⟩, fun i h => ?_, fun i h => ?_,
    fun dependencies h => ?_, fun ring => rfl⟩
  · exact results_of_dependent self hset h
  · exact results_of_not_dependent self h
  · exact results_of_perm hset h

/-- A batch of four, the first of which failed. The first three depend on each other in a circle,
and the last on none. -/
def circle : StandaloneBatchFuture where
  operationIds := [some 1, some 2, some 3, some 4]
  results := [some (.error (.text "IO error")), none, none, none]
  dependencies := ⟨[⟨0, [2]⟩, ⟨1, [0]⟩, ⟨2, [1]⟩], (by decide : [0, 1, 2].Nodup)⟩
  failFast := true
  completed := false
  idToIndex := ∅

/-- In the circle the two that have no result are cancelled. -/
theorem cancelDependentOperations_circle :
    (circle.cancelDependentOperations 0).results[2]? = some (some .cancelled) ∧
      (circle.cancelDependentOperations 0).results[3]? = some none := by
  have hentries : ∀ e ∈ circle.dependencies.entries, e.1 < 4 ∧ ∀ j ∈ e.2, j < 4 := by decide
  have hspec := cancelDependentOperations_spec circle 0 (fun i j h => by
    obtain ⟨deps, hentry, hj⟩ := dependsOn_iff_entry.mp h
    exact ⟨(hentries _ hentry).1, (hentries _ hentry).2 j hj⟩) rfl
  have hone : DependsOn circle.dependencies 1 0 := by decide
  have htwo : DependsOn circle.dependencies 2 1 := by decide
  refine ⟨hspec.2.1 2 ⟨rfl, .head htwo (.single hone)⟩, hspec.2.2.1 3 fun h => ?_⟩
  obtain ⟨j, hstep, -⟩ := TransGen.head'_iff.mp h.2
  obtain ⟨deps, hentry, -⟩ := dependsOn_iff_entry.mp hstep
  have hkey : 3 ∈ circle.dependencies.keys := List.mem_map_of_mem hentry
  exact absurd hkey (by decide)

end SaferRing
