import SaferRing.Batch.Construction

/-!
# Cycles are found exactly

The sort puts every operation out once, after what it depends on, when there is no cycle, and
fails when there is one: `SaferRing.DependencyValidator.dependencyOrder_exact`. The depth-first
search finds a cycle exactly when there is one, in whatever order the operations come, and so
agrees with the sort: `SaferRing.DependencyValidator.hasCircularDependencies_exact`. The search for
a path back finds one exactly when a new dependency would close a cycle:
`SaferRing.DependencyValidator.wouldCreateCycle_exact`.
-/

namespace SaferRing

open Graph (Acyclic Topological topological_nil topological_concat)
open Relation (ReflTransGen TransGen)

namespace DependencyValidator

variable {dependencies : HashMap (List ℕ)} {node : ℕ}

/-- There is no cycle where there is not one. -/
theorem circular_iff : Circular dependencies ↔ ¬Acyclic (DependsOn dependencies) := by
  rw [Acyclic, not_forall_not]
  rfl

/-! ### The sort -/

section Sorting

variable {s t : VisitState} {P : ℕ → Prop}

/-- **Nothing was put out twice**, or is on the path still. -/
structure Once (state : VisitState) : Prop where
  visited : ∀ n ∈ state.result, n ∈ state.visited
  nodup : state.result.Nodup
  path : ∀ n ∈ state.tempVisited, n ∉ state.result

/-- **What a successful visit puts out**: every node once, and only nodes it was to reach. -/
structure PutsOut (P : ℕ → Prop) (s t : VisitState) : Prop where
  once : Once s → Once t
  reached : ∀ n ∈ t.result, n ∈ s.result ∨ P n
  path : t.tempVisited = s.tempVisited

theorem PutsOut.refl (s : VisitState) : PutsOut P s s := ⟨id, fun _ => Or.inl, rfl⟩

theorem PutsOut.trans {u : VisitState} (h : PutsOut P s t) (h' : PutsOut P t u) :
    PutsOut P s u :=
  ⟨fun hs => h'.once (h.once hs), fun n hn => (h'.reached n hn).elim (h.reached n) Or.inr,
    h'.path.trans h.path⟩

/-- Nodes visited one after the other. -/
theorem putsOut_visitAll {visit : ℕ → VisitState → Option (Except SaferRingError VisitState)}
    {nodes : List ℕ}
    (hvisit : ∀ node ∈ nodes, ∀ s t, visit node s = some (.ok t) → PutsOut P s t)
    (h : visitAll visit nodes s = some (.ok t)) : PutsOut P s t := by
  induction nodes generalizing s with
  | nil =>
    obtain rfl := Except.ok.inj (Option.some.inj h)
    exact .refl s
  | cons node rest ih =>
    rw [visitAll] at h
    split at h
    · rename_i u hu
      have hfirst := hvisit node List.mem_cons_self s u hu
      exact hfirst.trans (ih (fun n hn => hvisit n (List.mem_cons_of_mem _ hn)) h)
    · rename_i hnot
      exact absurd h (hnot t)

/-- **A node is put out once**, with what it leads to. -/
theorem putsOut_visitNode {depth : ℕ} (hP : ∀ i j, P i → DependsOn dependencies i j → P j)
    (hnode : P node) (h : visitNode dependencies depth node s = some (.ok t)) :
    PutsOut P s t := by
  induction depth generalizing node s t with
  | zero => exact absurd h (by simp [visitNode])
  | succ depth ih =>
    rw [visitNode] at h
    by_cases htemp : node ∈ s.tempVisited
    · rw [if_pos htemp] at h
      exact absurd h (by simp)
    rw [if_neg htemp] at h
    by_cases hvis : node ∈ s.visited
    · rw [if_pos hvis] at h
      obtain rfl := Except.ok.inj (Option.some.inj h)
      exact .refl s
    rw [if_neg hvis] at h
    split at h
    · rename_i u hu
      have hdeps := putsOut_visitAll (fun d hd _ _ hv => ih (hP node d hnode hd) hv) hu
      obtain rfl := Except.ok.inj (Option.some.inj h)
      have hpath : u.tempVisited.erase node = s.tempVisited := by
        rw [hdeps.path]
        exact List.erase_cons_head ..
      refine ⟨fun hs => ?_, fun n hn => ?_, hpath⟩
      · -- on the path, the node was not put out with what it depends on
        have honce : Once { s with tempVisited := node :: s.tempVisited } := by
          refine ⟨hs.visited, hs.nodup, fun n hn => ?_⟩
          rcases List.mem_cons.mp hn with rfl | hn
          · exact fun hc => hvis (hs.visited n hc)
          · exact hs.path n hn
        have hu := hdeps.once honce
        have hout : node ∉ u.result := hu.path node (by rw [hdeps.path]; exact List.mem_cons_self)
        refine ⟨fun n hn => ?_, ?_, fun n hn hc => ?_⟩
        · rcases List.mem_append.mp hn with hn | hn
          · exact List.mem_cons_of_mem _ (hu.visited n hn)
          · exact List.mem_singleton.mp hn ▸ List.mem_cons_self
        · exact List.nodup_append.mpr ⟨hu.nodup, List.nodup_singleton node, by
            rintro n hn m hm rfl
            exact hout (List.mem_singleton.mp hm ▸ hn)⟩
        · rw [hpath] at hn
          rcases List.mem_append.mp hc with hc | hc
          · exact hu.path n (by rw [hdeps.path]; exact List.mem_cons_of_mem _ hn) hc
          · exact htemp (List.mem_singleton.mp hc ▸ hn)
      · rcases List.mem_append.mp hn with hn | hn
        · exact hdeps.reached n hn
        · exact Or.inr (List.mem_singleton.mp hn ▸ hnode)
    · rename_i hnot
      exact absurd h (hnot t)

/-- An operation that depends on others has an entry. -/
theorem mem_of_dependsOn {i j : ℕ} (h : DependsOn dependencies i j) : i ∈ dependencies := by
  rw [← AList.lookup_isSome]
  rcases hl : dependencies.lookup i with _ | l
  · exact absurd h (by simp [DependsOn, dependenciesOf, hl])
  · rfl

/-- What the sort puts out, it puts out once. -/
theorem nodup_dependencyOrder {operationCount : ℕ} {order : List ℕ}
    (hlisted : ∀ i j, DependsOn dependencies i j → j < operationCount)
    (h : dependencyOrder dependencies operationCount = .ok order) :
    order.Nodup ∧ ∀ i ∈ order, i < operationCount := by
  rw [dependencyOrder] at h
  split at h
  · rename_i t ht
    obtain rfl := Except.ok.inj h
    have hall : visitAll (visitFresh dependencies) (List.range operationCount) ⟨[], [], []⟩ =
        some (.ok t) := by
      rw [← ht, Option.some_get]
    have hout : PutsOut (· < operationCount) ⟨[], [], []⟩ t := by
      refine putsOut_visitAll (fun i hi u v hv => ?_) hall
      rw [visitFresh] at hv
      by_cases hvis : i ∈ u.visited
      · rw [if_pos hvis] at hv
        obtain rfl := Except.ok.inj (Option.some.inj hv)
        exact .refl u
      · rw [if_neg hvis] at hv
        exact putsOut_visitNode (fun i j _ hij => hlisted i j hij) (List.mem_range.mp hi) hv
    have hempty : Once ⟨[], [], []⟩ :=
      ⟨fun _ hn => absurd hn List.not_mem_nil, List.nodup_nil,
        fun _ hn => absurd hn List.not_mem_nil⟩
    exact ⟨(hout.once hempty).nodup, fun i hi => (hout.reached i hi).resolve_left (by simp)⟩
  · exact absurd h (by simp)

/-- A graph with a dependency order has no cycle. -/
theorem acyclic_of_dependencyOrder {operationCount : ℕ} {order : List ℕ}
    (hkeys : ∀ i ∈ dependencies, i < operationCount)
    (h : dependencyOrder dependencies operationCount = .ok order) :
    Acyclic (DependsOn dependencies) := by
  obtain ⟨htop, hall⟩ := topological_dependencyOrder h
  exact htop.acyclic fun i j hij => hall i (hkeys i (mem_of_dependsOn hij))

/-- **The sort is exact**: it ends, it finds an order exactly when there is no cycle, and the order
has every operation once, after those it depends on. -/
theorem dependencyOrder_exact (dependencies : HashMap (List ℕ)) (n : ℕ)
    (hkeys : ∀ i ∈ dependencies, i < n)
    (hlisted : ∀ i j, DependsOn dependencies i j → j < n) :
    (visitAll (visitFresh dependencies) (List.range n) ⟨[], [], []⟩).isSome ∧
      ((∃ order, dependencyOrder dependencies n = .ok order) ↔
        Acyclic (DependsOn dependencies)) ∧
      ∀ order, dependencyOrder dependencies n = .ok order →
        order.Perm (List.range n) ∧ Topological (DependsOn dependencies) order := by
  refine ⟨visitAll_isSome dependencies n, ⟨?_, fun h => dependencyOrder_ok h n⟩,
    fun order horder => ?_⟩
  · rintro ⟨order, horder⟩
    exact acyclic_of_dependencyOrder hkeys horder
  · obtain ⟨htop, hall⟩ := topological_dependencyOrder horder
    obtain ⟨hnodup, hlt⟩ := nodup_dependencyOrder hlisted horder
    refine ⟨(List.perm_ext_iff_of_nodup hnodup List.nodup_range).mpr fun i => ?_, htop⟩
    rw [List.mem_range]
    exact ⟨hlt i, hall i⟩

/-- Of three operations, the first depends on the third and the third on the second. -/
def throughLast : HashMap (List ℕ) := AList.insert 0 [2] (AList.insert 2 [1] ∅)

theorem dependsOn_throughLast {i j : ℕ} (h : DependsOn throughLast i j) :
    i = 0 ∧ j = 2 ∨ i = 2 ∧ j = 1 := by
  rw [DependsOn, dependenciesOf, throughLast] at h
  by_cases hi : i = 0
  · rw [hi, AList.lookup_insert] at h
    exact Or.inl ⟨hi, List.mem_singleton.mp h⟩
  · rw [AList.lookup_insert_ne hi] at h
    by_cases hi2 : i = 2
    · rw [hi2, AList.lookup_insert] at h
      exact Or.inr ⟨hi2, List.mem_singleton.mp h⟩
    · rw [AList.lookup_insert_ne hi2] at h
      exact absurd h List.not_mem_nil

/-- **The three are put in order**, and there is no cycle. -/
theorem dependencyOrder_throughLast :
    dependencyOrder throughLast 3 = .ok [1, 2, 0] ∧ Acyclic (DependsOn throughLast) := by
  have horder : dependencyOrder throughLast 3 = .ok [1, 2, 0] := by decide
  have hkeys : ∀ i ∈ throughLast, i < 3 := by
    intro i hi
    rcases (AList.mem_insert _).mp hi with rfl | hi
    · decide
    · rcases (AList.mem_insert _).mp hi with rfl | hi
      · decide
      · exact absurd hi (AList.notMem_empty i)
  have hlisted : ∀ i j, DependsOn throughLast i j → j < 3 := by
    intro i j hij
    rcases dependsOn_throughLast hij with ⟨-, rfl⟩ | ⟨-, rfl⟩
    · decide
    · decide
  exact ⟨horder, (dependencyOrder_exact throughLast 3 hkeys hlisted).2.1.mp ⟨_, horder⟩⟩

end Sorting

/-! ### The depth-first search -/

section Searching

variable {s t : SearchState} {order : List ℕ}

/-- **What is reached and off the path is done with**: it has a topological order. -/
structure Searched (dependencies : HashMap (List ℕ)) (state : SearchState) : Prop where
  path : ∀ n ∈ state.recStack, n ∈ state.visited
  done : ∃ order, Topological (DependsOn dependencies) order ∧
    ∀ n, n ∈ order ↔ n ∈ state.visited ∧ n ∉ state.recStack

/-- **What a search that finds nothing makes of the sets.** -/
structure Passes (dependencies : HashMap (List ℕ)) (s t : SearchState) : Prop where
  searched : Searched dependencies s → Searched dependencies t
  visited : ∀ n ∈ s.visited, n ∈ t.visited
  path : t.recStack = s.recStack

theorem Passes.refl (s : SearchState) : Passes dependencies s s := ⟨id, fun _ h => h, rfl⟩

theorem Passes.trans {u : SearchState} (h : Passes dependencies s t)
    (h' : Passes dependencies t u) : Passes dependencies s u :=
  ⟨fun hs => h'.searched (h.searched hs), fun n hn => h'.visited n (h.visited n hn),
    h'.path.trans h.path⟩

/-- Neighbours from which nothing is found are all done with. -/
theorem passes_searchNeighbors {search : ℕ → SearchState → Option (Bool × SearchState)}
    {neighbors : List ℕ}
    (hsearch : ∀ n s t, n ∉ s.visited → search n s = some (false, t) →
      Passes dependencies s t ∧ n ∈ t.visited)
    (h : searchNeighbors search neighbors s = some (false, t)) :
    Passes dependencies s t ∧ ∀ n ∈ neighbors, n ∈ t.visited ∧ n ∉ t.recStack := by
  induction neighbors generalizing s with
  | nil =>
    obtain ⟨-, rfl⟩ := Prod.mk.inj (Option.some.inj h)
    exact ⟨.refl s, fun n hn => absurd hn List.not_mem_nil⟩
  | cons neighbor rest ih =>
    -- the neighbour is reached and off the path, and the rest is searched
    have hrest : ∀ u, Passes dependencies s u → neighbor ∈ u.visited → neighbor ∉ u.recStack →
        searchNeighbors search rest u = some (false, t) →
        Passes dependencies s t ∧
          ∀ n ∈ neighbor :: rest, n ∈ t.visited ∧ n ∉ t.recStack := by
      intro u hu hvis hstack hcall
      obtain ⟨ht, hall⟩ := ih hcall
      refine ⟨hu.trans ht, fun n hn => ?_⟩
      rcases List.mem_cons.mp hn with rfl | hn
      · exact ⟨ht.visited n hvis, ht.path ▸ hstack⟩
      · exact hall n hn
    rw [searchNeighbors] at h
    by_cases hvis : neighbor ∉ s.visited
    · rw [if_pos hvis] at h
      split at h
      · rename_i u hu
        obtain ⟨hpass, hreach⟩ := hsearch neighbor s u hvis hu
        by_cases hstack : neighbor ∈ u.recStack
        · rw [if_pos hstack] at h
          exact absurd h (by simp)
        · rw [if_neg hstack] at h
          exact hrest u hpass hreach hstack h
      · rename_i hnot
        exact absurd h (hnot t)
    · rw [if_neg hvis] at h
      by_cases hstack : neighbor ∈ s.recStack
      · rw [if_pos hstack] at h
        exact absurd h (by simp)
      · rw [if_neg hstack] at h
        exact hrest s (.refl s) (not_not.mp hvis) hstack h

/-- **A node from which nothing is found is done with** once what it depends on is. -/
theorem passes_hasCycle {depth : ℕ} (hnode : node ∉ s.visited)
    (h : hasCycle dependencies depth node s = some (false, t)) :
    Passes dependencies s t ∧ node ∈ t.visited := by
  induction depth generalizing node s t with
  | zero => exact absurd h (by simp [hasCycle])
  | succ depth ih =>
    rw [hasCycle] at h
    split at h
    · rename_i u hu
      obtain ⟨hpass, hall⟩ := passes_searchNeighbors (fun n _ _ hn hc => ih hn hc) hu
      obtain ⟨-, rfl⟩ := Prod.mk.inj (Option.some.inj h)
      have hreach : node ∈ u.visited := hpass.visited node List.mem_cons_self
      have hpath : u.recStack.erase node = s.recStack := by
        rw [hpass.path]
        exact List.erase_cons_head ..
      refine ⟨⟨fun hs => ?_, fun n hn => hpass.visited n (List.mem_cons_of_mem _ hn), hpath⟩,
        hreach⟩
      have hon : Searched dependencies ⟨node :: s.visited, node :: s.recStack⟩ := by
        obtain ⟨order, htop, hmem⟩ := hs.done
        refine ⟨fun n hn => ?_, order, htop, fun n => ?_⟩
        · rcases List.mem_cons.mp hn with rfl | hn
          · exact List.mem_cons_self
          · exact List.mem_cons_of_mem _ (hs.path n hn)
        · rw [hmem, List.mem_cons, List.mem_cons]
          by_cases hn : n = node
          · exact iff_of_false (fun hc => hnode (hn ▸ hc.1)) fun hc => hc.2 (Or.inl hn)
          · simp [hn]
      obtain ⟨order, htop, hmem⟩ := (hpass.searched hon).done
      have hoff : node ∉ s.recStack := fun hc => hnode (hs.path node hc)
      refine ⟨fun n hn => ?_, order ++ [node], ?_, fun n => ?_⟩
      · rw [hpath] at hn
        exact hpass.visited n (List.mem_cons_of_mem _ (hs.path n hn))
      · exact topological_concat.mpr ⟨htop, fun d hd => (hmem d).mpr (hall d hd)⟩
      · rw [hpath, List.mem_append, List.mem_singleton, hmem, hpass.path, List.mem_cons]
        by_cases hn : n = node
        · exact iff_of_true (Or.inr hn) ⟨hn ▸ hreach, hn ▸ hoff⟩
        · simp [hn]
    · rename_i hnot
      exact absurd h (hnot t)

/-- When nothing is found, everything is done with. -/
theorem searched_searchAll {visited : List ℕ} (hs : Searched dependencies ⟨visited, []⟩)
    (h : searchAll dependencies order visited = some false) :
    ∃ reached, Searched dependencies ⟨reached, []⟩ ∧ (∀ n ∈ visited, n ∈ reached) ∧
      ∀ n ∈ order, n ∈ reached := by
  induction order generalizing visited with
  | nil => exact ⟨visited, hs, fun _ hn => hn, fun _ hn => absurd hn List.not_mem_nil⟩
  | cons node rest ih =>
    rw [searchAll] at h
    by_cases hvis : node ∈ visited
    · rw [if_pos hvis] at h
      obtain ⟨reached, hdone, hkeep, hall⟩ := ih hs h
      refine ⟨reached, hdone, hkeep, fun n hn => ?_⟩
      exact (List.mem_cons.mp hn).elim (fun hn => hn ▸ hkeep node hvis) (hall n)
    rw [if_neg hvis] at h
    split at h
    · rename_i t ht
      obtain ⟨hpass, hnode⟩ := passes_hasCycle hvis ht
      -- the path is empty again
      have hstack : t = ⟨t.visited, []⟩ := by
        rw [SearchState.mk.injEq]
        exact ⟨rfl, hpass.path⟩
      obtain ⟨reached, hdone, hkeep, hall⟩ := ih (hstack ▸ hpass.searched hs) h
      refine ⟨reached, hdone, fun n hn => hkeep n (hpass.visited n hn), fun n hn => ?_⟩
      exact (List.mem_cons.mp hn).elim (fun hn => hn ▸ hkeep node hnode) (hall n)
    · exact absurd h (by simp)
    · exact absurd h (by simp)

/-- **A cycle is found when there is one**, once every operation with dependencies has its turn. -/
theorem acyclic_of_searchAll (horder : ∀ i ∈ dependencies, i ∈ order)
    (h : searchAll dependencies order [] = some false) : Acyclic (DependsOn dependencies) := by
  have hempty : Searched dependencies ⟨[], []⟩ :=
    ⟨fun _ hn => hn, [], topological_nil, by simp⟩
  obtain ⟨reached, hdone, -, hall⟩ := searched_searchAll hempty h
  obtain ⟨sorted, htop, hmem⟩ := hdone.done
  refine htop.acyclic fun i j hij => (hmem i).mpr ⟨?_, List.not_mem_nil⟩
  exact hall i (horder i (mem_of_dependsOn hij))

/-- **The search is exact**: it ends, in whatever order the operations come it finds a cycle when
there is one and only then, and where dependencies are between the first `n` operations this is when
the sort of these fails. -/
theorem hasCircularDependencies_exact (dependencies : HashMap (List ℕ)) (order : List ℕ)
    (horder : order.Perm dependencies.keys) :
    (searchAll dependencies order []).isSome ∧
      (hasCircularDependencies dependencies order = true ↔ Circular dependencies) ∧
      ∀ n, (∀ i ∈ dependencies, i < n) → (∀ i j, DependsOn dependencies i j → j < n) →
        (hasCircularDependencies dependencies order = true ↔
          ∃ e, dependencyOrder dependencies n = .error e) := by
  have hfound : searchAll dependencies order [] =
      some (hasCircularDependencies dependencies order) := (Option.some_get _).symm
  have hexact : hasCircularDependencies dependencies order = true ↔ Circular dependencies := by
    rw [circular_iff]
    constructor
    · intro htrue hacyclic
      rw [hasCircularDependencies_eq_false hacyclic order] at htrue
      exact absurd htrue (by simp)
    · intro hcycle
      rcases hcall : hasCircularDependencies dependencies order with _ | _
      · rw [hcall] at hfound
        have hkeys : ∀ i ∈ dependencies, i ∈ order := fun i hi =>
          horder.mem_iff.mpr (AList.mem_keys.mp hi)
        exact absurd (acyclic_of_searchAll hkeys hfound) hcycle
      · rfl
  refine ⟨searchAll_isSome dependencies order, hexact, fun n hkeys _ => ?_⟩
  rw [hexact, circular_iff]
  constructor
  · intro hcycle
    rcases hcall : dependencyOrder dependencies n with e | sorted
    · exact ⟨e, rfl⟩
    · exact absurd (acyclic_of_dependencyOrder hkeys hcall) hcycle
  · rintro ⟨e, he⟩ hacyclic
    obtain ⟨sorted, hsorted⟩ := dependencyOrder_ok hacyclic n
    rw [hsorted] at he
    exact absurd he (by simp)

/-- An operation that depends on itself, and one that depends on it. -/
def onItself : HashMap (List ℕ) := AList.insert 1 [0] (AList.insert 0 [0] ∅)

/-- **The cycle is found** whichever of the two comes first, and the sort fails. -/
theorem circular_onItself :
    hasCircularDependencies onItself [1, 0] = true ∧
      hasCircularDependencies onItself [0, 1] = true ∧ Circular onItself ∧
      ∃ e, dependencyOrder onItself 2 = .error e := by
  have hfirst : hasCircularDependencies onItself [1, 0] = true := by decide
  have hlast : hasCircularDependencies onItself [0, 1] = true := by decide
  have hkeys : ∀ i ∈ onItself, i < 2 := by
    intro i hi
    rcases (AList.mem_insert _).mp hi with rfl | hi
    · decide
    · rcases (AList.mem_insert _).mp hi with rfl | hi
      · decide
      · exact absurd hi (AList.notMem_empty i)
  have hlisted : ∀ i j, DependsOn onItself i j → j < 2 := by
    intro i j hij
    have hi := hkeys i (mem_of_dependsOn hij)
    rcases Nat.lt_succ_iff_lt_or_eq.mp hi with hi | rfl
    · obtain rfl := Nat.lt_one_iff.mp hi
      obtain rfl := List.mem_singleton.mp (show j ∈ [0] from hij)
      decide
    · obtain rfl := List.mem_singleton.mp (show j ∈ [0] from hij)
      decide
  have hperm : [1, 0].Perm onItself.keys := by decide
  obtain ⟨-, hcircular, hagrees⟩ := hasCircularDependencies_exact onItself [1, 0] hperm
  exact ⟨hfirst, hlast, hcircular.mp hfirst, (hagrees 2 hkeys hlisted).mp hfirst⟩

end Searching

/-! ### The search for a path back -/

/-- **The search for a path back is exact**: it ends, it finds one when the dependency leads to
the operation that would depend on it or is that operation, and where there is no cycle the new
dependency makes none exactly when no path is found. -/
theorem wouldCreateCycle_exact (dependencies : HashMap (List ℕ)) (a b : ℕ) :
    (cycleLoop dependencies a (cycleTurns dependencies) [] [b]).isSome ∧
      (wouldCreateCycle dependencies a b = true ↔
        TransGen (DependsOn dependencies) b a ∨ a = b) ∧
      (Acyclic (DependsOn dependencies) →
        (Acyclic (DependsOn (dependencies.insert a (dependenciesOf dependencies a ++ [b]))) ↔
          wouldCreateCycle dependencies a b = false)) := by
  refine ⟨cycleLoop_turns dependencies a b, ?_, fun hacyclic => ?_⟩
  · rw [wouldCreateCycle_iff, Relation.reflTransGen_iff_eq_or_transGen, or_comm]
  · have hmore : DependsOn (dependencies.insert a (dependenciesOf dependencies a ++ [b])) =
        fun i j => DependsOn dependencies i j ∨ i = a ∧ j = b :=
      funext₂ fun i j => propext Batch.dependsOn_insert
    rw [hmore, hacyclic.insert_iff, ← wouldCreateCycle_iff, Bool.not_eq_true]

/-- **The second of three may not depend on the first**, which leads to it through the third. -/
theorem wouldCreateCycle_throughLast : wouldCreateCycle throughLast 1 0 = true ∧
    ¬Acyclic (DependsOn
      (throughLast.insert 1 (dependenciesOf throughLast 1 ++ [0]))) := by
  have hfound : wouldCreateCycle throughLast 1 0 = true := by decide
  have hacyclic : Acyclic (DependsOn throughLast) := by
    have hsearch : searchAll throughLast [0, 2] [] = some false := by decide
    refine acyclic_of_searchAll (fun i hi => ?_) hsearch
    rcases (AList.mem_insert _).mp hi with rfl | hi
    · decide
    · rcases (AList.mem_insert _).mp hi with rfl | hi
      · decide
      · exact absurd hi (AList.notMem_empty i)
  refine ⟨hfound, fun hmore => ?_⟩
  have hnone := ((wouldCreateCycle_exact throughLast 1 0).2.2 hacyclic).mp hmore
  exact absurd (hnone.symm.trans hfound) (by simp)

end DependencyValidator

end SaferRing
