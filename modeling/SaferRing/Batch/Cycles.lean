import Mathlib.Algebra.BigOperators.Group.Finset.Basic
import SaferRing.Batch.Order

/-!
# Looking for cycles

Besides the sort, two searches go through the dependencies of a batch.
`SaferRing.DependencyValidator.wouldCreateCycle` follows them from one operation to see
whether they lead to another, with a stack of its own, and
`SaferRing.DependencyValidator.hasCircularDependencies` goes depth first from every operation
that has any. Neither is bounded in the source. Here the first is allowed as many turns as there
are dependencies, and the second as much depth as there are operations that have some.

What they find is what they look for: `SaferRing.DependencyValidator.wouldCreateCycle_iff` and
`SaferRing.DependencyValidator.hasCircularDependencies_eq_false`.
-/

namespace SaferRing

open Graph (Acyclic)
open Relation (ReflTransGen TransGen)

namespace DependencyValidator

variable {dependencies : HashMap (List ℕ)} {dependent dependency : ℕ}

/-! ### Following dependencies -/

/-- The loop of `would_create_cycle`; `none` when it makes more turns than allowed. -/
def cycleLoop (dependencies : HashMap (List ℕ)) (dependent : ℕ) :
    ℕ → (visited stack : List ℕ) → Option Bool
  | 0, _, _ => none
  | _ + 1, _, [] => some false
  | turns + 1, visited, current :: stack =>
    if current = dependent then some true
    else if current ∈ visited then cycleLoop dependencies dependent turns visited stack
    else
      cycleLoop dependencies dependent turns (current :: visited)
        ((dependenciesOf dependencies current).reverse ++ stack)

/-- The turns the loop needs at most. -/
def cycleTurns (dependencies : HashMap (List ℕ)) : ℕ :=
  (dependencies.keys.map fun node => (dependenciesOf dependencies node).length).sum + 2

/-- The dependencies of the operations that were not visited. -/
def unvisited (dependencies : HashMap (List ℕ)) (visited : List ℕ) : ℕ :=
  ∑ node ∈ dependencies.keys.toFinset \ visited.toFinset,
    (dependenciesOf dependencies node).length

/-- An operation visited pays for its dependencies. -/
theorem unvisited_cons {visited : List ℕ} {node : ℕ} (h : node ∉ visited) :
    unvisited dependencies (node :: visited) + (dependenciesOf dependencies node).length =
      unvisited dependencies visited := by
  have hsdiff : dependencies.keys.toFinset \ (node :: visited).toFinset =
      (dependencies.keys.toFinset \ visited.toFinset).erase node := by
    rw [List.toFinset_cons, Finset.sdiff_insert]
  rw [unvisited, unvisited, hsdiff]
  by_cases hkey : node ∈ dependencies.keys
  · refine Finset.sum_erase_add _ _ (Finset.mem_sdiff.mpr ⟨List.mem_toFinset.mpr hkey, ?_⟩)
    exact fun hc => h (List.mem_toFinset.mp hc)
  · -- there is nothing to pay for
    have hnone : dependenciesOf dependencies node = [] := by
      rw [dependenciesOf, AList.lookup_eq_none.mpr hkey]
      rfl
    rw [hnone, Finset.erase_eq_of_notMem fun hc =>
      hkey (List.mem_toFinset.mp (Finset.mem_sdiff.mp hc).1)]
    rfl

/-- The loop ends while it is allowed more turns than it can make. -/
theorem cycleLoop_isSome {turns : ℕ} {visited stack : List ℕ}
    (h : stack.length + unvisited dependencies visited < turns) :
    (cycleLoop dependencies dependent turns visited stack).isSome := by
  induction turns generalizing visited stack with
  | zero => exact absurd h (Nat.not_lt_zero _)
  | succ turns ih =>
    rcases stack with _ | ⟨current, stack⟩
    · rfl
    rw [List.length_cons] at h
    rw [cycleLoop]
    split
    · rfl
    split
    · exact ih (by omega)
    · rename_i hvis
      have hpays := @unvisited_cons dependencies visited current hvis
      refine ih ?_
      rw [List.length_append, List.length_reverse]
      omega

/-- **The turns allowed suffice.** -/
theorem cycleLoop_turns (dependencies : HashMap (List ℕ)) (dependent dependency : ℕ) :
    (cycleLoop dependencies dependent (cycleTurns dependencies) [] [dependency]).isSome := by
  refine cycleLoop_isSome ?_
  rw [unvisited, List.toFinset_nil, Finset.sdiff_empty,
    List.sum_toFinset _ dependencies.keys_nodup, cycleTurns, List.length_singleton]
  omega

/-- **Whether a new dependency would close a cycle.** -/
def wouldCreateCycle (dependencies : HashMap (List ℕ)) (dependent newDependency : ℕ) : Bool :=
  (cycleLoop dependencies dependent (cycleTurns dependencies) [] [newDependency]).get
    (cycleLoop_turns dependencies dependent newDependency)

/-- What the loop finds is led to by something on the stack. -/
theorem path_of_cycleLoop {turns : ℕ} {visited stack : List ℕ}
    (h : cycleLoop dependencies dependent turns visited stack = some true) :
    ∃ node ∈ stack, ReflTransGen (DependsOn dependencies) node dependent := by
  induction turns generalizing visited stack with
  | zero => exact absurd h (by simp [cycleLoop])
  | succ turns ih =>
    rcases stack with _ | ⟨current, stack⟩
    · exact absurd h (by simp [cycleLoop])
    rw [cycleLoop] at h
    split at h
    · rename_i hfound
      exact ⟨current, List.mem_cons_self, hfound ▸ .refl⟩
    split at h
    · obtain ⟨node, hnode, hpath⟩ := ih h
      exact ⟨node, List.mem_cons_of_mem _ hnode, hpath⟩
    · obtain ⟨node, hnode, hpath⟩ := ih h
      rcases List.mem_append.mp hnode with hdep | hnode
      · exact ⟨current, List.mem_cons_self, .head (List.mem_reverse.mp hdep) hpath⟩
      · exact ⟨node, List.mem_cons_of_mem _ hnode, hpath⟩

/-- **What is visited is done with**: it is not the operation looked for, and its dependencies
are visited or on the stack. -/
def Closed (dependencies : HashMap (List ℕ)) (dependent : ℕ) (visited stack : List ℕ) : Prop :=
  ∀ node ∈ visited, node ≠ dependent ∧
    ∀ d, DependsOn dependencies node d → d ∈ visited ∨ d ∈ stack

/-- What the loop does not find, nothing visited or on the stack leads to. -/
theorem no_path_of_cycleLoop {turns : ℕ} {visited stack : List ℕ}
    (hclosed : Closed dependencies dependent visited stack)
    (h : cycleLoop dependencies dependent turns visited stack = some false) {node : ℕ}
    (hnode : node ∈ visited ∨ node ∈ stack) :
    ¬ReflTransGen (DependsOn dependencies) node dependent := by
  induction turns generalizing visited stack with
  | zero => exact absurd h (by simp [cycleLoop])
  | succ turns ih =>
    rcases stack with _ | ⟨current, stack⟩
    · -- what was visited is closed, and leads to itself only
      have hvisited := hnode.resolve_right List.not_mem_nil
      have hdone : ∀ x y, x ∈ visited → DependsOn dependencies x y → y ∈ visited :=
        fun x y hx hy => ((hclosed x hx).2 y hy).resolve_right List.not_mem_nil
      exact fun hpath =>
        (hclosed dependent (Graph.closed_of_reflTransGen hdone hpath hvisited)).1 rfl
    rw [cycleLoop] at h
    split at h
    · exact absurd h (by simp)
    rename_i hne
    split at h
    · rename_i hvis
      have hdrop : ∀ d, d ∈ visited ∨ d ∈ current :: stack → d ∈ visited ∨ d ∈ stack := by
        rintro d (hd | hd)
        · exact Or.inl hd
        · rcases List.mem_cons.mp hd with rfl | hd
          · exact Or.inl hvis
          · exact Or.inr hd
      exact ih (fun n hn => ⟨(hclosed n hn).1, fun d hd => hdrop d ((hclosed n hn).2 d hd)⟩) h
        (hdrop node hnode)
    · have hmove : ∀ d, d ∈ visited ∨ d ∈ current :: stack → d ∈ current :: visited ∨
          d ∈ (dependenciesOf dependencies current).reverse ++ stack := by
        rintro d (hd | hd)
        · exact Or.inl (List.mem_cons_of_mem _ hd)
        · rcases List.mem_cons.mp hd with rfl | hd
          · exact Or.inl List.mem_cons_self
          · exact Or.inr (List.mem_append_right _ hd)
      refine ih (fun n hn => ?_) h (hmove node hnode)
      rcases List.mem_cons.mp hn with rfl | hn
      · exact ⟨hne, fun d hd => Or.inr (List.mem_append_left _ (List.mem_reverse.mpr hd))⟩
      · exact ⟨(hclosed n hn).1, fun d hd => hmove d ((hclosed n hn).2 d hd)⟩

/-- **A new dependency would close a cycle exactly when there is a path back.** -/
theorem wouldCreateCycle_iff : wouldCreateCycle dependencies dependent dependency = true ↔
    ReflTransGen (DependsOn dependencies) dependency dependent := by
  have hloop : cycleLoop dependencies dependent (cycleTurns dependencies) [] [dependency] =
      some (wouldCreateCycle dependencies dependent dependency) := (Option.some_get _).symm
  rcases hfound : wouldCreateCycle dependencies dependent dependency with _ | _
  · rw [hfound] at hloop
    have hclosed : Closed dependencies dependent [] [dependency] :=
      fun _ hn => absurd hn List.not_mem_nil
    exact iff_of_false Bool.false_ne_true
      (no_path_of_cycleLoop hclosed hloop (Or.inr (List.mem_singleton_self _)))
  · rw [hfound] at hloop
    obtain ⟨node, hnode, hpath⟩ := path_of_cycleLoop hloop
    obtain rfl := List.mem_singleton.mp hnode
    exact iff_of_true rfl hpath

/-! ### Searching depth first -/

/-- The sets of the depth-first search. -/
structure SearchState where
  /-- The operations reached. -/
  visited : List ℕ
  /-- The operations on the current path. -/
  recStack : List ℕ
  deriving DecidableEq, Repr

/-- Search from neighbours one after the other. A neighbour is on the path already, or the search
from it finds a cycle. -/
def searchNeighbors (search : ℕ → SearchState → Option (Bool × SearchState)) :
    List ℕ → SearchState → Option (Bool × SearchState)
  | [], state => some (false, state)
  | neighbor :: rest, state =>
    if neighbor ∉ state.visited then
      match search neighbor state with
      | some (false, state) =>
        if neighbor ∈ state.recStack then some (true, state)
        else searchNeighbors search rest state
      | other => other
    else if neighbor ∈ state.recStack then some (true, state)
    else searchNeighbors search rest state

/-- **Search from a node**; `none` when the depth allowed is reached. -/
def hasCycle (dependencies : HashMap (List ℕ)) :
    ℕ → ℕ → SearchState → Option (Bool × SearchState)
  | 0, _, _ => none
  | depth + 1, node, state =>
    match searchNeighbors (hasCycle dependencies depth) (dependenciesOf dependencies node)
        ⟨node :: state.visited, node :: state.recStack⟩ with
    | some (false, state) => some (false, { state with recStack := state.recStack.erase node })
    | other => other

/-- Search from the operations that were not reached yet, each with a path of its own. -/
def searchAll (dependencies : HashMap (List ℕ)) : List ℕ → (visited : List ℕ) → Option Bool
  | [], _ => some false
  | node :: rest, visited =>
    if node ∈ visited then searchAll dependencies rest visited
    else
      match hasCycle dependencies (dependencies.keys.length + 1) node ⟨visited, []⟩ with
      | some (false, state) => searchAll dependencies rest state.visited
      | some (true, _) => some true
      | none => none

/-- There is a cycle. -/
def Circular (dependencies : HashMap (List ℕ)) : Prop :=
  ∃ node, TransGen (DependsOn dependencies) node node

/-- **How a search ends**: it finds nothing, reaches more, and the path is what it was; or it finds
something, and there is a cycle. -/
def Concludes (dependencies : HashMap (List ℕ)) (result : Option (Bool × SearchState))
    (state : SearchState) : Prop :=
  (∃ t, result = some (false, t) ∧ t.recStack = state.recStack ∧
      ∀ node ∈ state.visited, node ∈ t.visited) ∨
    ∃ t, result = some (true, t) ∧ Circular dependencies

/-- Searching from neighbours ends as each search does. -/
theorem concludes_searchNeighbors {search : ℕ → SearchState → Option (Bool × SearchState)}
    {neighbors : List ℕ} {state : SearchState}
    (hsearch : ∀ n ∈ neighbors, ∀ s : SearchState, s.recStack = state.recStack →
      (∀ node ∈ state.visited, node ∈ s.visited) → n ∉ s.visited →
      Concludes dependencies (search n s) s)
    (hcycle : ∀ n ∈ neighbors, n ∈ state.recStack → Circular dependencies) :
    Concludes dependencies (searchNeighbors search neighbors state) state := by
  induction neighbors generalizing state with
  | nil => exact Or.inl ⟨state, rfl, rfl, fun _ h => h⟩
  | cons n rest ih =>
    have hfound := hcycle n List.mem_cons_self
    -- what is left to do once the search from the first neighbour found nothing
    have hrest : ∀ s : SearchState, s.recStack = state.recStack →
        (∀ node ∈ state.visited, node ∈ s.visited) →
        Concludes dependencies (searchNeighbors search rest s) state := by
      intro s hpath hvis
      have hconcludes : Concludes dependencies (searchNeighbors search rest s) s :=
        ih (fun m hm u hu hreach => hsearch m (List.mem_cons_of_mem _ hm) u (hu.trans hpath)
            fun node hn => hreach node (hvis node hn))
          fun m hm hstack => hcycle m (List.mem_cons_of_mem _ hm) (hpath ▸ hstack)
      refine hconcludes.imp_left ?_
      rintro ⟨t, ht, hpath', hvis'⟩
      exact ⟨t, ht, hpath'.trans hpath, fun node hn => hvis' node (hvis node hn)⟩
    rw [searchNeighbors]
    by_cases hvis : n ∉ state.visited
    · rw [if_pos hvis]
      rcases hsearch n List.mem_cons_self state rfl (fun _ h => h) hvis with
        ⟨t, ht, hpath, hreach⟩ | ⟨t, ht, hcircular⟩
      · rw [ht]
        dsimp only
        split
        · rename_i hstack
          exact Or.inr ⟨t, rfl, hfound (hpath ▸ hstack)⟩
        · exact hrest t hpath hreach
      · rw [ht]
        exact Or.inr ⟨t, rfl, hcircular⟩
    · rw [if_neg hvis]
      split
      · rename_i hstack
        exact Or.inr ⟨state, rfl, hfound hstack⟩
      · exact hrest state rfl fun _ h => h

/-- **A search from a node ends** when the depth allowed exceeds the number of operations with
dependencies that were not reached, and what it finds is a cycle when the path leads to the
node. -/
theorem concludes_hasCycle {depth node : ℕ} {state : SearchState}
    (h : (dependencies.keys.toFinset \ state.visited.toFinset).card < depth)
    (hnode : node ∉ state.visited)
    (hpath : ∀ n ∈ state.recStack, TransGen (DependsOn dependencies) n node) :
    Concludes dependencies (hasCycle dependencies depth node state) state := by
  induction depth generalizing node state with
  | zero => exact absurd h (Nat.not_lt_zero _)
  | succ depth ih =>
    -- the path leads to the node, and the node to what it depends on
    have hleads : ∀ d, DependsOn dependencies node d → ∀ n ∈ node :: state.recStack,
        TransGen (DependsOn dependencies) n d := by
      intro d hd n hn
      rcases List.mem_cons.mp hn with rfl | hn
      · exact .single hd
      · exact (hpath n hn).tail hd
    have hall : Concludes dependencies
        (searchNeighbors (hasCycle dependencies depth) (dependenciesOf dependencies node)
          ⟨node :: state.visited, node :: state.recStack⟩)
        ⟨node :: state.visited, node :: state.recStack⟩ := by
      refine concludes_searchNeighbors (fun d hd s hs hreach hvis => ih ?_ hvis ?_) ?_
      · -- the node has dependencies; reached, it is one fewer of those that are not
        have hkey : node ∈ dependencies.keys.toFinset := by
          rw [List.mem_toFinset, ← AList.mem_keys, ← AList.lookup_isSome]
          rcases hl : dependencies.lookup node with _ | l
          · simp [dependenciesOf, hl] at hd
          · rfl
        have hlt := card_sdiff_cons_lt hkey hnode
        have hle : (dependencies.keys.toFinset \ s.visited.toFinset).card ≤
            (dependencies.keys.toFinset \ (node :: state.visited).toFinset).card := by
          refine Finset.card_le_card (Finset.sdiff_subset_sdiff (Finset.Subset.refl _) ?_)
          exact fun n hn => List.mem_toFinset.mpr (hreach n (List.mem_toFinset.mp hn))
        omega
      · rw [hs]
        exact hleads d hd
      · exact fun d hd hstack => ⟨d, hleads d hd d hstack⟩
    rw [hasCycle]
    rcases hall with ⟨t, ht, hstack, hreach⟩ | ⟨t, ht, hcircular⟩
    · rw [ht]
      refine Or.inl ⟨_, rfl, ?_, fun n hn => hreach n (List.mem_cons_of_mem _ hn)⟩
      rw [hstack]
      exact List.erase_cons_head ..
    · rw [ht]
      exact Or.inr ⟨t, rfl, hcircular⟩

/-- The search from all operations ends, and what it finds is a cycle. -/
theorem searchAll_cases (order visited : List ℕ) :
    searchAll dependencies order visited = some false ∨
      searchAll dependencies order visited = some true ∧ Circular dependencies := by
  induction order generalizing visited with
  | nil => exact Or.inl rfl
  | cons node rest ih =>
    rw [searchAll]
    by_cases hvis : node ∈ visited
    · rw [if_pos hvis]
      exact ih visited
    rw [if_neg hvis]
    have hcard : (dependencies.keys.toFinset \ visited.toFinset).card <
        dependencies.keys.length + 1 :=
      Nat.lt_succ_of_le ((Finset.card_le_card Finset.sdiff_subset).trans
        (List.toFinset_card_le _))
    have hsearch : Concludes dependencies
        (hasCycle dependencies (dependencies.keys.length + 1) node ⟨visited, []⟩) ⟨visited, []⟩ :=
      concludes_hasCycle hcard hvis fun _ hn => absurd hn List.not_mem_nil
    rcases hsearch with ⟨t, ht, -, -⟩ | ⟨t, ht, hcircular⟩
    · rw [ht]
      exact ih t.visited
    · rw [ht]
      exact Or.inr ⟨rfl, hcircular⟩

theorem searchAll_isSome (dependencies : HashMap (List ℕ)) (order : List ℕ) :
    (searchAll dependencies order []).isSome := by
  rcases @searchAll_cases dependencies order [] with h | ⟨h, -⟩ <;> rw [h] <;> rfl

/-- **Whether there are circular dependencies**, the operations that have any coming in the order
`order`. -/
def hasCircularDependencies (dependencies : HashMap (List ℕ)) (order : List ℕ) : Bool :=
  (searchAll dependencies order []).get (searchAll_isSome dependencies order)

/-- **Where there is no cycle, none is found**, in whatever order the operations come. -/
theorem hasCircularDependencies_eq_false (h : Acyclic (DependsOn dependencies)) (order : List ℕ) :
    hasCircularDependencies dependencies order = false := by
  have hfound : searchAll dependencies order [] =
      some (hasCircularDependencies dependencies order) := (Option.some_get _).symm
  rcases @searchAll_cases dependencies order [] with hnone | ⟨-, node, hcycle⟩
  · exact Option.some.inj (hfound.symm.trans hnone)
  · exact absurd hcycle (h node)

end DependencyValidator

end SaferRing
