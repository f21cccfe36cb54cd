import Mathlib.Data.Finset.Card
import Mathlib.Data.Finset.SDiff
import SaferRing.Operation

/-!
# The order of a batch

A batch lists its operations and, for some of them, the operations they depend on.
`SaferRing.DependencyValidator.dependencyOrder` sorts them depth first: an operation
is put out once everything it depends on is, and coming back to an operation on the
path to itself is an error.

The source recurses along dependencies without a bound. Here the recursion carries
one, the number of operations that have dependencies and are not on the current
path, and `SaferRing.DependencyValidator.visitAll_isSome` is that it is never
reached.
-/

namespace SaferRing

/-- **One step uses up a node**: marking a node of `s` that was not marked leaves
fewer of them unmarked. -/
theorem card_sdiff_cons_lt {s : Finset ℕ} {l : List ℕ} {a : ℕ} (ha : a ∈ s) (hl : a ∉ l) :
    (s \ (a :: l).toFinset).card < (s \ l.toFinset).card := by
  refine Finset.card_lt_card ⟨fun x hx => ?_, fun hsub => ?_⟩
  · obtain ⟨hs, hn⟩ := Finset.mem_sdiff.mp hx
    exact Finset.mem_sdiff.mpr ⟨hs, fun hc => hn (by simp [List.mem_toFinset.mp hc])⟩
  · have hmem : a ∈ s \ l.toFinset := Finset.mem_sdiff.mpr ⟨ha, by simpa using hl⟩
    exact (Finset.mem_sdiff.mp (hsub hmem)).2 (by simp)

/-- The dependencies listed for an operation. -/
def dependenciesOf (dependencies : HashMap (List ℕ)) (node : ℕ) : List ℕ :=
  (dependencies.lookup node).getD []

namespace DependencyValidator

/-- The sets and the output of the depth-first sort. -/
structure VisitState where
  /-- The operations put out. -/
  visited : List ℕ
  /-- The operations on the current path. -/
  tempVisited : List ℕ
  /-- The output. -/
  result : List ℕ
  deriving DecidableEq, Repr

/-- The error of a cycle. -/
def circular : SaferRingError := .ioNew .invalidInput "Circular dependency detected"

/-- Visit nodes one after the other, stopping at an error. -/
def visitAll (visit : ℕ → VisitState → Option (Except SaferRingError VisitState)) :
    List ℕ → VisitState → Option (Except SaferRingError VisitState)
  | [], state => some (.ok state)
  | node :: rest, state =>
    match visit node state with
    | some (.ok state) => visitAll visit rest state
    | other => other

/-- **Visit a node**, after the nodes it depends on; `none` when the depth allowed
is reached. -/
def visitNode (dependencies : HashMap (List ℕ)) :
    ℕ → ℕ → VisitState → Option (Except SaferRingError VisitState)
  | 0, _, _ => none
  | depth + 1, node, state =>
    if node ∈ state.tempVisited then some (.error circular)
    else if node ∈ state.visited then some (.ok state)
    else
      match visitAll (visitNode dependencies depth) (dependenciesOf dependencies node)
          { state with tempVisited := node :: state.tempVisited } with
      | some (.ok state) =>
        some (.ok ⟨node :: state.visited, state.tempVisited.erase node, state.result ++ [node]⟩)
      | other => other

/-- Visit the nodes that were not put out yet. -/
def visitFresh (dependencies : HashMap (List ℕ)) (node : ℕ) (state : VisitState) :
    Option (Except SaferRingError VisitState) :=
  if node ∈ state.visited then some (.ok state)
  else visitNode dependencies (dependencies.keys.length + 1) node state

/-! ### The depth suffices -/

variable {dependencies : HashMap (List ℕ)}

/-- A visit ends, and when it is successful the current path is what it was. -/
def Ends (result : Option (Except SaferRingError VisitState)) (state : VisitState) : Prop :=
  result.isSome ∧ ∀ state', result = some (.ok state') → state'.tempVisited = state.tempVisited

theorem ends_ok {state : VisitState} : Ends (some (.ok state)) state :=
  ⟨rfl, fun _ h => by rw [Except.ok.inj (Option.some.inj h)]⟩

theorem ends_error {state : VisitState} {e : SaferRingError} : Ends (some (.error e)) state :=
  ⟨rfl, fun _ h => absurd (Option.some.inj h) (by simp)⟩

/-- Visiting nodes one after the other ends when each visit does. -/
theorem ends_visitAll {visit : ℕ → VisitState → Option (Except SaferRingError VisitState)}
    {nodes : List ℕ} {state : VisitState}
    (h : ∀ node ∈ nodes, ∀ s : VisitState, s.tempVisited = state.tempVisited →
      Ends (visit node s) s) : Ends (visitAll visit nodes state) state := by
  induction nodes generalizing state with
  | nil => exact ends_ok
  | cons node rest ih =>
    obtain ⟨hsome, htemp⟩ := h node List.mem_cons_self state rfl
    obtain ⟨r, hr⟩ := Option.isSome_iff_exists.mp hsome
    rcases r with e | s
    · rw [visitAll, hr]
      exact ends_error
    · have hs := htemp s hr
      have hrest : Ends (visitAll visit rest s) s :=
        ih fun n hn t ht => h n (List.mem_cons_of_mem _ hn) t (ht.trans hs)
      rw [visitAll, hr]
      exact ⟨hrest.1, fun t ht => (hrest.2 t ht).trans hs⟩

/-- The visit of a node ends when the depth allowed exceeds the number of operations
with dependencies that are off the current path. -/
theorem ends_visitNode {depth node : ℕ} {state : VisitState}
    (h : (dependencies.keys.toFinset \ state.tempVisited.toFinset).card < depth) :
    Ends (visitNode dependencies depth node state) state := by
  induction depth generalizing node state with
  | zero => exact absurd h (Nat.not_lt_zero _)
  | succ depth ih =>
    rw [visitNode]
    by_cases htemp : node ∈ state.tempVisited
    · rw [if_pos htemp]
      exact ends_error
    rw [if_neg htemp]
    by_cases hvis : node ∈ state.visited
    · rw [if_pos hvis]
      exact ends_ok
    rw [if_neg hvis]
    -- the node has dependencies, or there is nothing to visit; on the path, it is one fewer of
    -- those that are off it
    have hall : Ends (visitAll (visitNode dependencies depth) (dependenciesOf dependencies node)
        { state with tempVisited := node :: state.tempVisited })
        { state with tempVisited := node :: state.tempVisited } := by
      refine ends_visitAll fun n hn s hs => ih ?_
      have hkey : node ∈ dependencies.keys.toFinset := by
        rw [List.mem_toFinset, ← AList.mem_keys, ← AList.lookup_isSome]
        rcases hl : dependencies.lookup node with _ | l
        · simp [dependenciesOf, hl] at hn
        · rfl
      have hlt := card_sdiff_cons_lt hkey htemp
      rw [hs]
      exact Nat.lt_of_lt_of_le hlt (Nat.lt_succ_iff.mp h)
    obtain ⟨hsome, hpath⟩ := hall
    obtain ⟨r, hr⟩ := Option.isSome_iff_exists.mp hsome
    rcases r with e | s
    · rw [hr]
      exact ends_error
    · rw [hr]
      refine ⟨rfl, fun t ht => ?_⟩
      rw [Option.some.injEq, Except.ok.injEq] at ht
      rw [← ht, hpath s hr]
      exact List.erase_cons_head ..

/-- **The depth allowed suffices**, from an empty path. -/
theorem ends_visitFresh {node : ℕ} {state : VisitState} (h : state.tempVisited = []) :
    Ends (visitFresh dependencies node state) state := by
  rw [visitFresh]
  by_cases hvis : node ∈ state.visited
  · rw [if_pos hvis]
    exact ends_ok
  rw [if_neg hvis]
  refine ends_visitNode ?_
  rw [h, List.toFinset_nil, Finset.sdiff_empty]
  exact Nat.lt_succ_of_le (List.toFinset_card_le _)

/-- The sort of all operations ends. -/
theorem visitAll_isSome (dependencies : HashMap (List ℕ)) (operationCount : ℕ) :
    (visitAll (visitFresh dependencies) (List.range operationCount) ⟨[], [], []⟩).isSome :=
  (ends_visitAll fun _ _ _ hs => ends_visitFresh hs).1

/-- **The operations in dependency order**, or the error of a cycle. -/
def dependencyOrder (dependencies : HashMap (List ℕ)) (operationCount : ℕ) :
    Except SaferRingError (List ℕ) :=
  match (visitAll (visitFresh dependencies) (List.range operationCount) ⟨[], [], []⟩).get
      (visitAll_isSome dependencies operationCount) with
  | .ok state => .ok state.result
  | .error e => .error e

example : dependencyOrder (AList.insert 0 [2] (AList.insert 2 [1] ∅)) 3 = .ok [1, 2, 0] := by
  decide

end DependencyValidator

end SaferRing
