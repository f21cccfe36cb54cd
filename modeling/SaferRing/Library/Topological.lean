import Mathlib.Data.List.Basic
import Mathlib.Logic.Relation

/-!
# Topological orders

An order of things that depend on each other, `r a b` being that `a` depends on `b`, is
*topological* (`Graph.Topological`) when everything comes after what it depends on. It is
built from the end: `Graph.topological_concat`. The natural order of the first numbers is
topological exactly when dependencies lead to smaller numbers
(`Graph.topological_range`). There is one of everything only where dependencies make no cycle
(`Graph.Acyclic`, `Graph.Topological.acyclic`), and one more dependency makes none exactly when
there is no path back (`Graph.Acyclic.insert_iff`).
-/

namespace Graph

variable {α : Type*} {r : α → α → Prop} {l : List α} {a : α}

/-- **An order is topological** when everything in it comes after what it depends on. -/
def Topological (r : α → α → Prop) (order : List α) : Prop :=
  ∀ before a after, order = before ++ a :: after → ∀ b, r a b → b ∈ before

/-- Nothing depends on itself, directly or not. -/
def Acyclic (r : α → α → Prop) : Prop := ∀ a, ¬Relation.TransGen r a a

/-- What a closed set leads to is in it. -/
theorem closed_of_reflTransGen {P : α → Prop} {b : α} (hclosed : ∀ x y, P x → r x y → P y)
    (h : Relation.ReflTransGen r a b) (ha : P a) : P b := by
  induction h with
  | refl => exact ha
  | tail _ hstep ih => exact hclosed _ _ ih hstep

/-- A path in a graph with one more edge is one without it, or leads through it. -/
theorem transGen_insert {a b x y : α}
    (h : Relation.TransGen (fun x y => r x y ∨ x = a ∧ y = b) x y) :
    Relation.TransGen r x y ∨
      Relation.ReflTransGen r x a ∧ Relation.ReflTransGen r b y := by
  induction h with
  | single hstep =>
    rcases hstep with hstep | ⟨rfl, rfl⟩
    · exact Or.inl (.single hstep)
    · exact Or.inr ⟨.refl, .refl⟩
  | tail _ hstep ih =>
    rcases hstep with hstep | ⟨rfl, rfl⟩
    · exact ih.imp (fun h => h.tail hstep) fun h => ⟨h.1, h.2.tail hstep⟩
    · exact Or.inr ⟨ih.elim (fun h => h.to_reflTransGen) And.left, .refl⟩

/-- **One more dependency closes no cycle** unless there is a path back. -/
theorem Acyclic.insert {a b : α} (h : Acyclic r) (hback : ¬Relation.ReflTransGen r b a) :
    Acyclic fun x y => r x y ∨ x = a ∧ y = b := by
  intro x hx
  rcases transGen_insert hx with hx | ⟨hxa, hbx⟩
  · exact h x hx
  · exact hback (hbx.trans hxa)

/-- **One more dependency closes a cycle exactly when there is a path back.** -/
theorem Acyclic.insert_iff {a b : α} (h : Acyclic r) :
    (Acyclic fun x y => r x y ∨ x = a ∧ y = b) ↔ ¬Relation.ReflTransGen r b a := by
  refine ⟨fun hmore hback => hmore a ?_, h.insert⟩
  have hpath : Relation.ReflTransGen (fun x y => r x y ∨ x = a ∧ y = b) b a :=
    Relation.ReflTransGen.mono (fun _ _ hxy => Or.inl hxy) _ _ hback
  exact .head' (Or.inr ⟨rfl, rfl⟩) hpath

theorem topological_nil : Topological r [] :=
  fun _ _ _ h => absurd h.symm (by simp)

/-- **One more comes last** after what it depends on. -/
theorem topological_concat :
    Topological r (l ++ [a]) ↔ Topological r l ∧ ∀ b, r a b → b ∈ l := by
  constructor
  · intro h
    refine ⟨fun before x after hl b hb => ?_, fun b hb => h l a [] rfl b hb⟩
    exact h before x (after ++ [a]) (by rw [hl, List.append_assoc, List.cons_append]) b hb
  · rintro ⟨hl, ha⟩ before x after heq b hb
    -- the last place is `x`'s, or `x` has its place in `l`
    rcases List.eq_nil_or_concat after with rfl | ⟨rest, y, rfl⟩
    · obtain ⟨rfl, hx⟩ := List.append_inj' heq rfl
      obtain rfl := List.singleton_inj.mp hx
      exact ha b hb
    · rw [List.concat_eq_append, ← List.cons_append, ← List.append_assoc] at heq
      obtain ⟨rfl, -⟩ := List.append_inj' heq rfl
      exact hl before x rest rfl b hb

/-- **What something depends on has an earlier place** in a topological order. -/
theorem Topological.idxOf_lt [DecidableEq α] {b : α} (h : Topological r l) (ha : a ∈ l)
    (hab : r a b) : l.idxOf b < l.idxOf a := by
  obtain ⟨before, after, rfl, hfirst⟩ := List.eq_append_cons_of_mem ha
  have hb : b ∈ before := h before a after rfl b hab
  rw [List.idxOf_append_of_mem hb, List.idxOf_append_of_notMem hfirst, List.idxOf_cons_self]
  exact Nat.lt_add_right _ (List.idxOf_lt_length_of_mem hb)

/-- **Where everything that depends on something is in a topological order, there is no
cycle**: along one, places would get earlier and earlier. -/
theorem Topological.acyclic [DecidableEq α] (h : Topological r l) (hall : ∀ a b, r a b → a ∈ l) :
    Acyclic r := by
  intro a ha
  have hearlier : ∀ b, Relation.TransGen r a b → l.idxOf b < l.idxOf a := by
    intro b hab
    induction hab with
    | single hstep => exact h.idxOf_lt (hall _ _ hstep) hstep
    | tail _ hstep ih => exact Nat.lt_trans (h.idxOf_lt (hall _ _ hstep) hstep) ih
  exact Nat.lt_irrefl _ (hearlier a ha)

/-- **The first numbers in order** are in a topological one when dependencies lead to smaller
numbers. -/
theorem topological_range {r : ℕ → ℕ → Prop} {k : ℕ} :
    Topological r (List.range k) ↔ ∀ i < k, ∀ j, r i j → j < i := by
  induction k with
  | zero => exact iff_of_true topological_nil fun i hi => absurd hi (Nat.not_lt_zero i)
  | succ k ih =>
    rw [List.range_succ, topological_concat, ih]
    simp only [List.mem_range]
    constructor
    · rintro ⟨h, hk⟩ i hi
      rcases Nat.lt_succ_iff_lt_or_eq.mp hi with hi | rfl
      · exact h i hi
      · exact hk
    · exact fun h => ⟨fun i hi => h i (Nat.lt_succ_of_lt hi), h k (Nat.lt_succ_self k)⟩

end Graph
