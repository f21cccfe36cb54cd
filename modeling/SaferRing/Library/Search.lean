import Mathlib.Data.List.Basic
import Mathlib.Logic.Relation

/-!
# Searching a graph with a stack

A search takes something from a stack, passes it over when it was visited before, and
otherwise looks at what depends on it, `r a b` being that `a` depends on `b`: what was not
visited is noted as found and put on the stack. So a thing can be found, and be on the stack,
more than once.

`Graph.Search` is what such a search keeps to: it starts so (`Graph.Search.initial`), and both
turns keep it (`Graph.Search.skip`, `Graph.Search.visit`). When the stack is empty, what was
found is, but for the start, everything that depends on it, directly or not:
`Graph.Search.found_iff`.
-/

namespace Graph

open Relation (TransGen)

variable {α : Type*} {r : α → α → Prop} {start current a : α}
  {visited found stack next : List α}

/-- **A search from a start**: what it has visited, what it has found, and what is on its
stack. -/
structure Search (r : α → α → Prop) (start : α) (visited found stack : List α) : Prop where
  /-- What was found depends on the start. -/
  sound : ∀ a ∈ found, TransGen r a start
  /-- What was seen is the start, or was found. -/
  origin : ∀ a, a ∈ visited ∨ a ∈ stack → a = start ∨ a ∈ found
  /-- The start was seen. -/
  started : start ∈ visited ∨ start ∈ stack
  /-- What depends on something visited was seen. -/
  closed : ∀ a b, b ∈ visited → r a b → a ∈ visited ∨ a ∈ stack

namespace Search

/-- A search starts with its start on the stack. -/
theorem initial : Search r start [] [] [start] where
  sound _ ha := absurd ha List.not_mem_nil
  origin _ ha := Or.inl (ha.elim (fun h => absurd h List.not_mem_nil) List.mem_singleton.mp)
  started := Or.inr List.mem_cons_self
  closed _ _ hb := absurd hb List.not_mem_nil

/-- What was visited is passed over. -/
theorem skip (h : Search r start visited found (current :: stack)) (hvis : current ∈ visited) :
    Search r start visited found stack := by
  have hseen : ∀ a, a ∈ visited ∨ a ∈ current :: stack → a ∈ visited ∨ a ∈ stack := by
    intro a ha
    rcases ha with ha | ha
    · exact Or.inl ha
    · rcases List.mem_cons.mp ha with rfl | ha
      · exact Or.inl hvis
      · exact Or.inr ha
  exact
    { sound := h.sound
      origin := fun a ha => h.origin a (ha.imp_right (List.mem_cons_of_mem _))
      started := hseen _ h.started
      closed := fun a b hb hab => hseen _ (h.closed a b hb hab) }

/-- **What was not visited is looked at**: what depends on it and was not visited is found, and
put on the stack. -/
theorem visit (h : Search r start visited found (current :: stack))
    (hnext : ∀ a, a ∈ next ↔ r a current ∧ a ∉ current :: visited) :
    Search r start (current :: visited) (found ++ next) (next.reverse ++ stack) := by
  have hcurrent := h.origin current (Or.inr List.mem_cons_self)
  have hseen : ∀ a, a ∈ visited ∨ a ∈ current :: stack →
      a ∈ current :: visited ∨ a ∈ next.reverse ++ stack := by
    intro a ha
    rcases ha with ha | ha
    · exact Or.inl (List.mem_cons_of_mem _ ha)
    · rcases List.mem_cons.mp ha with rfl | ha
      · exact Or.inl List.mem_cons_self
      · exact Or.inr (List.mem_append_right _ ha)
  refine ⟨fun a ha => ?_, fun a ha => ?_, hseen _ h.started, fun a b hb hab => ?_⟩
  · rcases List.mem_append.mp ha with ha | ha
    · exact h.sound a ha
    · -- a dependent of the start, or of something found
      have hstep := ((hnext a).mp ha).1
      rcases hcurrent with rfl | hfound
      · exact .single hstep
      · exact .head hstep (h.sound _ hfound)
  · have hbefore : a ∈ next ∨ a ∈ visited ∨ a ∈ current :: stack := by
      simp only [List.mem_cons, List.mem_append, List.mem_reverse] at ha ⊢
      tauto
    rcases hbefore with ha | ha
    · exact Or.inr (List.mem_append_right _ ha)
    · exact (h.origin a ha).imp_right (List.mem_append_left _)
  · rcases List.mem_cons.mp hb with rfl | hb
    · by_cases hvis : a ∈ b :: visited
      · exact Or.inl hvis
      · exact Or.inr (List.mem_append_left _ (List.mem_reverse.mpr ((hnext a).mpr ⟨hab, hvis⟩)))
    · exact hseen a (h.closed a b hb hab)

/-- **What a search has found when its stack is empty**: but for the start, everything that
depends on it. -/
theorem found_iff (h : Search r start visited found []) (ha : a ≠ start) :
    a ∈ found ↔ TransGen r a start := by
  refine ⟨h.sound a, fun hpath => ?_⟩
  have hstart : start ∈ visited := h.started.resolve_right List.not_mem_nil
  have hvis : a ∈ visited := by
    -- induction along the path, from the start back to `a`
    induction hpath using TransGen.head_induction_on with
    | single hstep => exact (h.closed _ _ hstart hstep).resolve_right List.not_mem_nil
    | head hstep _ ih =>
      rename_i x y _
      by_cases hy : y = start
      · exact (h.closed _ _ (hy ▸ hstart) hstep).resolve_right List.not_mem_nil
      · exact (h.closed _ _ (ih hy) hstep).resolve_right List.not_mem_nil
  exact (h.origin a (Or.inl hvis)).resolve_left ha

end Search

end Graph
