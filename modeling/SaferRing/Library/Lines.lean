import Mathlib.Algebra.BigOperators.Group.List.Basic
import Mathlib.Algebra.Ring.Nat
import Mathlib.Data.List.Forall2

/-!
# Lines

What is written item by item, with a separator at the end of each, is cut into lines at the
separators again (`Lines.lines`); what comes behind the last separator is no line yet.

The lines are the items when no item has a separator in it (`Lines.lines_ended`), and else there
are more of them (`Lines.length_lines_ended`). So **lines and items go together one by one exactly
when no item has a separator in it** and each goes together with itself as a line:
`Lines.forall₂_lines_iff`.
-/

namespace Lines

variable {α β : Type*} {sep : α} {text rest : List α} {items : List (List α)}

/-- **Items, each with a separator at its end.** -/
def ended (sep : α) (items : List (List α)) : List α := items.flatMap (· ++ [sep])

@[simp] theorem ended_nil : ended sep [] = [] := rfl

@[simp] theorem ended_cons :
    ended sep (text :: items) = text ++ sep :: ended sep items := by
  rw [ended, List.flatMap_cons, List.append_assoc]
  rfl

@[simp] theorem ended_append (items' : List (List α)) :
    ended sep (items ++ items') = ended sep items ++ ended sep items' :=
  List.flatMap_append

variable [DecidableEq α]

/-- **The lines of a text**: what its separators end. -/
def lines (sep : α) (text : List α) : List (List α) := (text.splitOn sep).dropLast

/-- The first separator ends the first line. -/
theorem lines_append_cons (h : sep ∉ text) :
    lines sep (text ++ sep :: rest) = text :: lines sep rest := by
  rw [lines, List.splitOn_append_cons_self_of_not_mem h,
    List.dropLast_cons_of_ne_nil (List.splitOn_ne_nil sep rest)]
  rfl

/-- Without a separator there is no line. -/
theorem lines_of_not_mem (h : sep ∉ text) : lines sep text = [] := by
  rw [lines, List.splitOn_eq_singleton h]
  rfl

/-- **There are as many lines as separators.** -/
theorem length_lines (text : List α) : (lines sep text).length = text.count sep := by
  have hsplit : (text.splitOn sep).length = text.count sep + 1 := by
    induction text with
    | nil => rfl
    | cons c text ih =>
      rw [List.splitOn_cons_eq_if_modifyHead, List.count_cons]
      split
      · rw [List.length_cons, ih]
      · rw [List.length_modifyHead, ih, Nat.add_zero]
  rw [lines, List.length_dropLast, hsplit, Nat.add_sub_cancel]

/-- **Items without a separator are the lines.** -/
theorem lines_ended (h : ∀ item ∈ items, sep ∉ item) : lines sep (ended sep items) = items := by
  induction items with
  | nil => exact lines_of_not_mem List.not_mem_nil
  | cons item items ih =>
    rw [List.forall_mem_cons] at h
    rw [ended_cons, lines_append_cons h.1, ih h.2]

/-- There is one line for each item, and one more for each separator in an item. -/
theorem length_lines_ended : (lines sep (ended sep items)).length =
    items.length + (items.map (List.count sep)).sum := by
  rw [length_lines]
  induction items with
  | nil => rfl
  | cons item items ih =>
    rw [ended_cons, List.count_append, List.count_cons_self, ih, List.map_cons, List.sum_cons,
      List.length_cons]
    omega

/-- **Lines and items go together** one by one exactly when no item has a separator in it, and
each goes together with itself as a line. -/
theorem forall₂_lines_iff {r : β → List α → Prop} {f : β → List α} {xs : List β} :
    List.Forall₂ r xs (lines sep (ended sep (xs.map f))) ↔ ∀ x ∈ xs, sep ∉ f x ∧ r x (f x) := by
  have hlines : (∀ x ∈ xs, sep ∉ f x) → lines sep (ended sep (xs.map f)) = xs.map f :=
    fun h => lines_ended (List.forall_mem_map.mpr h)
  constructor
  · intro h
    -- a separator in an item would make one line too many
    have hlen := h.length_eq
    rw [length_lines_ended, List.length_map, Nat.left_eq_add] at hlen
    have hfree : ∀ x ∈ xs, sep ∉ f x := fun x hx =>
      List.count_eq_zero.mp (List.sum_eq_zero_iff_forall_eq_nat.mp hlen _
        (List.mem_map_of_mem (List.mem_map_of_mem hx)))
    rw [hlines hfree, List.forall₂_map_right_iff, List.forall₂_same] at h
    exact fun x hx => ⟨hfree x hx, h x hx⟩
  · intro h
    rw [hlines fun x hx => (h x hx).1, List.forall₂_map_right_iff, List.forall₂_same]
    exact fun x hx => (h x hx).2

end Lines
