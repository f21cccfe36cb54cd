import Mathlib.Data.Nat.Notation
import Mathlib.Logic.Basic

/-!
# Reading item by item

A scanner (`Scanner`) reads items off the front of a list until it comes to a stop, or fails. As
every item takes something off the list, it reads no more items than the list is long
(`Scanner.run`), and how it goes on depends on what is left only: `Scanner.run_stop`,
`Scanner.run_item` and `Scanner.run_fail` are how it is computed, and
`Scanner.run_induction` is what holds of whatever it has read. What is read as far as a predicate
holds is `Scanner.takeWhile_append`.
-/

/-- **A scanner**: what it makes of a list, an item or a stop, and what is left then. -/
structure Scanner (α β : Type*) where
  /-- One step; `none` is a failure. -/
  step : List α → Option (Option β × List α)
  /-- An item takes something off the list. -/
  advances : ∀ {text item rest}, step text = some (some item, rest) → rest.length < text.length

namespace Scanner

variable {α β : Type*} (S : Scanner α β) {text rest last : List α} {item : β} {items : List β}
  {n : ℕ}

/-- The loop of a scanner, with the items it may read. -/
def loop : ℕ → List α → Option (List β × List α)
  | 0, _ => none
  | n + 1, text =>
    match S.step text with
    | none => none
    | some (none, rest) => some ([], rest)
    | some (some item, rest) => (loop n rest).map (Prod.map (item :: ·) id)

/-- **What a scanner reads**, and what it leaves. -/
def run (text : List α) : Option (List β × List α) := S.loop (text.length + 1) text

variable {S}

/-- More items than the list is long make no difference. -/
theorem loop_eq_run (h : text.length < n) : S.loop n text = S.run text := by
  -- two loops that may read enough items each agree
  have hagree : ∀ (m n : ℕ) (text : List α), text.length < m → text.length < n →
      S.loop m text = S.loop n text := by
    intro m
    induction m with
    | zero => exact fun n text hm => absurd hm (Nat.not_lt_zero _)
    | succ m ih =>
      intro n text hm hn
      obtain ⟨n, rfl⟩ := Nat.exists_eq_succ_of_ne_zero (Nat.ne_of_gt (Nat.zero_lt_of_lt hn))
      rw [loop, loop]
      rcases hstep : S.step text with _ | ⟨_ | item, rest⟩
      · rfl
      · rfl
      · have hlt := S.advances hstep
        simp only [ih n rest (by omega) (by omega)]
  exact hagree n (text.length + 1) text h (Nat.lt_succ_self _)

/-- A scanner stops. -/
theorem run_stop (h : S.step text = some (none, rest)) : S.run text = some ([], rest) := by
  rw [run, loop, h]

/-- A scanner fails. -/
theorem run_fail (h : S.step text = none) : S.run text = none := by
  rw [run, loop, h]

/-- **A scanner reads an item** and goes on with what is left. -/
theorem run_item (h : S.step text = some (some item, rest)) :
    S.run text = (S.run rest).map (Prod.map (item :: ·) id) := by
  have hrest : S.loop text.length rest = S.run rest := loop_eq_run (S.advances h)
  rw [run, loop, h]
  simp only [hrest]

/-- **What holds of all that is read**: it holds at a stop, and is kept by an item in front. -/
theorem run_induction {motive : List α → List β → List α → Prop}
    (hstop : ∀ text rest, S.step text = some (none, rest) → motive text [] rest)
    (hitem : ∀ text item rest items last, S.step text = some (some item, rest) →
      motive rest items last → motive text (item :: items) last)
    (h : S.run text = some (items, last)) : motive text items last := by
  -- induction on the items
  induction items generalizing text with
  | nil =>
    rcases hstep : S.step text with _ | ⟨_ | item, rest⟩
    · rw [run_fail hstep] at h
      cases h
    · rw [run_stop hstep] at h
      obtain ⟨-, rfl⟩ := Prod.mk.inj (Option.some.inj h)
      exact hstop text _ hstep
    · rw [run_item hstep] at h
      obtain ⟨r, -, hr⟩ := Option.map_eq_some_iff.mp h
      exact absurd (Prod.mk.inj hr).1 (List.cons_ne_nil _ _)
  | cons first items ih =>
    rcases hstep : S.step text with _ | ⟨_ | item, rest⟩
    · rw [run_fail hstep] at h
      cases h
    · rw [run_stop hstep] at h
      exact absurd (Prod.mk.inj (Option.some.inj h)).1 (List.cons_ne_nil _ _).symm
    · rw [run_item hstep] at h
      obtain ⟨⟨items', last'⟩, hrest, hr⟩ := Option.map_eq_some_iff.mp h
      obtain ⟨hcons, rfl⟩ := Prod.mk.inj hr
      obtain ⟨rfl, rfl⟩ := List.cons.inj hcons
      exact hitem text _ rest _ _ hstep (ih hrest)

/-! ### As far as a predicate holds -/

section While

variable {p : α → Bool}

/-- What a predicate holds of is taken as far as it goes. -/
theorem takeWhile_append (h : ∀ a ∈ text, p a) (hrest : ∀ a, rest.head? = some a → ¬p a) :
    (text ++ rest).takeWhile p = text := by
  rw [List.takeWhile_append_of_pos h]
  rcases rest with _ | ⟨a, rest⟩
  · rw [List.takeWhile_nil, List.append_nil]
  · rw [List.takeWhile_cons_of_neg (hrest a rfl), List.append_nil]

/-- What is left then starts with something it does not hold of. -/
theorem dropWhile_append (h : ∀ a ∈ text, p a) (hrest : ∀ a, rest.head? = some a → ¬p a) :
    (text ++ rest).dropWhile p = rest := by
  rw [List.dropWhile_append_of_pos h]
  rcases rest with _ | ⟨a, rest⟩
  · rfl
  · rw [List.dropWhile_cons_of_neg (hrest a rfl)]

end While

end Scanner
