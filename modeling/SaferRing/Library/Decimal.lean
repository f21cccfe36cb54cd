import Mathlib.Data.Nat.Notation
import Mathlib.Logic.Basic

/-!
# Numbers in decimal

A numeral (`Decimal.Numeral`) is one digit or more, leading zeros included. What the standard
library of the source takes for an unsigned number (`Decimal.parse`) is a numeral, possibly behind
a plus sign, whose value is below the bound of its type: `Decimal.parse_eq_some_iff`. A number
that is printed, with `Nat.toDigits 10`, is read as itself: `Decimal.parse_toDigits`.
-/

namespace Decimal

/-- **A numeral**: digits, and at least one. -/
def Numeral (text : List Char) : Prop := text ≠ [] ∧ ∀ c ∈ text, c.isDigit

instance (text : List Char) : Decidable (Numeral text) :=
  @instDecidableAnd _ _ inferInstance (List.decidableBAll (fun c => c.isDigit = true) text)

/-- The value of a numeral. -/
def value (text : List Char) : ℕ := Nat.ofDigitChars 10 text 0

/-- A text without the plus sign it may start with. -/
def unsigned : List Char → List Char
  | '+' :: text => text
  | text => text

/-- **Read an unsigned number** below a bound. -/
def parse (bound : ℕ) (text : List Char) : Option ℕ :=
  if Numeral (unsigned text) ∧ value (unsigned text) < bound then some (value (unsigned text))
  else none

variable {bound n : ℕ} {text : List Char} {c : Char}

/-- A numeral has no plus sign. -/
theorem Numeral.unsigned_eq (h : Numeral text) : unsigned text = text := by
  rcases text with _ | ⟨c, text⟩
  · exact absurd rfl h.1
  · by_cases hc : c = '+'
    · rw [hc] at h
      exact absurd (h.2 '+' List.mem_cons_self) (by decide)
    · rw [unsigned]
      exact fun _ heq => hc (List.cons.inj heq).1

/-- A numeral has no character but digits. -/
theorem Numeral.not_mem (h : Numeral text) (hc : ¬c.isDigit) : c ∉ text :=
  fun hmem => hc (h.2 c hmem)

/-- **What is read as a number.** -/
theorem parse_eq_some_iff :
    parse bound text = some n ↔
      Numeral (unsigned text) ∧ value (unsigned text) = n ∧ n < bound := by
  rw [parse, Option.ite_none_right_eq_some, Option.some.injEq]
  constructor
  · rintro ⟨⟨hnum, hlt⟩, rfl⟩
    exact ⟨hnum, rfl, hlt⟩
  · rintro ⟨hnum, rfl, hlt⟩
    exact ⟨⟨hnum, hlt⟩, rfl⟩

/-- A numeral is read as its value, if it is read. -/
theorem Numeral.value_eq (h : Numeral text) (hparse : parse bound text = some n) :
    value text = n := by
  obtain ⟨-, hvalue, -⟩ := parse_eq_some_iff.mp hparse
  rwa [h.unsigned_eq] at hvalue

/-- **Anything else after a digit spoils a number.** -/
theorem parse_append_eq_none {digits : List Char} (h : Numeral digits) (hc : ¬c.isDigit) :
    parse bound (digits ++ c :: text) = none := by
  obtain ⟨d, rest, rfl⟩ := List.exists_cons_of_ne_nil h.1
  have hd : d ≠ '+' := by
    rintro rfl
    exact absurd (h.2 '+' List.mem_cons_self) (by decide)
  have hunsigned : unsigned (d :: rest ++ c :: text) = d :: rest ++ c :: text := by
    rw [List.cons_append, unsigned]
    exact fun _ heq => hd (List.cons.inj heq).1
  refine if_neg fun hall => hc ?_
  rw [hunsigned] at hall
  exact hall.1.2 c (List.mem_append_right _ List.mem_cons_self)

/-! ### Numbers printed -/

/-- What is printed is a numeral. -/
theorem numeral_toDigits (n : ℕ) : Numeral (Nat.toDigits 10 n) :=
  ⟨Nat.toDigits_ne_nil, fun _ => Nat.isDigit_of_mem_toDigits (by decide) (by decide)⟩

@[simp] theorem value_toDigits (n : ℕ) : value (Nat.toDigits 10 n) = n :=
  Nat.ofDigitChars_ten_toDigits

/-- **A number printed is read as itself.** -/
theorem parse_toDigits (h : n < bound) : parse bound (Nat.toDigits 10 n) = some n := by
  have hnum := numeral_toDigits n
  refine parse_eq_some_iff.mpr ?_
  rw [hnum.unsigned_eq]
  exact ⟨hnum, value_toDigits n, h⟩

end Decimal
