import Mathlib.Data.Nat.Cast.Basic
import SaferRing.Library.Json.Tokens

/-!
# Values of JSON

A value (`Json.Value`) has its tokens, and a text that has them is a text for it (`Json.Reads`).
No text is a text for two values: `Json.Reads.unique`. It rests on `Json.tokens_inj`: where a value
ends is seen from its tokens.
-/

namespace Json

/-- **The values.** -/
inductive Value
  | null
  | boolean (b : Bool)
  | number (text : List Char)
  | string (text : List Char)
  | array (items : List Value)
  | object (members : List (List Char × Value))
  deriving Repr

/-! ### The tokens of a value -/

mutual

/-- **The tokens of a value.** -/
def Value.tokens : Value → List Token
  | .null => [.null]
  | .boolean b => [.boolean b]
  | .number text => [.number text]
  | .string text => [.string text]
  | .array items => .lbracket :: itemTokens items
  | .object members => .lbrace :: memberTokens members

/-- The tokens of an array behind its first bracket. -/
def itemTokens : List Value → List Token
  | [] => [.rbracket]
  | v :: items => v.tokens ++ moreItems items

/-- The tokens of an array behind one of its items. -/
def moreItems : List Value → List Token
  | [] => [.rbracket]
  | v :: items => .comma :: v.tokens ++ moreItems items

/-- The tokens of an object behind its first bracket. -/
def memberTokens : List (List Char × Value) → List Token
  | [] => [.rbrace]
  | (name, v) :: members => .string name :: .colon :: v.tokens ++ moreMembers members

/-- The tokens of an object behind one of its members. -/
def moreMembers : List (List Char × Value) → List Token
  | [] => [.rbrace]
  | (name, v) :: members => .comma :: .string name :: .colon :: v.tokens ++ moreMembers members

end

section Values

variable {text : List Char} {v v' : Value}

/-- No value starts with the end of an array. -/
theorem tokens_ne_rbracket {rest rest' : List Token} :
    v.tokens ++ rest ≠ .rbracket :: rest' := by
  cases v <;> simp [Value.tokens]

mutual

/-- **Where a value ends** is seen from its tokens, and so is the value. -/
theorem tokens_inj (v : Value) {v' : Value} {rest rest' : List Token}
    (h : v.tokens ++ rest = v'.tokens ++ rest') : v = v' ∧ rest = rest' := by
  match v with
  | .null =>
    cases v' with
    | null => exact ⟨rfl, by simpa [Value.tokens] using h⟩
    | boolean | number | string | array | object => simp [Value.tokens] at h
  | .boolean b =>
    cases v' with
    | boolean b' => simpa [Value.tokens] using h
    | null | number | string | array | object => simp [Value.tokens] at h
  | .number text =>
    cases v' with
    | number text' => simpa [Value.tokens] using h
    | null | boolean | string | array | object => simp [Value.tokens] at h
  | .string text =>
    cases v' with
    | string text' => simpa [Value.tokens] using h
    | null | boolean | number | array | object => simp [Value.tokens] at h
  | .array items =>
    cases v' with
    | array items' =>
      obtain ⟨hitems, hrest⟩ := itemTokens_inj items (by simpa [Value.tokens] using h)
      exact ⟨by rw [hitems], hrest⟩
    | null | boolean | number | string | object => simp [Value.tokens] at h
  | .object members =>
    cases v' with
    | object members' =>
      obtain ⟨hmembers, hrest⟩ := memberTokens_inj members (by simpa [Value.tokens] using h)
      exact ⟨by rw [hmembers], hrest⟩
    | null | boolean | number | string | array => simp [Value.tokens] at h

/-- The same for the items of an array. -/
theorem itemTokens_inj (items : List Value) {items' : List Value} {rest rest' : List Token}
    (h : itemTokens items ++ rest = itemTokens items' ++ rest') :
    items = items' ∧ rest = rest' := by
  match items, items' with
  | [], [] => exact ⟨rfl, by simpa [itemTokens] using h⟩
  | [], v' :: items' =>
    rw [itemTokens, itemTokens, List.append_assoc] at h
    exact absurd h.symm tokens_ne_rbracket
  | v :: items, [] =>
    rw [itemTokens, itemTokens, List.append_assoc] at h
    exact absurd h tokens_ne_rbracket
  | v :: items, v' :: items' =>
    rw [itemTokens, itemTokens, List.append_assoc, List.append_assoc] at h
    obtain ⟨hv, hmore⟩ := tokens_inj v h
    obtain ⟨hitems, hrest⟩ := moreItems_inj items hmore
    exact ⟨by rw [hv, hitems], hrest⟩

/-- The same behind one of its items. -/
theorem moreItems_inj (items : List Value) {items' : List Value} {rest rest' : List Token}
    (h : moreItems items ++ rest = moreItems items' ++ rest') :
    items = items' ∧ rest = rest' := by
  match items, items' with
  | [], [] => exact ⟨rfl, by simpa [moreItems] using h⟩
  | [], _ :: _ => simp [moreItems] at h
  | _ :: _, [] => simp [moreItems] at h
  | v :: items, v' :: items' =>
    simp only [moreItems, List.cons_append, List.append_assoc, List.cons.injEq, true_and] at h
    obtain ⟨hv, hmore⟩ := tokens_inj v h
    obtain ⟨hitems, hrest⟩ := moreItems_inj items hmore
    exact ⟨by rw [hv, hitems], hrest⟩

/-- The same for the members of an object. -/
theorem memberTokens_inj (members : List (List Char × Value))
    {members' : List (List Char × Value)} {rest rest' : List Token}
    (h : memberTokens members ++ rest = memberTokens members' ++ rest') :
    members = members' ∧ rest = rest' := by
  match members, members' with
  | [], [] => exact ⟨rfl, by simpa [memberTokens] using h⟩
  | [], _ :: _ => simp [memberTokens] at h
  | _ :: _, [] => simp [memberTokens] at h
  | (name, v) :: members, (name', v') :: members' =>
    simp only [memberTokens, List.cons_append, List.append_assoc, List.cons.injEq,
      Token.string.injEq, true_and] at h
    obtain ⟨hv, hmore⟩ := tokens_inj v h.2
    obtain ⟨hmembers, hrest⟩ := moreMembers_inj members hmore
    exact ⟨by rw [h.1, hv, hmembers], hrest⟩

/-- The same behind one of its members. -/
theorem moreMembers_inj (members : List (List Char × Value))
    {members' : List (List Char × Value)} {rest rest' : List Token}
    (h : moreMembers members ++ rest = moreMembers members' ++ rest') :
    members = members' ∧ rest = rest' := by
  match members, members' with
  | [], [] => exact ⟨rfl, by simpa [moreMembers] using h⟩
  | [], _ :: _ => simp [moreMembers] at h
  | _ :: _, [] => simp [moreMembers] at h
  | (name, v) :: members, (name', v') :: members' =>
    simp only [moreMembers, List.cons_append, List.append_assoc, List.cons.injEq,
      Token.string.injEq, true_and] at h
    obtain ⟨hv, hmore⟩ := tokens_inj v h.2
    obtain ⟨hmembers, hrest⟩ := moreMembers_inj members hmore
    exact ⟨by rw [h.1, hv, hmembers], hrest⟩

end

/-- **A text for a value.** -/
def Reads (text : List Char) (v : Value) : Prop := lex text = some v.tokens

/-- **A text is for one value at most.** -/
theorem Reads.unique (h : Reads text v) (h' : Reads text v') : v = v' := by
  have heq : v.tokens ++ [] = v'.tokens ++ [] := by
    rw [List.append_nil, List.append_nil]
    exact Option.some.inj (h.symm.trans h')
  exact (tokens_inj v heq).1

/-- The integer a value is, if it is one. -/
def Value.asInt : Value → Option ℤ
  | .number text =>
    if isInt (absolute text) then
      let value : ℤ := Decimal.value (absolute text)
      some (if text.head? = some '-' then -value else value)
    else none
  | _ => none

/-- **An integer printed is that integer.** -/
theorem asInt_toString (i : ℤ) : (Value.number (toString i).toList).asInt = some i := by
  have hdigits := (Decimal.numeral_toDigits i.natAbs).not_mem (c := '-') (by decide)
  rw [Value.asInt, absolute_toString, if_pos (isInt_toDigits _), Decimal.value_toDigits]
  rcases toList_toString i with ⟨hi, heq⟩ | ⟨hi, heq⟩
  · have hhead : ¬(toString i).toList.head? = some '-' := by
      rw [heq]
      exact fun hsome => hdigits (List.mem_of_head? hsome)
    simp only [if_neg hhead]
    rw [Int.natAbs_of_nonneg hi]
  · have hhead : (toString i).toList.head? = some '-' := by
      rw [heq]
      rfl
    simp only [if_pos hhead]
    rw [Int.ofNat_natAbs_of_nonpos hi, Int.neg_neg]

end Values

end Json
