import Mathlib.Algebra.BigOperators.Group.List.Basic
import Mathlib.Algebra.Order.Group.Nat
import Mathlib.Algebra.Ring.Nat
import Mathlib.Data.List.TakeWhile
import SaferRing.Library.Decimal
import SaferRing.Library.Json.Strings

/-!
# Tokens of JSON

A text is taken apart into tokens (`Json.lex`): brackets, strings, numbers and words, between which
there may be white space. No text has fewer characters than its tokens need, and as many only if
there is nothing to escape in its strings but quotes: `Json.weight_le_of_lex`.
-/

namespace Json

/-! ### Numbers -/

/-- Whether a text is the integral part of a number. -/
def isInt : List Char → Bool
  | [] => false
  | c :: rest => c = '0' && rest.isEmpty || c.isDigit && c != '0' && rest.all Char.isDigit

/-- Whether a text is nothing, or the exponent of a number. -/
def isExponent : List Char → Bool
  | [] => true
  | e :: rest =>
    let digits :=
      match rest with
      | '+' :: digits | '-' :: digits => digits
      | digits => digits
    (e = 'e' || e = 'E') && !digits.isEmpty && digits.all Char.isDigit

/-- Whether a text is what may follow the integral part of a number. -/
def isFraction : List Char → Bool
  | '.' :: rest =>
    !(rest.takeWhile Char.isDigit).isEmpty && isExponent (rest.dropWhile Char.isDigit)
  | rest => isExponent rest

/-- A text without the minus sign it may start with. -/
def absolute : List Char → List Char
  | '-' :: text => text
  | text => text

/-- **Whether a text is a number.** -/
def isNumber (text : List Char) : Bool :=
  isInt ((absolute text).takeWhile Char.isDigit) &&
    isFraction ((absolute text).dropWhile Char.isDigit)

/-- Whether a character may be in a number. -/
def isNumberChar (c : Char) : Bool :=
  c.isDigit || c = '+' || c = '-' || c = '.' || c = 'e' || c = 'E'

section Numbers

variable {text : List Char} {c : Char} {n : ℕ} {i : ℤ}

/-- A number starts with a minus sign or a digit. -/
theorem head_of_isNumber (h : isNumber (c :: text)) : c = '-' ∨ c.isDigit := by
  by_cases hc : c = '-'
  · exact Or.inl hc
  refine Or.inr ?_
  have habs : absolute (c :: text) = c :: text := by
    rw [absolute]
    exact fun _ heq => hc (List.cons.inj heq).1
  rw [isNumber, habs, Bool.and_eq_true] at h
  by_contra hdigit
  rw [List.takeWhile_cons_of_neg hdigit] at h
  exact absurd h.1 (by decide)

/-- A number printed does not start with `0` unless it is `0`. -/
theorem toDigits_eq_cons (h : 0 < n) : ∃ c rest, Nat.toDigits 10 n = c :: rest ∧ c ≠ '0' := by
  -- induction on the number, the last digit being split off
  induction n using Nat.strongRecOn with
  | ind n ih =>
    by_cases hn : n < 10
    · refine ⟨n.digitChar, [], Nat.toDigits_of_lt_base hn, fun hzero => ?_⟩
      exact Nat.ne_of_gt h (Nat.digitChar_eq_zero.mp hzero)
    · obtain ⟨c, rest, heq, hc⟩ := ih (n / 10) (by omega) (by omega)
      refine ⟨c, rest ++ [(n % 10).digitChar], ?_, hc⟩
      rw [Nat.toDigits_of_base_le (by decide) (Nat.le_of_not_lt hn), heq, List.cons_append]

theorem isInt_toDigits (n : ℕ) : isInt (Nat.toDigits 10 n) := by
  rcases Nat.eq_zero_or_pos n with rfl | hpos
  · decide
  obtain ⟨c, rest, heq, hc⟩ := toDigits_eq_cons hpos
  have hdigits := (Decimal.numeral_toDigits n).2
  rw [heq] at hdigits ⊢
  obtain ⟨hdigit, hrest⟩ := List.forall_mem_cons.mp hdigits
  simp [isInt, hdigit, hc, List.all_eq_true.mpr hrest]

/-- How an integer is printed. -/
theorem toList_toString (i : ℤ) :
    0 ≤ i ∧ (toString i).toList = Nat.toDigits 10 i.natAbs ∨
      i ≤ 0 ∧ (toString i).toList = '-' :: Nat.toDigits 10 i.natAbs := by
  rcases i with n | n
  · refine Or.inl ⟨Int.natCast_nonneg n, ?_⟩
    rw [Int.toString_eq_repr, Int.repr, Nat.toList_repr]
    rfl
  · refine Or.inr ⟨Int.le_of_lt (Int.negSucc_lt_zero n), ?_⟩
    rw [Int.toString_eq_repr, Int.repr, String.toList_append, Nat.toList_repr]
    rfl

/-- A number printed has no minus sign. -/
theorem absolute_toDigits (n : ℕ) : absolute (Nat.toDigits 10 n) = Nat.toDigits 10 n := by
  rw [absolute.eq_def]
  split
  · rename_i heq
    have hminus := (Decimal.numeral_toDigits n).not_mem (c := '-') (by decide)
    rw [heq] at hminus
    exact absurd List.mem_cons_self hminus
  · rfl

theorem absolute_toString (i : ℤ) :
    absolute (toString i).toList = Nat.toDigits 10 i.natAbs := by
  rcases toList_toString i with ⟨-, h⟩ | ⟨-, h⟩
  · rw [h, absolute_toDigits]
  · rw [h, absolute]

/-- **An integer printed is a number.** -/
theorem isNumber_toString (i : ℤ) : isNumber (toString i).toList := by
  have hdigits := (Decimal.numeral_toDigits i.natAbs).2
  rw [isNumber, absolute_toString, List.takeWhile_eq_self_iff.mpr hdigits,
    List.dropWhile_eq_nil_iff.mpr hdigits, isInt_toDigits]
  rfl

theorem isNumberChar_of_isDigit (h : c.isDigit) : isNumberChar c := by
  simp [isNumberChar, h]

theorem isNumberChar_toString (i : ℤ) : ∀ c ∈ (toString i).toList, isNumberChar c := by
  have hdigits := (Decimal.numeral_toDigits i.natAbs).2
  rcases toList_toString i with ⟨-, h⟩ | ⟨-, h⟩
  · rw [h]
    exact fun c hc => isNumberChar_of_isDigit (hdigits c hc)
  · rw [h]
    exact List.forall_mem_cons.mpr ⟨by decide, fun c hc => isNumberChar_of_isDigit (hdigits c hc)⟩

end Numbers

/-! ### Tokens -/

/-- **The tokens.** -/
inductive Token
  | lbrace | rbrace | lbracket | rbracket | colon | comma
  | string (text : List Char)
  | number (text : List Char)
  | boolean (b : Bool)
  | null
  deriving DecidableEq, Repr

/-- White space. -/
def isSpace (c : Char) : Bool := c = ' ' || c = '\t' || c = '\n' || c = '\r'

/-- The tokens of one character. -/
def punctuation : Char → Option Token
  | '{' => some .lbrace
  | '}' => some .rbrace
  | '[' => some .lbracket
  | ']' => some .rbracket
  | ':' => some .colon
  | ',' => some .comma
  | _ => none

/-- The tokens that are words. -/
def readWord : List Char → Option (Token × List Char)
  | 't' :: 'r' :: 'u' :: 'e' :: rest => some (.boolean true, rest)
  | 'f' :: 'a' :: 'l' :: 's' :: 'e' :: rest => some (.boolean false, rest)
  | 'n' :: 'u' :: 'l' :: 'l' :: rest => some (.null, rest)
  | _ => none

/-- A number, as far as it goes. -/
def readNumber (text : List Char) : Option (Token × List Char) :=
  if isNumber (text.takeWhile isNumberChar) then
    some (.number (text.takeWhile isNumberChar), text.dropWhile isNumberChar)
  else none

/-- **The token a text starts with.** -/
def readToken : List Char → Option (Token × List Char)
  | [] => none
  | c :: rest =>
    match punctuation c with
    | some t => some (t, rest)
    | none =>
      if c = '"' then (readString rest).map fun r => (.string r.1, r.2)
      else if c = '-' || c.isDigit then readNumber (c :: rest)
      else readWord (c :: rest)

/-- One token, behind white space, or the end. -/
def lexStep (text : List Char) : Option (Option Token × List Char) :=
  match text.dropWhile isSpace with
  | [] => some (none, [])
  | c :: rest => (readToken (c :: rest)).map (Prod.map some id)

/-- How many characters a token needs. -/
def Token.weight : Token → ℕ
  | .string text => Json.weight text + 2
  | _ => 1

/-- There is nothing to escape in a token but quotes. -/
def Token.Plain : Token → Prop
  | .string text => Json.Plain text
  | _ => True

section Tokens

variable {text rest number : List Char} {t : Token} {c : Char} {tokens : List Token}

/-- **A token takes no fewer characters than it needs.** -/
theorem readToken_eq (h : readToken text = some (t, rest)) :
    ∃ used, text = used ++ rest ∧ t.weight ≤ used.length ∧
      (t.weight = used.length → t.Plain) := by
  rcases text with _ | ⟨c, text⟩
  · cases h
  rw [readToken] at h
  rcases hpunct : punctuation c with _ | p
  · simp only [hpunct] at h
    by_cases hquote : c = '"'
    · rw [if_pos hquote] at h
      obtain ⟨⟨s, rest'⟩, hs, hpair⟩ := Option.map_eq_some_iff.mp h
      obtain ⟨rfl, rfl⟩ := Prod.mk.inj hpair
      obtain ⟨used, rfl, -, hlen, hplain⟩ := readString_eq hs
      refine ⟨c :: (used ++ ['"']), by simp, ?_, fun heq => hplain ?_⟩
      · change weight s + 2 ≤ _
        rw [List.length_cons, List.length_append, List.length_singleton]
        omega
      · change weight s + 2 = _ at heq
        rw [List.length_cons, List.length_append, List.length_singleton] at heq
        omega
    rw [if_neg hquote] at h
    by_cases hnumber : (c = '-' || c.isDigit) = true
    · rw [if_pos hnumber, readNumber] at h
      obtain ⟨hnum, h⟩ := Option.ite_none_right_eq_some.mp h
      obtain ⟨rfl, rfl⟩ := Prod.mk.inj (Option.some.inj h)
      refine ⟨_, List.takeWhile_append_dropWhile.symm, ?_, fun _ => trivial⟩
      rcases hused : (c :: text).takeWhile isNumberChar with _ | ⟨d, used⟩
      · rw [hused] at hnum
        exact absurd hnum (by decide)
      · exact Nat.succ_le_succ (Nat.zero_le _)
    · rw [if_neg hnumber, readWord.eq_def] at h
      split at h
      · obtain ⟨rfl, rfl⟩ := Prod.mk.inj (Option.some.inj h)
        exact ⟨['t', 'r', 'u', 'e'], by simp_all, by decide, fun _ => trivial⟩
      · obtain ⟨rfl, rfl⟩ := Prod.mk.inj (Option.some.inj h)
        exact ⟨['f', 'a', 'l', 's', 'e'], by simp_all, by decide, fun _ => trivial⟩
      · obtain ⟨rfl, rfl⟩ := Prod.mk.inj (Option.some.inj h)
        exact ⟨['n', 'u', 'l', 'l'], by simp_all, by decide, fun _ => trivial⟩
      · cases h
  · simp only [hpunct] at h
    obtain ⟨rfl, rfl⟩ := Prod.mk.inj (Option.some.inj h)
    have hone : p.weight = 1 ∧ p.Plain := by
      unfold punctuation at hpunct
      split at hpunct
      all_goals first
        | (cases hpunct; done)
        | (obtain rfl := Option.some.inj hpunct; exact ⟨rfl, trivial⟩)
    exact ⟨[c], rfl, hone.1.le, fun _ => hone.2⟩

theorem Token.weight_pos : 0 < t.weight := by
  cases t <;> exact Nat.succ_pos _

/-- A token is behind white space. -/
theorem lexStep_eq (h : lexStep text = some (some t, rest)) :
    ∃ used, text = used ++ rest ∧ t.weight ≤ used.length ∧
      (t.weight = used.length → t.Plain) := by
  rw [lexStep] at h
  rcases htext : text.dropWhile isSpace with _ | ⟨c, text'⟩
  · rw [htext] at h
    exact absurd (Prod.mk.inj (Option.some.inj h)).1 (by simp)
  rw [htext] at h
  obtain ⟨⟨t', rest'⟩, htoken, hpair⟩ := Option.map_eq_some_iff.mp h
  obtain ⟨ht, rfl⟩ := Prod.mk.inj hpair
  obtain rfl := Option.some.inj ht
  obtain ⟨used, hused, hlen, hplain⟩ := readToken_eq htoken
  refine ⟨text.takeWhile isSpace ++ used, ?_, ?_, fun heq => hplain ?_⟩
  · rw [id_eq, List.append_assoc, ← hused, ← htext, List.takeWhile_append_dropWhile]
  · rw [List.length_append]
    omega
  · rw [List.length_append] at heq
    omega

/-- **The scanner of tokens.** -/
def lexScanner : Scanner Char Token where
  step := lexStep
  advances h := by
    obtain ⟨used, rfl, hlen, -⟩ := lexStep_eq h
    have hpos := Token.weight_pos.trans_le hlen
    rw [List.length_append]
    omega

/-- **Take a text apart** into tokens. -/
def lex (text : List Char) : Option (List Token) := (lexScanner.run text).map Prod.fst

theorem lexStep_cons (hspace : ¬isSpace c) :
    lexStep (c :: text) = (readToken (c :: text)).map (Prod.map some id) := by
  rw [lexStep, List.dropWhile_cons_of_neg hspace]

/-- A token is taken off a text. -/
theorem lex_token (hspace : ¬isSpace c) (h : readToken (c :: text) = some (t, rest)) :
    lex (c :: text) = (lex rest).map (t :: ·) := by
  have hstep : lexStep (c :: text) = some (some t, rest) := by
    rw [lexStep_cons hspace, h]
    rfl
  rw [lex, Scanner.run_item (S := lexScanner) hstep, Option.map_map, lex, Option.map_map]
  rfl

theorem lex_nil : lex [] = some [] := by
  have hstep : lexScanner.step [] = some (none, []) := rfl
  rw [lex, Scanner.run_stop hstep]
  rfl

/-- A token of one character. -/
theorem lex_punctuation (h : punctuation c = some t) (hspace : ¬isSpace c) :
    lex (c :: rest) = (lex rest).map (t :: ·) := by
  refine lex_token hspace ?_
  rw [readToken, h]

/-- A string that is read. -/
theorem lex_of_readString {raw : List Char} (h : readString text = some (raw, rest)) :
    lex ('"' :: text) = (lex rest).map (.string raw :: ·) := by
  have htoken : readToken ('"' :: text) = (readString text).map fun r => (.string r.1, r.2) := rfl
  refine lex_token (by decide) ?_
  rw [htoken, h]
  rfl

/-- **A string**, as far as it goes. -/
theorem lex_string :
    lex ('"' :: text) = some tokens ↔ ∃ raw rest tokens', readString text = some (raw, rest) ∧
      lex rest = some tokens' ∧ tokens = .string raw :: tokens' := by
  rcases hraw : readString text with _ | ⟨raw, rest⟩
  · have htoken : readToken ('"' :: text) = (readString text).map fun r => (.string r.1, r.2) :=
      rfl
    have hspace : ¬isSpace '"' := by decide
    have hstep : lexScanner.step ('"' :: text) = none :=
      (lexStep_cons hspace).trans (by rw [htoken, hraw]; rfl)
    rw [lex, Scanner.run_fail hstep]
    constructor
    · exact fun h => absurd h (by simp)
    · rintro ⟨_, _, _, h, -⟩
      cases h
  · rw [lex_of_readString hraw]
    constructor
    · intro h
      obtain ⟨tokens', hrest, rfl⟩ := Option.map_eq_some_iff.mp h
      exact ⟨raw, rest, tokens', rfl, hrest, rfl⟩
    · rintro ⟨_, _, tokens', h, hrest, rfl⟩
      obtain ⟨rfl, rfl⟩ := Prod.mk.inj (Option.some.inj h)
      rw [hrest]
      rfl

/-- **A number**, as far as it goes. -/
theorem lex_number (hnum : isNumber number) (hchars : ∀ c ∈ number, isNumberChar c)
    (hrest : ∀ c, rest.head? = some c → ¬isNumberChar c) :
    lex (number ++ rest) = (lex rest).map (.number number :: ·) := by
  rcases number with _ | ⟨c, number⟩
  · exact absurd hnum (by decide)
  have hc := head_of_isNumber hnum
  have hpunct : punctuation c = none := by
    unfold punctuation
    split
    all_goals first
      | rfl
      | (revert hc; decide)
  have hspace : ¬isSpace c := by
    intro hspace
    simp only [isSpace, Bool.or_eq_true, decide_eq_true_eq] at hspace
    rcases hspace with ((rfl | rfl) | rfl) | rfl
    all_goals exact absurd hc (by decide)
  have hquote : c ≠ '"' := by
    rintro rfl
    exact absurd hc (by decide)
  have htake : (c :: number ++ rest).takeWhile isNumberChar = c :: number :=
    Scanner.takeWhile_append hchars hrest
  have hdrop : (c :: number ++ rest).dropWhile isNumberChar = rest :=
    Scanner.dropWhile_append hchars hrest
  have hif : (c = '-' || c.isDigit) = true := by simpa using hc
  rw [List.cons_append] at htake hdrop ⊢
  refine lex_token hspace ?_
  rw [readToken]
  simp only [hpunct]
  rw [if_neg hquote, if_pos hif, readNumber, htake, hdrop, if_pos hnum]

/-- How many characters tokens need. -/
def weights (tokens : List Token) : ℕ := (tokens.map Token.weight).sum

/-- **A text has no fewer characters than its tokens need**, and as many only if there is nothing
to escape in them but quotes. -/
theorem weight_le_of_lex (h : lex text = some tokens) :
    weights tokens ≤ text.length ∧ (weights tokens = text.length → ∀ t ∈ tokens, t.Plain) := by
  obtain ⟨⟨tokens', rest⟩, hrun, rfl⟩ := Option.map_eq_some_iff.mp h
  refine Scanner.run_induction (S := lexScanner) (motive := fun text tokens _ =>
    weights tokens ≤ text.length ∧ (weights tokens = text.length → ∀ t ∈ tokens, t.Plain))
    ?_ ?_ hrun
  · exact fun text _ _ => ⟨Nat.zero_le _, fun _ => List.forall_mem_nil _⟩
  · rintro text t rest tokens _ hitem ⟨hle, hplain⟩
    obtain ⟨used, rfl, hlen, hused⟩ := lexStep_eq hitem
    have hsum : weights (t :: tokens) = t.weight + weights tokens := List.sum_cons
    rw [hsum, List.length_append]
    refine ⟨by omega, fun heq => List.forall_mem_cons.mpr ⟨hused (by omega), hplain (by omega)⟩⟩

end Tokens

end Json
