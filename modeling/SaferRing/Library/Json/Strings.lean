import Mathlib.Data.List.Basic
import SaferRing.Library.Scan

/-!
# Strings in JSON

A string is read character by character up to its closing quote, with its escapes decoded
(`Json.readString`). A text whose quotes are escaped, and nothing else, is read back as it was
exactly when there was nothing else to escape (`Json.Plain`): `Json.readString_escaped`, and its
converse `Json.plain_of_readString_escaped`. The converse counts: nothing that is read has fewer
quotes than were passed over, or takes fewer characters than it must (`Json.readString_eq`).
-/

namespace Json

/-! ### Strings -/

/-- The value of a hexadecimal digit. -/
def hexValue (c : Char) : Option ℕ :=
  if c.isDigit then some (c.toNat - 48)
  else if 'a' ≤ c ∧ c ≤ 'f' then some (c.toNat - 87)
  else if 'A' ≤ c ∧ c ≤ 'F' then some (c.toNat - 55)
  else none

/-- Four hexadecimal digits. -/
def hex4 : List Char → Option (ℕ × List Char)
  | a :: b :: c :: d :: rest =>
    match hexValue a, hexValue b, hexValue c, hexValue d with
    | some a, some b, some c, some d => some (((a * 16 + b) * 16 + c) * 16 + d, rest)
    | _, _, _, _ => none
  | _ => none

/-- A character by its number, or by two when it takes two. -/
def readUnicode (text : List Char) : Option (Char × List Char) :=
  match hex4 text with
  | none => none
  | some (high, rest) =>
    if 0xD800 ≤ high ∧ high < 0xDC00 then
      match rest with
      | '\\' :: 'u' :: rest =>
        match hex4 rest with
        | none => none
        | some (low, rest) =>
          if 0xDC00 ≤ low ∧ low < 0xE000 then
            some (.ofNat (0x10000 + (high - 0xD800) * 0x400 + (low - 0xDC00)), rest)
          else none
      | _ => none
    else if 0xDC00 ≤ high ∧ high < 0xE000 then none
    else some (.ofNat high, rest)

/-- What a letter stands for behind a backslash. -/
def simpleEscape : Char → Option Char
  | '"' => some '"'
  | '\\' => some '\\'
  | '/' => some '/'
  | 'b' => some (.ofNat 8)
  | 'f' => some (.ofNat 12)
  | 'n' => some '\n'
  | 'r' => some '\r'
  | 't' => some '\t'
  | _ => none

/-- What is behind a backslash. -/
def readEscape : List Char → Option (Char × List Char)
  | [] => none
  | c :: rest => if c = 'u' then readUnicode rest else (simpleEscape c).map fun e => (e, rest)

/-- **One character of a string**, or the quote at its end. -/
def stringStep : List Char → Option (Option Char × List Char)
  | [] => none
  | c :: rest =>
    if c = '"' then some (none, rest)
    else if c = '\\' then (readEscape rest).map (Prod.map some id)
    else if c.toNat < 32 then none
    else some (some c, rest)

/-- How many characters it takes to write a text with a backslash before every quote. -/
def weight (text : List Char) : ℕ := text.length + text.count '"'

section Strings

variable {text rest more used raw : List Char} {c : Char} {n : ℕ}

theorem count_quote_cons : (c :: text).count '"' = [c].count '"' + text.count '"' := by
  rw [← List.singleton_append, List.count_append]

theorem weight_cons : weight (c :: text) = weight [c] + weight text := by
  rw [weight, weight, weight, count_quote_cons, List.length_cons, List.length_singleton]
  omega

theorem weight_quote : weight ['"'] = 2 := rfl

theorem weight_singleton (h : c ≠ '"') : weight [c] = 1 := by
  rw [weight, List.count_singleton, if_neg (by simpa using h)]
  rfl

theorem weight_singleton_le : weight [c] ≤ 2 :=
  Nat.add_le_add_left (List.count_le_length (a := '"') (l := [c])) 1

/-- A quote is no hexadecimal digit. -/
theorem ne_quote_of_hexValue (h : hexValue c = some n) : c ≠ '"' := by
  rintro rfl
  have hnone : hexValue '"' = none := by decide
  rw [hnone] at h
  cases h

/-- Four digits are read, none of which is a quote. -/
theorem hex4_eq (h : hex4 text = some (n, rest)) :
    ∃ used, text = used ++ rest ∧ used.length = 4 ∧ '"' ∉ used := by
  rcases text with _ | ⟨a, _ | ⟨b, _ | ⟨c, _ | ⟨d, text⟩⟩⟩⟩
  iterate 4 exact absurd h (by simp [hex4])
  rw [hex4] at h
  rcases ha : hexValue a with _ | va
  · simp [ha] at h
  rcases hb : hexValue b with _ | vb
  · simp [ha, hb] at h
  rcases hc : hexValue c with _ | vc
  · simp [ha, hb, hc] at h
  rcases hd : hexValue d with _ | vd
  · simp [ha, hb, hc, hd] at h
  simp only [ha, hb, hc, hd, Option.some.injEq, Prod.mk.injEq] at h
  refine ⟨[a, b, c, d], by rw [← h.2]; rfl, rfl, ?_⟩
  simp only [List.mem_cons, List.not_mem_nil, or_false, not_or]
  exact ⟨(ne_quote_of_hexValue ha).symm, (ne_quote_of_hexValue hb).symm,
    (ne_quote_of_hexValue hc).symm, (ne_quote_of_hexValue hd).symm⟩

/-- A character by its number takes at least four others, none of which is a quote. -/
theorem readUnicode_eq (h : readUnicode text = some (c, rest)) :
    ∃ used, text = used ++ rest ∧ 4 ≤ used.length ∧ '"' ∉ used := by
  rw [readUnicode] at h
  rcases hhigh : hex4 text with _ | ⟨high, afterHigh⟩
  · simp [hhigh] at h
  obtain ⟨used, rfl, hlen, hquote⟩ := hex4_eq hhigh
  simp only [hhigh] at h
  by_cases hsurrogate : 0xD800 ≤ high ∧ high < 0xDC00
  · rw [if_pos hsurrogate] at h
    -- the second half is behind `\u`
    split at h
    · rename_i afterU
      rcases hlow : hex4 afterU with _ | ⟨low, afterLow⟩
      · simp [hlow] at h
      obtain ⟨used', rfl, hlen', hquote'⟩ := hex4_eq hlow
      simp only [hlow] at h
      obtain ⟨-, h⟩ := Option.ite_none_right_eq_some.mp h
      obtain ⟨-, rfl⟩ := Prod.mk.inj (Option.some.inj h)
      refine ⟨used ++ '\\' :: 'u' :: used', by simp, by simp; omega, ?_⟩
      simp [hquote, hquote']
    · cases h
  · rw [if_neg hsurrogate] at h
    obtain ⟨-, h⟩ := Option.ite_none_left_eq_some.mp h
    obtain ⟨-, rfl⟩ := Prod.mk.inj (Option.some.inj h)
    exact ⟨used, rfl, Nat.le_of_eq hlen.symm, hquote⟩

/-- A quote stands for itself only. -/
theorem simpleEscape_eq {e : Char} (h : simpleEscape c = some e) : c = '"' ∧ e = '"' ∨
    c ≠ '"' ∧ e ≠ '"' := by
  unfold simpleEscape at h
  split at h
  · exact Or.inl ⟨rfl, (Option.some.inj h).symm⟩
  all_goals first
    | (cases h; done)
    | (obtain rfl := Option.some.inj h; exact Or.inr ⟨by decide, by decide⟩)

/-- **What is behind a backslash**: a quote, which stands for itself, or something without one. -/
theorem readEscape_cases (h : readEscape text = some (c, rest)) :
    c = '"' ∧ text = '"' :: rest ∨
      ∃ used, text = used ++ rest ∧ '"' ∉ used ∧ weight [c] ≤ used.length := by
  rcases text with _ | ⟨first, text⟩
  · cases h
  rw [readEscape] at h
  by_cases hu : first = 'u'
  · rw [if_pos hu] at h
    obtain ⟨used, rfl, hlen, hquote⟩ := readUnicode_eq h
    refine Or.inr ⟨first :: used, rfl, ?_, ?_⟩
    · rw [List.mem_cons, not_or, hu]
      exact ⟨by decide, hquote⟩
    · have hweight := weight_singleton_le (c := c)
      rw [List.length_cons]
      omega
  · rw [if_neg hu] at h
    obtain ⟨e, he, hpair⟩ := Option.map_eq_some_iff.mp h
    obtain ⟨rfl, rfl⟩ := Prod.mk.inj hpair
    rcases simpleEscape_eq he with ⟨rfl, rfl⟩ | ⟨hfirst, hc⟩
    · exact Or.inl ⟨rfl, rfl⟩
    · refine Or.inr ⟨[first], rfl, ?_, Nat.le_of_eq (weight_singleton hc)⟩
      rw [List.mem_singleton]
      exact hfirst.symm

/-- **How a character of a string is written**: as itself, as a quote behind a backslash, or as
something longer than it need be, without a quote. -/
theorem stringStep_cases (h : stringStep text = some (some c, rest)) :
    (text = c :: rest ∧ c ≠ '"' ∧ c ≠ '\\' ∧ 32 ≤ c.toNat) ∨
      (c = '"' ∧ text = '\\' :: '"' :: rest) ∨
      ∃ used, text = used ++ rest ∧ '"' ∉ used ∧ weight [c] < used.length := by
  rcases text with _ | ⟨first, text⟩
  · cases h
  rw [stringStep] at h
  by_cases hquote : first = '"'
  · rw [if_pos hquote] at h
    cases h
  rw [if_neg hquote] at h
  by_cases hback : first = '\\'
  · rw [if_pos hback] at h
    obtain ⟨⟨e, rest'⟩, hescape, hpair⟩ := Option.map_eq_some_iff.mp h
    obtain ⟨hc, rfl⟩ := Prod.mk.inj hpair
    obtain rfl := Option.some.inj hc
    rw [hback]
    rcases readEscape_cases hescape with ⟨rfl, rfl⟩ | ⟨used, rfl, hused, hlen⟩
    · exact Or.inr (Or.inl ⟨rfl, rfl⟩)
    · refine Or.inr (Or.inr ⟨'\\' :: used, rfl, ?_, Nat.lt_succ_of_le hlen⟩)
      rw [List.mem_cons, not_or]
      exact ⟨by decide, hused⟩
  rw [if_neg hback] at h
  obtain ⟨hcontrol, h⟩ := Option.ite_none_left_eq_some.mp h
  obtain ⟨hc, rfl⟩ := Prod.mk.inj (Option.some.inj h)
  obtain rfl := Option.some.inj hc
  exact Or.inl ⟨rfl, hquote, hback, Nat.le_of_not_lt hcontrol⟩

/-- **The scanner of a string**, behind its first quote. -/
def stringScanner : Scanner Char Char where
  step := stringStep
  advances h := by
    rcases stringStep_cases h with ⟨rfl, -⟩ | ⟨-, rfl⟩ | ⟨used, rfl, -, hlen⟩
    · exact Nat.lt_succ_self _
    · exact Nat.lt_succ_of_lt (Nat.lt_succ_self _)
    · rw [List.length_append]
      omega

/-- **Read a string** behind its first quote. -/
def readString (text : List Char) : Option (List Char × List Char) := stringScanner.run text

/-- **A text with nothing to escape** but quotes. -/
def Plain (text : List Char) : Prop := ∀ c ∈ text, c ≠ '\\' ∧ 32 ≤ c.toNat

instance (text : List Char) : Decidable (Plain text) :=
  List.decidableBAll (fun c => c ≠ '\\' ∧ 32 ≤ c.toNat) text

/-- A text with a backslash before every quote. -/
def escapeQuotes (text : List Char) : List Char :=
  text.flatMap fun c => if c = '"' then ['\\', '"'] else [c]

theorem escapeQuotes_cons :
    escapeQuotes (c :: text) = (if c = '"' then ['\\', '"'] else [c]) ++ escapeQuotes text :=
  rfl

theorem length_escapeQuotes : (escapeQuotes text).length = weight text := by
  induction text with
  | nil => rfl
  | cons c text ih =>
    rw [escapeQuotes_cons, List.length_append, ih, weight_cons]
    by_cases hc : c = '"'
    · rw [if_pos hc, hc]
      rfl
    · rw [if_neg hc, weight_singleton hc]
      rfl

theorem count_escapeQuotes : (escapeQuotes text).count '"' = text.count '"' := by
  induction text with
  | nil => rfl
  | cons c text ih =>
    rw [escapeQuotes_cons, List.count_append, ih, count_quote_cons]
    by_cases hc : c = '"'
    · rw [if_pos hc, hc]
      rfl
    · rw [if_neg hc]

/-- Nothing is added but backslashes. -/
theorem mem_of_mem_escapeQuotes (hc : c ≠ '\\') (h : c ∈ escapeQuotes text) : c ∈ text := by
  obtain ⟨d, hd, hmem⟩ := List.mem_flatMap.mp h
  by_cases hquote : d = '"'
  · rw [if_pos hquote, List.mem_cons, List.mem_singleton] at hmem
    rcases hmem with rfl | rfl
    · exact absurd rfl hc
    · rwa [← hquote]
  · rw [if_neg hquote, List.mem_singleton] at hmem
    rwa [hmem]

/-- A text without quotes is written as it is. -/
theorem escapeQuotes_of_not_mem (h : '"' ∉ text) : escapeQuotes text = text := by
  induction text with
  | nil => rfl
  | cons c text ih =>
    rw [List.mem_cons, not_or] at h
    rw [escapeQuotes_cons, if_neg (Ne.symm h.1), ih h.2]
    rfl

theorem plain_cons (hc : c ≠ '\\' ∧ 32 ≤ c.toNat) (h : Plain text) : Plain (c :: text) :=
  List.forall_mem_cons.mpr ⟨hc, h⟩

/-- A text with nothing to escape but quotes is written in one line. -/
theorem newline_not_mem (h : Plain text) : '\n' ∉ escapeQuotes text := fun hmem =>
  absurd (h _ (mem_of_mem_escapeQuotes (by decide) hmem)).2 (by decide)

/-- **A text with its quotes escaped is read back**, if there is nothing else to escape. -/
theorem readString_escaped (h : Plain text) :
    readString (escapeQuotes text ++ '"' :: rest) = some (text, rest) := by
  induction text with
  | nil =>
    have hstop : stringStep ('"' :: rest) = some (none, rest) := rfl
    exact Scanner.run_stop hstop
  | cons c text ih =>
    obtain ⟨⟨hback, hcontrol⟩, htext⟩ := List.forall_mem_cons.mp h
    have hstep : stringStep (escapeQuotes (c :: text) ++ '"' :: rest) =
        some (some c, escapeQuotes text ++ '"' :: rest) := by
      rw [escapeQuotes_cons]
      by_cases hc : c = '"'
      · rw [if_pos hc, hc]
        rfl
      · rw [if_neg hc, List.singleton_append, List.cons_append, stringStep, if_neg hc,
          if_neg hback, if_neg (Nat.not_lt_of_le hcontrol)]
    rw [readString, Scanner.run_item hstep, ← readString, ih htext]
    rfl

/-- **What is read as a string**: no quote was passed over that is not in it, and it takes no
fewer characters than it must; as many only if there was nothing to escape but quotes. -/
theorem readString_eq (h : readString text = some (raw, rest)) :
    ∃ used, text = used ++ '"' :: rest ∧ used.count '"' ≤ raw.count '"' ∧
      weight raw ≤ used.length ∧ (weight raw = used.length → Plain raw) := by
  refine Scanner.run_induction (S := stringScanner) (motive := fun text raw rest =>
    ∃ used, text = used ++ '"' :: rest ∧ used.count '"' ≤ raw.count '"' ∧
      weight raw ≤ used.length ∧ (weight raw = used.length → Plain raw)) ?_ ?_ h
  · intro text rest hstop
    rcases text with _ | ⟨c, text⟩
    · cases hstop
    refine ⟨[], ?_, Nat.le_refl 0, Nat.le_refl 0, fun _ => List.forall_mem_nil _⟩
    change stringStep (c :: text) = _ at hstop
    rw [stringStep] at hstop
    by_cases hquote : c = '"'
    · rw [if_pos hquote] at hstop
      obtain ⟨-, rfl⟩ := Prod.mk.inj (Option.some.inj hstop)
      rw [hquote]
      rfl
    · rw [if_neg hquote] at hstop
      by_cases hback : c = '\\'
      · rw [if_pos hback] at hstop
        obtain ⟨e, -, he⟩ := Option.map_eq_some_iff.mp hstop
        exact absurd (Prod.mk.inj he).1 (by simp)
      · rw [if_neg hback] at hstop
        obtain ⟨-, hstop⟩ := Option.ite_none_left_eq_some.mp hstop
        exact absurd (Prod.mk.inj (Option.some.inj hstop)).1 (by simp)
  · rintro text c mid raw rest hitem ⟨used, rfl, hcount, hlen, hplain⟩
    have hcons : (c :: raw).count '"' = [c].count '"' + raw.count '"' := count_quote_cons
    rcases stringStep_cases hitem with ⟨rfl, hquote, hclean⟩ | ⟨rfl, rfl⟩ | ⟨used', rfl, hno, hlt⟩
    · refine ⟨c :: used, rfl, ?_, ?_, fun heq => plain_cons hclean (hplain ?_)⟩
      · rw [hcons, count_quote_cons]
        omega
      · rw [weight_cons, weight_singleton hquote, List.length_cons]
        omega
      · rw [weight_cons, weight_singleton hquote, List.length_cons] at heq
        omega
    · refine ⟨'\\' :: '"' :: used, rfl, ?_, ?_, fun heq =>
        plain_cons ⟨by decide, by decide⟩ (hplain ?_)⟩
      · have hused : ('\\' :: '"' :: used).count '"' = 1 + used.count '"' := by
          simp [Nat.add_comm]
        have hone : ['"'].count '"' = 1 := rfl
        rw [hcons, hused, hone]
        omega
      · rw [weight_cons, weight_quote, List.length_cons, List.length_cons]
        omega
      · rw [weight_cons, weight_quote, List.length_cons, List.length_cons] at heq
        omega
    · have hzero : used'.count '"' = 0 := List.count_eq_zero.mpr hno
      refine ⟨used' ++ used, by rw [List.append_assoc], ?_, ?_, fun heq => ?_⟩
      · rw [hcons, List.count_append]
        omega
      · rw [weight_cons, List.length_append]
        omega
      · rw [weight_cons, List.length_append] at heq
        omega

/-- What is read does not go past the quote at the end if it has no more quotes than what was
written. -/
theorem used_length_le {written : List Char} (h : written ++ '"' :: more = used ++ '"' :: rest)
    (hcount : used.count '"' ≤ written.count '"') : used.length ≤ written.length := by
  by_contra hc
  obtain ⟨between, hbetween⟩ : ∃ between, used = written ++ '"' :: between := by
    have hwritten : written ++ ['"'] <+: used ++ '"' :: rest := by
      refine ⟨more, ?_⟩
      rw [List.append_assoc, List.singleton_append, h]
    have hlen : (written ++ ['"']).length ≤ used.length := by
      rw [List.length_append, List.length_singleton]
      omega
    obtain ⟨between, hused⟩ :=
      List.prefix_of_prefix_length_le hwritten (List.prefix_append used _) hlen
    refine ⟨between, ?_⟩
    rw [← hused, List.append_assoc, List.singleton_append]
  rw [hbetween, List.count_append, List.count_cons_self] at hcount
  omega

/-- **A text that is read as it was written** has nothing to escape. -/
theorem plain_of_readString_raw (h : readString (raw ++ '"' :: more) = some (raw, rest)) :
    Plain raw ∧ '"' ∉ raw ∧ rest = more := by
  obtain ⟨used, heq, hcount, hlen, hplain⟩ := readString_eq h
  have hle := used_length_le heq hcount
  rw [weight] at hlen hplain
  obtain ⟨-, htail⟩ := List.append_inj heq (by omega)
  refine ⟨hplain (by omega), List.count_eq_zero.mp (by omega), ?_⟩
  exact (List.cons.inj htail).2.symm

/-- **A text that is read back with its quotes escaped** has nothing else to escape. -/
theorem plain_of_readString_escaped
    (h : readString (escapeQuotes text ++ '"' :: more) = some (text, rest)) :
    Plain text ∧ rest = more := by
  obtain ⟨used, heq, hcount, hlen, hplain⟩ := readString_eq h
  have hquotes : (escapeQuotes text).count '"' = text.count '"' := count_escapeQuotes
  rw [← hquotes] at hcount
  have hle := used_length_le heq hcount
  rw [length_escapeQuotes] at hle
  obtain ⟨-, htail⟩ := List.append_inj heq (by rw [length_escapeQuotes]; omega)
  exact ⟨hplain (by omega), (List.cons.inj htail).2.symm⟩

end Strings

end Json
