import Mathlib.Algebra.BigOperators.Group.List.Lemmas
import SaferRing.Library.Json.Values

/-!
# Objects of JSON, member by member

A text for an object is read member by member: behind a name there is a value (`Json.reads_name`,
`Json.tail_name`), of a kind that is seen from the text (`Json.behind_string`,
`Json.behind_number`, `Json.behind_object`). An object of strings whose quotes are escaped, with
names as they are (`Json.writePairs`), is read back when there is nothing else to escape
(`Json.lex_writePairs`), and not when there is: `Json.cleanPair_of_lex`.
-/

namespace Json

section Members

variable {name text rest number : List Char} {tokens : List Token}
  {members : List (List Char × Value)} {v : Value}

/-- A text for the rest of an object behind one of its members. -/
def Tail (text : List Char) (members : List (List Char × Value)) : Prop :=
  lex text = some (moreMembers members)

/-- A text for a value in an object, and for the members behind it. -/
def Behind (text : List Char) (v : Value) (members : List (List Char × Value)) : Prop :=
  lex text = some (v.tokens ++ moreMembers members)

/-! ### Names -/

/-- A name with nothing to escape, and its colon. -/
theorem lex_name (hplain : Plain name) (hquote : '"' ∉ name) :
    lex ('"' :: name ++ '"' :: ':' :: text) =
      (lex text).map fun tokens => .string name :: .colon :: tokens := by
  have hread : readString (name ++ '"' :: ':' :: text) = some (name, ':' :: text) := by
    rw [← readString_escaped hplain, escapeQuotes_of_not_mem hquote]
  rw [List.cons_append, lex_of_readString hread, lex_punctuation rfl (by decide), Option.map_map]
  rfl

/-- **The first member of an object** with a name that has nothing to escape. -/
theorem reads_name (hplain : Plain name) (hquote : '"' ∉ name) :
    Reads ('{' :: ('"' :: name ++ '"' :: ':' :: text)) v ↔
      ∃ w members, v = .object ((name, w) :: members) ∧ Behind text w members := by
  have hbrace : lex ('{' :: ('"' :: name ++ '"' :: ':' :: text)) =
      (lex ('"' :: name ++ '"' :: ':' :: text)).map (.lbrace :: ·) :=
    lex_punctuation rfl (by decide)
  rw [Reads, hbrace, lex_name hplain hquote, Option.map_map]
  constructor
  · intro h
    obtain ⟨tokens, htext, htokens⟩ := Option.map_eq_some_iff.mp h
    rcases v with _ | _ | _ | _ | _ | _ | ⟨⟨name', w⟩, members⟩
    all_goals simp [Value.tokens, memberTokens] at htokens
    obtain ⟨rfl, rfl⟩ := htokens
    exact ⟨w, members, rfl, htext⟩
  · rintro ⟨w, members, rfl, htext⟩
    rw [htext, Value.tokens, memberTokens]
    rfl

/-- **Another member of an object** with a name that has nothing to escape. -/
theorem tail_name (hplain : Plain name) (hquote : '"' ∉ name) :
    Tail (',' :: ('"' :: name ++ '"' :: ':' :: text)) members ↔
      ∃ w members', members = (name, w) :: members' ∧ Behind text w members' := by
  have hcomma : lex (',' :: ('"' :: name ++ '"' :: ':' :: text)) =
      (lex ('"' :: name ++ '"' :: ':' :: text)).map (.comma :: ·) :=
    lex_punctuation rfl (by decide)
  rw [Tail, hcomma, lex_name hplain hquote, Option.map_map]
  constructor
  · intro h
    obtain ⟨tokens, htext, htokens⟩ := Option.map_eq_some_iff.mp h
    rcases members with _ | ⟨⟨name', w⟩, members⟩
    all_goals simp [moreMembers] at htokens
    obtain ⟨rfl, rfl⟩ := htokens
    exact ⟨w, members, rfl, htext⟩
  · rintro ⟨w, members', rfl, htext⟩
    rw [htext, moreMembers]
    rfl

/-- The end of an object. -/
theorem tail_end : Tail ['}'] members ↔ members = [] := by
  have hend : lex ['}'] = some [.rbrace] := by
    rw [lex_punctuation rfl (by decide), lex_nil]
    rfl
  rw [Tail, hend]
  constructor
  · intro h
    rcases members with _ | ⟨⟨name, w⟩, members⟩
    · rfl
    · simp [moreMembers] at h
  · rintro rfl
    rw [moreMembers]

/-! ### Values -/

/-- **A string**, as far as it goes. -/
theorem behind_string :
    Behind ('"' :: text) v members ↔
      ∃ raw rest, readString text = some (raw, rest) ∧ v = .string raw ∧ Tail rest members := by
  rw [Behind, lex_string]
  constructor
  · rintro ⟨raw, rest, tokens, hraw, hrest, htokens⟩
    have heq : v.tokens ++ moreMembers members = (Value.string raw).tokens ++ tokens := htokens
    obtain ⟨rfl, rfl⟩ := tokens_inj v heq
    exact ⟨raw, rest, hraw, rfl, hrest⟩
  · rintro ⟨raw, rest, hraw, rfl, hrest⟩
    exact ⟨raw, rest, _, hraw, hrest, rfl⟩

/-- A string with nothing but quotes to escape. -/
theorem behind_escaped (h : Plain text) :
    Behind ('"' :: (escapeQuotes text ++ '"' :: rest)) v members ↔
      v = .string text ∧ Tail rest members := by
  have hread : readString (escapeQuotes text ++ '"' :: rest) = some (text, rest) :=
    readString_escaped h
  rw [behind_string]
  constructor
  · rintro ⟨raw, rest', hraw, rfl, htail⟩
    obtain ⟨rfl, rfl⟩ := Prod.mk.inj (Option.some.inj (hread.symm.trans hraw))
    exact ⟨rfl, htail⟩
  · rintro ⟨rfl, htail⟩
    exact ⟨text, rest, hread, rfl, htail⟩

/-- A string with nothing to escape. -/
theorem behind_plain (h : Plain text) (hquote : '"' ∉ text) :
    Behind ('"' :: (text ++ '"' :: rest)) v members ↔ v = .string text ∧ Tail rest members := by
  have hescaped : escapeQuotes text = text := escapeQuotes_of_not_mem hquote
  rw [← behind_escaped h, hescaped]

/-- **A number**, as far as it goes. -/
theorem behind_number (hnum : isNumber number) (hchars : ∀ c ∈ number, isNumberChar c)
    (hrest : ∀ c, rest.head? = some c → ¬isNumberChar c) :
    Behind (number ++ rest) v members ↔ v = .number number ∧ Tail rest members := by
  rw [Behind, lex_number hnum hchars hrest]
  constructor
  · intro h
    obtain ⟨tokens, hlex, htokens⟩ := Option.map_eq_some_iff.mp h
    have heq : v.tokens ++ moreMembers members = (Value.number number).tokens ++ tokens :=
      htokens.symm
    obtain ⟨rfl, rfl⟩ := tokens_inj v heq
    exact ⟨rfl, hlex⟩
  · rintro ⟨rfl, htail⟩
    rw [htail]
    rfl

/-- **An object**, behind its first bracket. -/
theorem behind_object :
    Behind ('{' :: text) v members ↔ ∃ inner, v = .object inner ∧
      lex text = some (memberTokens inner ++ moreMembers members) := by
  have hbrace : lex ('{' :: text) = (lex text).map (.lbrace :: ·) :=
    lex_punctuation rfl (by decide)
  rw [Behind, hbrace]
  constructor
  · intro h
    obtain ⟨tokens, htext, htokens⟩ := Option.map_eq_some_iff.mp h
    rcases v with _ | _ | _ | _ | _ | inner
    all_goals simp [Value.tokens] at htokens
    obtain rfl := htokens
    exact ⟨inner, rfl, htext⟩
  · rintro ⟨inner, rfl, htext⟩
    rw [htext, Value.tokens]
    rfl

end Members

/-! ### Objects of strings -/

/-- A name and a string, with the quotes in the string escaped. -/
def writePair (p : List Char × List Char) : List Char :=
  '"' :: p.1 ++ '"' :: ':' :: '"' :: (escapeQuotes p.2 ++ ['"'])

/-- Names and strings, one behind the other. -/
def writePairs (pairs : List (List Char × List Char)) : List Char :=
  [','].intercalate (pairs.map writePair)

/-- The members written. -/
def pairMembers (pairs : List (List Char × List Char)) : List (List Char × Value) :=
  pairs.map fun p => (p.1, .string p.2)

/-- There is nothing to escape in a name, and nothing but quotes in a string. -/
structure CleanPair (p : List Char × List Char) : Prop where
  /-- Nothing is escaped in the name. -/
  name : Plain p.1
  /-- Nor is there a quote in it. -/
  quote : '"' ∉ p.1
  /-- Nothing but quotes is escaped in the string. -/
  value : Plain p.2

section Pairs

variable {text : List Char} {pairs : List (List Char × List Char)} {p : List Char × List Char}
  {members : List (List Char × Value)}

theorem writePairs_cons (h : pairs ≠ []) :
    writePairs (p :: pairs) = writePair p ++ ',' :: writePairs pairs := by
  obtain ⟨q, pairs, rfl⟩ := List.exists_cons_of_ne_nil h
  rw [writePairs, List.map_cons, List.map_cons, List.intercalate_cons_cons, List.append_assoc]
  rfl

theorem moreMembers_eq (h : members ≠ []) :
    moreMembers members = .comma :: memberTokens members := by
  obtain ⟨⟨name, v⟩, members, rfl⟩ := List.exists_cons_of_ne_nil h
  rw [moreMembers, memberTokens]
  rfl

/-- One member is read. -/
theorem lex_writePair (h : CleanPair p) :
    lex (writePair p ++ text) =
      (lex text).map fun tokens => .string p.1 :: .colon :: .string p.2 :: tokens := by
  have htext : writePair p ++ text =
      '"' :: p.1 ++ '"' :: ':' :: '"' :: (escapeQuotes p.2 ++ '"' :: text) := by
    simp [writePair]
  rw [htext, lex_name h.name h.quote, lex_of_readString (readString_escaped h.value),
    Option.map_map]
  rfl

/-- **An object of strings is read back**, if there is nothing but quotes in them to escape, and
nothing in its names. -/
theorem lex_writePairs (hne : pairs ≠ []) (hclean : ∀ p ∈ pairs, CleanPair p) :
    lex (writePairs pairs ++ '}' :: text) =
      (lex text).map (memberTokens (pairMembers pairs) ++ ·) := by
  induction pairs with
  | nil => exact absurd rfl hne
  | cons p pairs ih =>
    obtain ⟨hp, hpairs⟩ := List.forall_mem_cons.mp hclean
    rcases eq_or_ne pairs [] with rfl | hmore
    · have hone : writePairs [p] = writePair p := List.intercalate_singleton
      rw [hone, lex_writePair hp, lex_punctuation rfl (by decide), Option.map_map]
      rfl
    · have hmembers : memberTokens (pairMembers (p :: pairs)) = .string p.1 :: .colon ::
          .string p.2 :: .comma :: memberTokens (pairMembers pairs) := by
        have hne : pairMembers pairs ≠ [] := fun h => hmore (List.map_eq_nil_iff.mp h)
        rw [← moreMembers_eq hne]
        rfl
      rw [writePairs_cons hmore, List.append_assoc, lex_writePair hp, List.cons_append,
        lex_punctuation rfl (by decide), ih hmore hpairs, Option.map_map, Option.map_map, hmembers]
      rfl

/-- An object of strings is written in one line. -/
theorem newline_not_mem_writePairs (hclean : ∀ p ∈ pairs, CleanPair p) :
    '\n' ∉ writePairs pairs := by
  induction pairs with
  | nil => exact List.not_mem_nil
  | cons p pairs ih =>
    obtain ⟨hp, hpairs⟩ := List.forall_mem_cons.mp hclean
    have hname := newline_not_mem hp.name
    rw [escapeQuotes_of_not_mem hp.quote] at hname
    have hpair : '\n' ∉ writePair p := by
      simp [writePair, hname, newline_not_mem hp.value]
    rcases eq_or_ne pairs [] with rfl | hmore
    · have hone : writePairs [p] = writePair p := List.intercalate_singleton
      rwa [hone]
    · rw [writePairs_cons hmore, List.mem_append, List.mem_cons, not_or, not_or]
      exact ⟨hpair, by decide, ih hpairs⟩

/-! ### What it takes -/

theorem weights_cons {t : Token} {tokens : List Token} :
    weights (t :: tokens) = t.weight + weights tokens := List.sum_cons

theorem weights_append {tokens tokens' : List Token} :
    weights (tokens ++ tokens') = weights tokens + weights tokens' := by
  rw [weights, List.map_append, List.sum_append]
  rfl

/-- How many characters the members of an object need. -/
theorem weights_memberTokens (h : members ≠ []) :
    weights (memberTokens members) =
      (members.map fun m => weight m.1 + weights m.2.tokens + 4).sum := by
  induction members with
  | nil => exact absurd rfl h
  | cons m members ih =>
    obtain ⟨name, v⟩ := m
    rw [memberTokens, List.map_cons, List.sum_cons, List.cons_append, List.cons_append,
      weights_cons, weights_cons, weights_append]
    have hname : (Token.string name).weight = weight name + 2 := rfl
    have hcolon : Token.colon.weight = 1 := rfl
    rcases eq_or_ne members [] with rfl | hmore
    · have hend : weights (moreMembers []) = 1 := rfl
      rw [List.map_nil, List.sum_nil]
      dsimp only
      omega
    · have hcomma : Token.comma.weight = 1 := rfl
      rw [moreMembers_eq hmore, weights_cons, ih hmore]
      dsimp only
      omega

/-- How many characters are written. -/
theorem length_writePairs (h : pairs ≠ []) :
    (writePairs pairs).length + 1 =
      (pairs.map fun p => p.1.length + weight p.2 + 6).sum := by
  induction pairs with
  | nil => exact absurd rfl h
  | cons p pairs ih =>
    have hpair : (writePair p).length = p.1.length + weight p.2 + 5 := by
      simp [writePair, length_escapeQuotes]
      omega
    rw [List.map_cons, List.sum_cons]
    rcases eq_or_ne pairs [] with rfl | hmore
    · have hone : writePairs [p] = writePair p := List.intercalate_singleton
      rw [hone, List.map_nil, List.sum_nil]
      omega
    · have hrest := ih hmore
      rw [writePairs_cons hmore, List.length_append, List.length_cons]
      omega

/-- The tokens of a member are among those of its object. -/
theorem mem_memberTokens {m : List Char × Value} (h : m ∈ members) :
    .string m.1 ∈ memberTokens members ∧ ∀ t ∈ m.2.tokens, t ∈ memberTokens members := by
  induction members with
  | nil => cases h
  | cons m' members ih =>
    obtain ⟨name, v⟩ := m'
    rw [memberTokens]
    rcases List.mem_cons.mp h with rfl | hmem
    · exact ⟨List.mem_cons_self, fun t ht => by simp [ht]⟩
    · obtain ⟨hname, hv⟩ := ih hmem
      rw [moreMembers_eq (List.ne_nil_of_mem hmem)]
      exact ⟨by simp [hname], fun t ht => by simp [hv t ht]⟩

/-- **What is read in place of an object of strings** takes at least as much, so that it is read
back only if there is nothing but quotes in them to escape, and nothing in its names. -/
theorem cleanPair_of_lex {inner : List (List Char × Value)} (hne : pairs ≠ [])
    (hlex : lex (writePairs pairs ++ '}' :: ['}']) =
      some (memberTokens inner ++ moreMembers members))
    (hperm : inner.Perm (pairMembers pairs)) : ∀ p ∈ pairs, CleanPair p := by
  have hinner : inner ≠ [] := by
    rintro rfl
    exact hne (List.map_eq_nil_iff.mp (List.nil_perm.mp hperm))
  -- what the members need
  have hneed : weights (memberTokens inner) =
      (pairs.map fun p => p.1.length + weight p.2 + 6).sum +
        (pairs.map fun p => p.1.count '"').sum := by
    rw [weights_memberTokens hinner, (hperm.map _).sum_eq, ← List.sum_map_add, pairMembers,
      List.map_map]
    refine congrArg List.sum (List.map_congr_left fun p _ => ?_)
    have hstring : weights (Value.string p.2).tokens = weight p.2 + 2 := rfl
    simp only [Function.comp_apply, hstring, weight]
    omega
  have hend : 0 < weights (moreMembers members) := by
    rcases members with _ | ⟨⟨name, v⟩, members⟩
    · exact Nat.succ_pos _
    · rw [moreMembers, List.cons_append, weights_cons]
      exact Nat.add_pos_left Token.weight_pos _
  have hlength := length_writePairs hne
  obtain ⟨hle, hplain⟩ := weight_le_of_lex hlex
  rw [weights_append, List.length_append, List.length_cons, List.length_singleton] at hle hplain
  have hquotes : (pairs.map fun p => p.1.count '"').sum = 0 := by omega
  have htokens := hplain (by omega)
  intro p hp
  have hmem : (p.1, Value.string p.2) ∈ inner :=
    hperm.mem_iff.mpr (List.mem_map_of_mem hp)
  obtain ⟨hname, hvalue⟩ := mem_memberTokens hmem
  refine ⟨htokens _ (List.mem_append_left _ hname), ?_, ?_⟩
  · have hzero := List.sum_eq_zero_iff_forall_eq_nat.mp hquotes
    exact List.count_eq_zero.mp (hzero _ (List.mem_map_of_mem hp))
  · exact htokens _ (List.mem_append_left _ (hvalue _ List.mem_cons_self))

end Pairs

end Json
