import Mathlib.Algebra.Ring.Nat
import Mathlib.Data.List.Forall2
import SaferRing.Error
import SaferRing.Library.Decimal

/-!
# The processors of a node

The processors of a NUMA node are told by a text such as `0-7,16-23`, numbers and ranges of
numbers between commas. `SaferRing.parseCpuList` goes through the parts and adds up what each
of them stands for.

Whatever is written so is read back (`SaferRing.parseCpuList_cpuListText`). What is not is not
always refused: a part with two dashes and a range that goes down stand for nothing, and a
number may have a plus sign. `SaferRing.strict_iff` is that **what is read is what is written
exactly when the text is well formed or has a part that is refused**.
-/

namespace SaferRing

/-! ### The parser -/

/-- A number of 64 bits. -/
def parseUsize : List Char → Option ℕ := Decimal.parse (2 ^ 64)

/-- The numbers from one to another, both included. -/
def inclusiveRange (start stop : ℕ) : List ℕ := List.range' start (stop + 1 - start)

/-- What one part stands for: a range, if there is a dash in it, or a number. -/
def parseCpuPart (part : List Char) : Except IoError (List ℕ) :=
  if '-' ∈ part then
    match part.splitOn '-' with
    | [start, stop] =>
      match parseUsize start with
      | none => .error (.new .invalidData "Invalid CPU range")
      | some start =>
        match parseUsize stop with
        | none => .error (.new .invalidData "Invalid CPU range")
        | some stop => .ok (inclusiveRange start stop)
    -- a part with more than one dash is passed over
    | _ => .ok []
  else
    match parseUsize part with
    | none => .error (.new .invalidData "Invalid CPU number")
    | some cpu => .ok [cpu]

/-- The loop over the parts, with the processors found so far. -/
def parseCpuParts : List ℕ → List (List Char) → Except IoError (List ℕ)
  | cpus, [] => .ok cpus
  | cpus, part :: parts =>
    match parseCpuPart part with
    | .error e => .error e
    | .ok found => parseCpuParts (cpus ++ found) parts

/-- **Read a list of processors.** -/
def parseCpuList (cpulist : String) : Except IoError (List ℕ) :=
  parseCpuParts [] (cpulist.toList.splitOn ',')

/-- **What the loop finds** is what each part stands for, in order. -/
theorem parseCpuParts_eq_ok {parts : List (List Char)} {before cpus : List ℕ} :
    parseCpuParts before parts = .ok cpus ↔
      ∃ found, List.Forall₂ (fun part cpus => parseCpuPart part = .ok cpus) parts found ∧
        cpus = before ++ found.flatten := by
  induction parts generalizing before with
  | nil =>
    rw [parseCpuParts, Except.ok.injEq]
    constructor
    · rintro rfl
      exact ⟨[], .nil, by simp⟩
    · rintro ⟨found, hfound, rfl⟩
      cases hfound
      simp
  | cons part parts ih =>
    rcases hpart : parseCpuPart part with e | first
    · simp only [parseCpuParts, hpart]
      refine iff_of_false (by simp) ?_
      rintro ⟨found, hfound, -⟩
      cases hfound with
      | cons hfirst _ => exact absurd (hpart.symm.trans hfirst) (by simp)
    · simp only [parseCpuParts, hpart, ih]
      constructor
      · rintro ⟨found, hfound, rfl⟩
        exact ⟨first :: found, .cons hpart hfound, by simp⟩
      · rintro ⟨found, hfound, rfl⟩
        cases hfound with
        | @cons _ first' _ found hfirst hfound =>
          obtain rfl := Except.ok.inj (hpart.symm.trans hfirst)
          exact ⟨found, hfound, by simp⟩

/-- An error of the loop is one of a part. -/
theorem parseCpuParts_eq_error {parts : List (List Char)} {before : List ℕ} :
    (∃ e, parseCpuParts before parts = .error e) ↔
      ∃ part ∈ parts, ∃ e, parseCpuPart part = .error e := by
  induction parts generalizing before with
  | nil => simp [parseCpuParts]
  | cons part parts ih =>
    rcases hpart : parseCpuPart part with e | first
    · simp [parseCpuParts, hpart]
    · simp [parseCpuParts, hpart, ih]

/-! ### Parts -/

section Parts

variable {part first last : List Char} {n : ℕ} {cpus : List ℕ}

/-- A part without a dash is read as a number. -/
theorem parseCpuPart_of_not_mem (h : '-' ∉ part) :
    parseCpuPart part =
      match parseUsize part with
      | none => .error (.new .invalidData "Invalid CPU number")
      | some cpu => .ok [cpu] :=
  if_neg h

/-- A part with one dash is split there. -/
theorem splitOn_dash (hfirst : '-' ∉ first) (hlast : '-' ∉ last) :
    (first ++ '-' :: last).splitOn '-' = [first, last] := by
  rw [List.splitOn_append_cons_self_of_not_mem hfirst, List.splitOn_eq_singleton hlast]

/-- A part with one dash is read as a range. -/
theorem parseCpuPart_range (hfirst : '-' ∉ first) (hlast : '-' ∉ last) :
    parseCpuPart (first ++ '-' :: last) =
      match parseUsize first with
      | none => .error (.new .invalidData "Invalid CPU range")
      | some start =>
        match parseUsize last with
        | none => .error (.new .invalidData "Invalid CPU range")
        | some stop => .ok (inclusiveRange start stop) := by
  rw [parseCpuPart, if_pos (List.mem_append_right _ List.mem_cons_self),
    splitOn_dash hfirst hlast]

/-- A numeral has no dash. -/
theorem dash_not_mem {digits : List Char} (h : Decimal.Numeral digits) : '-' ∉ digits :=
  h.not_mem (by decide)

end Parts

/-! ### What is written is read -/

/-- **An interval of processors**, which does not go down. -/
structure Interval where
  /-- The first of them. -/
  first : ℕ
  /-- The last. -/
  last : ℕ
  /-- The first does not come after the last. -/
  le : first ≤ last
  /-- They are numbers of 64 bits. -/
  lt : last < 2 ^ 64

namespace Interval

/-- Its numbers. -/
def numbers (interval : Interval) : List ℕ := inclusiveRange interval.first interval.last

/-- How it is written. -/
def text (interval : Interval) : String :=
  if interval.first = interval.last then s!"{interval.first}"
  else s!"{interval.first}-{interval.last}"

variable {interval : Interval}

/-- An interval of one number is written as the number. -/
theorem toList_text_of_eq (h : interval.first = interval.last) :
    interval.text.toList = Nat.toDigits 10 interval.first := by
  simp [text, if_pos h, toString]

/-- An interval of several is written with a dash. -/
theorem toList_text_of_ne (h : interval.first ≠ interval.last) :
    interval.text.toList =
      Nat.toDigits 10 interval.first ++ '-' :: Nat.toDigits 10 interval.last := by
  simp [text, if_neg h, toString]

/-- An interval is written without a comma. -/
theorem comma_not_mem : ',' ∉ interval.text.toList := by
  have hfirst := (Decimal.numeral_toDigits interval.first).not_mem (c := ',') (by decide)
  have hlast := (Decimal.numeral_toDigits interval.last).not_mem (c := ',') (by decide)
  by_cases h : interval.first = interval.last
  · rwa [toList_text_of_eq h]
  · rw [toList_text_of_ne h, List.mem_append, List.mem_cons, not_or, not_or]
    exact ⟨hfirst, by decide, hlast⟩

/-- **One interval is read back.** -/
theorem parseCpuPart_text : parseCpuPart interval.text.toList = .ok interval.numbers := by
  have hfirst := dash_not_mem (Decimal.numeral_toDigits interval.first)
  have hlast := dash_not_mem (Decimal.numeral_toDigits interval.last)
  have hparse : parseUsize (Nat.toDigits 10 interval.first) = some interval.first :=
    Decimal.parse_toDigits (Nat.lt_of_le_of_lt interval.le interval.lt)
  by_cases h : interval.first = interval.last
  · have hone : interval.numbers = [interval.first] := by
      rw [numbers, inclusiveRange, ← h, Nat.add_sub_cancel_left]
      rfl
    rw [toList_text_of_eq h, parseCpuPart_of_not_mem hfirst, hparse, hone]
  · have hstop : parseUsize (Nat.toDigits 10 interval.last) = some interval.last :=
      Decimal.parse_toDigits interval.lt
    rw [toList_text_of_ne h, parseCpuPart_range hfirst hlast, hparse, hstop]
    rfl

end Interval

/-- Intervals, with commas between them. -/
def cpuListText (intervals : List Interval) : String :=
  ",".intercalate (intervals.map Interval.text)

/-- **What is written is read back**: the numbers of all intervals, in order. -/
theorem parseCpuList_cpuListText (intervals : List Interval) (hne : intervals ≠ []) :
    parseCpuList (cpuListText intervals) = .ok (intervals.flatMap Interval.numbers) := by
  have hsplit : (cpuListText intervals).toList.splitOn ',' =
      intervals.map fun interval => interval.text.toList := by
    have hcomma : ",".toList = [','] := rfl
    rw [cpuListText, String.toList_intercalate, List.map_map, hcomma]
    refine List.splitOn_intercalate ',' (fun part hpart => ?_) (by simpa using hne)
    obtain ⟨interval, -, rfl⟩ := List.mem_map.mp hpart
    exact Interval.comma_not_mem
  rw [parseCpuList, hsplit, parseCpuParts_eq_ok]
  refine ⟨intervals.map Interval.numbers, ?_, by rw [List.nil_append, List.flatMap_def]⟩
  rw [List.forall₂_map_left_iff, List.forall₂_map_right_iff, List.forall₂_same]
  exact fun interval _ => Interval.parseCpuPart_text

/-- The processors of a node that has four in a row and one by itself. -/
theorem parseCpuList_fiveProcessors : parseCpuList "0-3,8" = .ok [0, 1, 2, 3, 8] := by
  have htext : cpuListText [⟨0, 3, by decide, by decide⟩, ⟨8, 8, by decide, by decide⟩] =
      "0-3,8" := by decide
  have hread := parseCpuList_cpuListText
    [⟨0, 3, by decide, by decide⟩, ⟨8, 8, by decide, by decide⟩] (by simp)
  rw [htext] at hread
  exact hread

/-! ### What else is read -/

/-- **What a part stands for**, if it is written as it should be: a number, or a range that does
not go down. -/
inductive PartDenotes : List Char → List ℕ → Prop
  /-- A number stands for itself. -/
  | number {digits : List Char} (h : Decimal.Numeral digits) :
    PartDenotes digits [Decimal.value digits]
  /-- A range stands for its numbers. -/
  | range {first last : List Char} (hfirst : Decimal.Numeral first)
    (hlast : Decimal.Numeral last) (hle : Decimal.value first ≤ Decimal.value last) :
    PartDenotes (first ++ '-' :: last) (inclusiveRange (Decimal.value first) (Decimal.value last))

/-- **A text is a list of processors**: every part between commas stands for some. -/
def WellFormedList (cpulist : String) : Prop :=
  ∀ part ∈ cpulist.toList.splitOn ',', ∃ cpus, PartDenotes part cpus

/-- **What a text stands for** is what its parts stand for, in order. -/
def ListDenotes (cpulist : String) (cpus : List ℕ) : Prop :=
  ∃ found, List.Forall₂ PartDenotes (cpulist.toList.splitOn ',') found ∧ cpus = found.flatten

/-- **Nothing malformed is read**: a text that is not a list of processors is refused, and of one
that is no processor is left out. -/
def Strict (cpulist : String) : Prop :=
  (¬WellFormedList cpulist → ∃ e, parseCpuList cpulist = .error e) ∧
    ∀ cpus, parseCpuList cpulist = .ok cpus → ListDenotes cpulist cpus

/-- **A part is refused** when it has one dash at most, and what is before or after it, or the
part, is no number of 64 bits. -/
def Refused (part : List Char) : Prop :=
  part.count '-' ≤ 1 ∧ ∃ piece ∈ part.splitOn '-', parseUsize piece = none

section Refused

variable {part piece : List Char} {cpus cpus' : List ℕ}

/-- There is a piece more than there are dashes. -/
theorem length_splitOn_dash (part : List Char) :
    (part.splitOn '-').length = part.count '-' + 1 := by
  induction part with
  | nil => rfl
  | cons c part ih =>
    rw [List.splitOn_cons_eq_if_modifyHead, List.count_cons]
    by_cases hc : (c == '-') = true
    · rw [if_pos hc, if_pos hc, List.length_cons, ih]
    · rw [if_neg hc, if_neg hc, List.length_modifyHead, ih]

/-- **Which parts the parser refuses.** -/
theorem parseCpuPart_eq_error_iff : (∃ e, parseCpuPart part = .error e) ↔ Refused part := by
  have hlen := length_splitOn_dash part
  rw [Refused]
  rcases hsplit : part.splitOn '-' with _ | ⟨first, _ | ⟨last, _ | ⟨piece, rest⟩⟩⟩
  · exact absurd hsplit (List.splitOn_ne_nil '-' part)
  · -- no dash
    rw [hsplit] at hlen
    have hcount : part.count '-' = 0 := Nat.succ.inj hlen.symm
    have hdash : '-' ∉ part := List.count_eq_zero.mp hcount
    rw [List.splitOn_eq_singleton hdash] at hsplit
    obtain rfl := List.singleton_inj.mp hsplit
    rw [parseCpuPart_of_not_mem hdash]
    rcases hn : parseUsize part with _ | n <;> simp [hcount, hn]
  · -- one dash
    rw [hsplit] at hlen
    have hcount : part.count '-' = 1 := Nat.succ.inj hlen.symm
    have hdash : '-' ∈ part := List.count_pos_iff.mp (by omega)
    rw [parseCpuPart, if_pos hdash, hsplit]
    rcases hn : parseUsize first with _ | start
    · simp [hcount, hn]
    · rcases hm : parseUsize last with _ | stop <;> simp [hcount, hn, hm]
  · -- more dashes
    rw [hsplit] at hlen
    have hcount : 2 ≤ part.count '-' := by
      simp only [List.length_cons] at hlen
      omega
    have hdash : '-' ∈ part := List.count_pos_iff.mp (by omega)
    rw [parseCpuPart, if_pos hdash, hsplit]
    refine iff_of_false (by simp) fun h => ?_
    have hle := h.1
    omega

/-- **Of a part that is written as it should be no processor is left out**, if it is read. -/
theorem PartDenotes.eq (h : PartDenotes part cpus) (hparse : parseCpuPart part = .ok cpus') :
    cpus' = cpus := by
  cases h with
  | number h =>
    rw [parseCpuPart_of_not_mem (dash_not_mem h)] at hparse
    rcases hn : parseUsize part with _ | n
    · rw [hn] at hparse
      cases hparse
    · rw [hn] at hparse
      rw [← Except.ok.inj hparse, h.value_eq hn]
  | @range first last hfirst hlast hle =>
    rw [parseCpuPart_range (dash_not_mem hfirst) (dash_not_mem hlast)] at hparse
    rcases hn : parseUsize first with _ | start
    · rw [hn] at hparse
      cases hparse
    rcases hm : parseUsize last with _ | stop
    · rw [hn, hm] at hparse
      cases hparse
    · rw [hn, hm] at hparse
      rw [← Except.ok.inj hparse, hfirst.value_eq hn, hlast.value_eq hm]

/-- What is written as it should be stands for a processor, and has no plus sign. -/
theorem PartDenotes.ne_nil (h : PartDenotes part cpus) : cpus ≠ [] ∧ '+' ∉ part := by
  cases h with
  | number h => exact ⟨by simp, h.not_mem (by decide)⟩
  | @range first last hfirst hlast hle =>
    have hsign : '+' ∉ first ++ '-' :: last := by
      rw [List.mem_append, List.mem_cons, not_or, not_or]
      exact ⟨hfirst.not_mem (by decide), by decide, hlast.not_mem (by decide)⟩
    refine ⟨fun hnil => ?_, hsign⟩
    have hlen := congrArg List.length hnil
    rw [inclusiveRange, List.length_range', List.length_nil] at hlen
    omega

/-- A part that is read as no processor is not written as it should be. -/
theorem not_denotes_of_nil (h : parseCpuPart part = .ok []) : ¬∃ cpus, PartDenotes part cpus := by
  rintro ⟨cpus, hcpus⟩
  exact hcpus.ne_nil.1 (hcpus.eq h).symm

end Refused

/-- The parser answers with an error exactly when a part is refused. -/
theorem parseCpuList_eq_error_iff {cpulist : String} :
    (∃ e, parseCpuList cpulist = .error e) ↔
      ∃ part ∈ cpulist.toList.splitOn ',', Refused part := by
  rw [parseCpuList, parseCpuParts_eq_error]
  simp only [parseCpuPart_eq_error_iff]

/-- **What is read of a list of processors is what it stands for.** -/
theorem listDenotes_of_wellFormed {cpulist : String} {cpus : List ℕ}
    (h : WellFormedList cpulist) (hparse : parseCpuList cpulist = .ok cpus) :
    ListDenotes cpulist cpus := by
  obtain ⟨found, hfound, rfl⟩ := parseCpuParts_eq_ok.mp hparse
  clear hparse
  refine ⟨found, ?_, rfl⟩
  rw [WellFormedList] at h
  -- part by part: what is found is what it stands for
  generalize cpulist.toList.splitOn ',' = parts at h hfound
  induction hfound with
  | nil => exact .nil
  | cons hfirst _ ih =>
    obtain ⟨hpart, hparts⟩ := List.forall_mem_cons.mp h
    obtain ⟨cpus, hcpus⟩ := hpart
    exact .cons (hcpus.eq hfirst ▸ hcpus) (ih hparts)

/-- What stands for processors is a list of them. -/
theorem ListDenotes.wellFormed {cpulist : String} {cpus : List ℕ} (h : ListDenotes cpulist cpus) :
    WellFormedList cpulist := by
  obtain ⟨found, hfound, -⟩ := h
  rw [WellFormedList]
  generalize cpulist.toList.splitOn ',' = parts at hfound ⊢
  induction hfound with
  | nil => exact List.forall_mem_nil _
  | cons hpart _ ih => exact List.forall_mem_cons.mpr ⟨⟨_, hpart⟩, ih⟩

/-- **Nothing malformed is read of a text exactly when the text is well formed or has a part that
is refused.** -/
theorem strict_iff (cpulist : String) :
    Strict cpulist ↔
      WellFormedList cpulist ∨ ∃ part ∈ cpulist.toList.splitOn ',', Refused part := by
  rw [← parseCpuList_eq_error_iff]
  constructor
  · rintro ⟨hrefused, -⟩
    by_cases hform : WellFormedList cpulist
    · exact Or.inl hform
    · exact Or.inr (hrefused hform)
  · rintro (hform | ⟨e, he⟩)
    · exact ⟨fun hc => absurd hform hc, fun cpus => listDenotes_of_wellFormed hform⟩
    · refine ⟨fun _ => ⟨e, he⟩, fun cpus hcpus => ?_⟩
      rw [he] at hcpus
      cases hcpus

/-- A text with a malformed part that is not refused is read all the same. -/
theorem not_strict {cpulist : String} {cpus : List ℕ} (part : List Char)
    (hmem : part ∈ cpulist.toList.splitOn ',') (hpart : ¬∃ cpus, PartDenotes part cpus)
    (hparse : parseCpuList cpulist = .ok cpus) : ¬Strict cpulist :=
  fun h => hpart ((h.2 cpus hparse).wellFormed part hmem)

/-- **Two dashes are passed over**, and so is a range that goes down; a plus sign is read. -/
theorem not_strict_twoDashes :
    (parseCpuList "0,1-2-3" = .ok [0] ∧ ¬Strict "0,1-2-3") ∧
      (parseCpuList "5-3" = .ok [] ∧ ¬Strict "5-3") ∧
        parseCpuList "+5" = .ok [5] ∧ ¬Strict "+5" := by
  refine ⟨⟨rfl, ?_⟩, ⟨rfl, ?_⟩, rfl, ?_⟩
  · exact not_strict ['1', '-', '2', '-', '3'] (by decide) (not_denotes_of_nil rfl) rfl
  · exact not_strict ['5', '-', '3'] (by decide) (not_denotes_of_nil rfl) rfl
  · have hsign : ¬∃ cpus, PartDenotes ['+', '5'] cpus := by
      rintro ⟨cpus, hcpus⟩
      exact hcpus.ne_nil.2 List.mem_cons_self
    exact not_strict ['+', '5'] (by decide) hsign rfl

end SaferRing
