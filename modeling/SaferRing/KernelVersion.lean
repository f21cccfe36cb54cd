import Mathlib.Algebra.Ring.Nat
import SaferRing.Error
import SaferRing.Library.Decimal
import SaferRing.Library.Scan

/-!
# The version of the kernel

Which features there are is told from the release of the kernel, a text such as `6.1.12-arch1`
that `SaferRing.FeatureDetector.parseKernelVersion` takes apart at its dots. A suffix, as
distributions append one, is cut off the third number only:
`SaferRing.FeatureDetector.parseKernelVersion_iff` is that **a version is read as what it says
exactly when it has a third number or no suffix**.
-/

namespace SaferRing

namespace FeatureDetector

/-- A number of 32 bits. -/
def parseU32 : List Char → Option ℕ := Decimal.parse (2 ^ 32)

/-- **Read the release of a kernel**: two numbers, and the digits that a third part starts
with. -/
def parseKernelVersion (versionStr : String) : Except String (ℕ × ℕ × ℕ) :=
  match versionStr.toList.splitOn '.' with
  | major :: minor :: rest =>
    match parseU32 major with
    | none => .error "Invalid major version number"
    | some major =>
      match parseU32 minor with
      | none => .error "Invalid minor version number"
      | some minor =>
        let patch :=
          match rest with
          | patchPart :: _ => (parseU32 (patchPart.takeWhile Char.isDigit)).getD 0
          | [] => 0
        .ok (major, minor, patch)
  | _ => .error "Invalid kernel version format"

/-- The text of a version: two numbers, a third if there is one, and a suffix. -/
def versionText (major minor : ℕ) (patch : Option ℕ) (suffix : String) : String :=
  match patch with
  | none => s!"{major}.{minor}{suffix}"
  | some patch => s!"{major}.{minor}.{patch}{suffix}"

/-- **A suffix** is none, or starts with something that is no digit and no dot. -/
def IsSuffix (suffix : String) : Prop :=
  ∀ c, suffix.toList.head? = some c → ¬c.isDigit ∧ c ≠ '.'

variable {major minor p : ℕ} {suffix : String}

/-- A number has no dot. -/
theorem not_mem_toDigits (n : ℕ) : '.' ∉ Nat.toDigits 10 n :=
  (Decimal.numeral_toDigits n).not_mem (by decide)

/-- The parts of a text that starts with a number and a dot. -/
theorem splitOn_number (n : ℕ) (text : List Char) :
    (Nat.toDigits 10 n ++ '.' :: text).splitOn '.' = Nat.toDigits 10 n :: text.splitOn '.' :=
  List.splitOn_append_cons_self_of_not_mem (not_mem_toDigits n) text

/-- What comes last goes on to the next dot: the number, and the part of the suffix before its
first dot. -/
theorem splitOn_last (n : ℕ) (suffix : List Char) :
    ∃ first rest, suffix.splitOn '.' = first :: rest ∧
      (Nat.toDigits 10 n ++ suffix).splitOn '.' = (Nat.toDigits 10 n ++ first) :: rest := by
  obtain ⟨first, rest, hsplit⟩ := List.exists_cons_of_ne_nil (List.splitOn_ne_nil '.' suffix)
  refine ⟨first, rest, hsplit, ?_⟩
  have hdot := not_mem_toDigits n
  -- induction on the number's digits, each of which goes to the front of the first part
  generalize Nat.toDigits 10 n = digits at hdot ⊢
  induction digits with
  | nil => exact hsplit
  | cons d digits ih =>
    rw [List.mem_cons, not_or] at hdot
    rw [List.cons_append, List.splitOn_cons_eq_if_modifyHead, ih hdot.2, if_neg]
    · rfl
    · exact fun hd => hdot.1 (beq_iff_eq.mp hd).symm

/-- The part of a suffix before its first dot is empty with it, and starts as it does. -/
theorem head?_splitOn {text first : List Char} {rest : List (List Char)}
    (hsplit : text.splitOn '.' = first :: rest) (hdot : text.head? ≠ some '.') :
    first.head? = text.head? := by
  rcases text with _ | ⟨c, text⟩
  · obtain ⟨rfl, -⟩ := List.cons.inj hsplit
    rfl
  · obtain ⟨before, after, htail⟩ := List.exists_cons_of_ne_nil (List.splitOn_ne_nil '.' text)
    have hc : ¬(c == '.') = true := fun hc => hdot (by rw [beq_iff_eq.mp hc]; rfl)
    rw [List.splitOn_cons_eq_if_modifyHead, if_neg hc, htail] at hsplit
    obtain ⟨rfl, -⟩ := List.cons.inj hsplit
    rfl

/-- A version with a third number is read as what it says. -/
theorem parseKernelVersion_some (hmajor : major < 2 ^ 32) (hminor : minor < 2 ^ 32)
    (hp : p < 2 ^ 32) (hsuffix : IsSuffix suffix) :
    parseKernelVersion (versionText major minor (some p) suffix) = .ok (major, minor, p) := by
  have htext : (versionText major minor (some p) suffix).toList =
      Nat.toDigits 10 major ++ '.' :: (Nat.toDigits 10 minor ++
        '.' :: (Nat.toDigits 10 p ++ suffix.toList)) := by
    simp [versionText, toString]
  obtain ⟨first, rest, hsplit, hlast⟩ := splitOn_last p suffix.toList
  have hhead := head?_splitOn hsplit fun hdot => (hsuffix '.' hdot).2 rfl
  have htake : (Nat.toDigits 10 p ++ first).takeWhile Char.isDigit = Nat.toDigits 10 p :=
    Scanner.takeWhile_append (Decimal.numeral_toDigits p).2 fun c hc =>
      (hsuffix c (hhead ▸ hc)).1
  simp only [parseKernelVersion, htext, splitOn_number, hlast, htake, parseU32,
    Decimal.parse_toDigits hmajor, Decimal.parse_toDigits hminor, Decimal.parse_toDigits hp,
    Option.getD_some]

/-- A version of two numbers is read as what it says. -/
theorem parseKernelVersion_none (hmajor : major < 2 ^ 32) (hminor : minor < 2 ^ 32) :
    parseKernelVersion (versionText major minor none "") = .ok (major, minor, 0) := by
  have htext : (versionText major minor none "").toList =
      Nat.toDigits 10 major ++ '.' :: Nat.toDigits 10 minor := by
    simp [versionText, toString]
  have hlast : (Nat.toDigits 10 minor).splitOn '.' = [Nat.toDigits 10 minor] :=
    List.splitOn_eq_singleton (not_mem_toDigits minor)
  simp only [parseKernelVersion, htext, splitOn_number, hlast, parseU32,
    Decimal.parse_toDigits hmajor, Decimal.parse_toDigits hminor]

/-- **A suffix of the second number is taken for a part of it**, and refused. -/
theorem parseKernelVersion_suffix (hmajor : major < 2 ^ 32) (hsuffix : IsSuffix suffix)
    (hne : suffix ≠ "") :
    parseKernelVersion (versionText major minor none suffix) =
      .error "Invalid minor version number" := by
  have htext : (versionText major minor none suffix).toList =
      Nat.toDigits 10 major ++ '.' :: (Nat.toDigits 10 minor ++ suffix.toList) := by
    simp [versionText, toString]
  obtain ⟨first, rest, hsplit, hlast⟩ := splitOn_last minor suffix.toList
  have hhead := head?_splitOn hsplit fun hdot => (hsuffix '.' hdot).2 rfl
  have hfirst : first ≠ [] := by
    rintro rfl
    have hnil : suffix.toList = [] := List.head?_eq_none_iff.mp hhead.symm
    exact hne (String.toList_eq_nil_iff.mp hnil)
  obtain ⟨c, text, rfl⟩ := List.exists_cons_of_ne_nil hfirst
  have hnone : Decimal.parse (2 ^ 32) (Nat.toDigits 10 minor ++ c :: text) = none :=
    Decimal.parse_append_eq_none (Decimal.numeral_toDigits minor) (hsuffix c hhead.symm).1
  simp only [parseKernelVersion, htext, splitOn_number, hlast, parseU32,
    Decimal.parse_toDigits hmajor, hnone]

/-- **A version is read as what it says exactly when it has a third number or no suffix**, for all
numbers and every suffix. -/
theorem parseKernelVersion_iff (major minor : ℕ) (patch : Option ℕ) (suffix : String)
    (hmajor : major < 2 ^ 32) (hminor : minor < 2 ^ 32) (hpatch : ∀ p ∈ patch, p < 2 ^ 32)
    (hsuffix : IsSuffix suffix) :
    parseKernelVersion (versionText major minor patch suffix) =
      .ok (major, minor, patch.getD 0) ↔ patch.isSome ∨ suffix = "" := by
  cases patch with
  | some p =>
    exact iff_of_true (parseKernelVersion_some hmajor hminor (hpatch p rfl) hsuffix) (Or.inl rfl)
  | none =>
    by_cases hempty : suffix = ""
    · subst hempty
      exact iff_of_true (parseKernelVersion_none hmajor hminor) (Or.inr rfl)
    · rw [parseKernelVersion_suffix hmajor hsuffix hempty]
      exact iff_of_false (by simp) (by simp [hempty])

/-- The version of a distribution's kernel, with its suffix. -/
theorem parseKernelVersion_arch :
    parseKernelVersion (versionText 6 1 (some 12) "-arch1") = .ok (6, 1, 12) := by
  refine (parseKernelVersion_iff 6 1 (some 12) "-arch1" (by decide) (by decide) (by simp) ?_).mpr
    (Or.inl rfl)
  intro c hc
  obtain rfl := Option.some.inj hc
  decide

/-- **A release candidate is refused**, `6.5-rc1`. -/
theorem not_parseKernelVersion_candidate :
    versionText 6 5 none "-rc1" = "6.5-rc1" ∧
      parseKernelVersion "6.5-rc1" = .error "Invalid minor version number" ∧
      parseKernelVersion "6.5-rc1" ≠ .ok (6, 5, 0) := by
  have hrefused : parseKernelVersion "6.5-rc1" = .error "Invalid minor version number" := rfl
  refine ⟨by decide, hrefused, ?_⟩
  rw [hrefused]
  simp

end FeatureDetector

end SaferRing
