import Mathlib.Algebra.BigOperators.Group.List.Basic
import Mathlib.Algebra.Group.Action.Defs
import Mathlib.Algebra.Order.BigOperators.Group.List
import Mathlib.Algebra.Order.Ring.Nat
import SaferRing.Logging

/-!
# Performance metrics

`SaferRing.PerformanceMetrics` keeps, by the name of an operation, how often it was recorded, the
sum of its durations, and the shortest and the longest of them, in a map each. What the four maps
say of a name after any records is a `SaferRing.PerformanceMetrics.Summary` of its durations:
`SaferRing.PerformanceMetrics.recordAll_summary`.

The average divides the sum by the count, of which it takes the lower 32 bits.
`SaferRing.PerformanceMetrics.exact_iff` is that **the metrics are right exactly when the count
fits in 32 bits, or the sum is too small for the difference to show**.
-/

namespace SaferRing

/-! ### The metrics -/

/-- A map by the names of operations. -/
abbrev NameMap (V : Type) : Type := AList fun _ : String => V

/-- **The metrics**, by the names of operations. -/
structure PerformanceMetrics where
  /-- How often each was recorded. -/
  operationCounts : NameMap ℕ
  /-- How long each took in all. -/
  operationDurations : NameMap Duration
  /-- The shortest duration of each. -/
  minDurations : NameMap Duration
  /-- The longest duration of each. -/
  maxDurations : NameMap Duration

namespace PerformanceMetrics

/-- Metrics of nothing. -/
def new : PerformanceMetrics := ⟨∅, ∅, ∅, ∅⟩

variable (self : PerformanceMetrics)

/-- **Record how long an operation took.** The sum can be too long, which panics. -/
def recordOperation (operation : String) (duration : Duration) : Outcome PerformanceMetrics :=
  let count := (self.operationCounts.lookup operation).getD 0
  let total := (self.operationDurations.lookup operation).getD .zero
  let minDuration := (self.minDurations.lookup operation).getD duration
  let maxDuration := (self.maxDurations.lookup operation).getD duration
  (total.add duration).map fun total =>
    { operationCounts := self.operationCounts.insert operation (wrappingAdd count 1)
      operationDurations := self.operationDurations.insert operation total
      minDurations := self.minDurations.insert operation
        (if duration.nanos < minDuration.nanos then duration else minDuration)
      maxDurations := self.maxDurations.insert operation
        (if duration.nanos > maxDuration.nanos then duration else maxDuration) }

/-- How often an operation was recorded. -/
def getCount (operation : String) : ℕ := (self.operationCounts.lookup operation).getD 0

/-- The average duration of an operation, if it was recorded. -/
def getAverageDuration (operation : String) : Outcome (Option Duration) :=
  let count := self.getCount operation
  if count = 0 then .returned none
  else
    match self.operationDurations.lookup operation with
    | none => .returned none
    | some total => (total.divU32 (asU32 count)).map some

/-- The shortest duration of an operation. -/
def getMinDuration (operation : String) : Option Duration := self.minDurations.lookup operation

/-- The longest duration of an operation. -/
def getMaxDuration (operation : String) : Option Duration := self.maxDurations.lookup operation

/-- **Record one duration after the other**, until one panics. -/
def recordAll : PerformanceMetrics → List (String × Duration) → Outcome PerformanceMetrics
  | self, [] => .returned self
  | self, (operation, duration) :: rest =>
    match self.recordOperation operation duration with
    | .returned metrics => recordAll metrics rest
    | .blocked => .blocked
    | .panicked => .panicked

/-! ### What they say of an operation -/

/-- The durations recorded of an operation. -/
def durationsOf (operation : String) (records : List (String × Duration)) : List Duration :=
  (records.filter fun record => record.1 = operation).map Prod.snd

/-- How long these are in all, in nanoseconds. -/
def totalNanos (durations : List Duration) : ℕ := (durations.map Duration.nanos).sum

/-- **The metrics of an operation are right**: its count is the number of its durations, and if it
has any, their average is the sum by the count, and between the shortest and the longest. -/
def Exact (operation : String) (durations : List Duration) : Prop :=
  self.getCount operation = durations.length ∧
    (durations = [] → self.getAverageDuration operation = .returned none) ∧
    (durations ≠ [] → ∃ average minDuration maxDuration,
      self.getAverageDuration operation = .returned (some average) ∧
      average.nanos = totalNanos durations / durations.length ∧
      self.getMinDuration operation = some minDuration ∧
      self.getMaxDuration operation = some maxDuration ∧
      minDuration.nanos ≤ average.nanos ∧ average.nanos ≤ maxDuration.nanos)

/-- One of some durations is what an entry says, and comes first of them in an order. -/
def Extreme (r : ℕ → ℕ → Prop) (durations : List Duration) (entry : Option Duration) : Prop :=
  ∃ first ∈ durations, entry = some first ∧ ∀ duration ∈ durations, r first.nanos duration.nanos

/-- **The four maps sum up the durations** of an operation. -/
structure Summary (metrics : PerformanceMetrics) (operation : String)
    (durations : List Duration) : Prop where
  /-- There is no entry for an operation that was not recorded. -/
  empty : durations = [] → metrics.operationCounts.lookup operation = none ∧
    metrics.operationDurations.lookup operation = none ∧
    metrics.minDurations.lookup operation = none ∧ metrics.maxDurations.lookup operation = none
  /-- The count is the number of durations. -/
  count : durations ≠ [] → metrics.operationCounts.lookup operation = some durations.length
  /-- The sum is their sum. -/
  total : durations ≠ [] → ∃ total, metrics.operationDurations.lookup operation = some total ∧
    total.nanos = totalNanos durations
  /-- None is shorter than the shortest. -/
  shortest : durations ≠ [] → Extreme (· ≤ ·) durations (metrics.minDurations.lookup operation)
  /-- None is longer than the longest. -/
  longest : durations ≠ [] → Extreme (· ≥ ·) durations (metrics.maxDurations.lookup operation)

variable {metrics later : PerformanceMetrics} {operation name : String}
  {durations : List Duration} {duration : Duration} {records : List (String × Duration)}

theorem totalNanos_concat :
    totalNanos (durations ++ [duration]) = totalNanos durations + duration.nanos := by
  simp [totalNanos]

/-- A sum that fits is computed. -/
theorem add_of_lt {a b : Duration} (h : a.nanos + b.nanos < 2 ^ 64 * 1000000000) :
    a.add b = .returned ⟨a.nanos + b.nanos, h⟩ :=
  dif_pos h

/-- The first in an order, after one more: what was first, or the new one in its place. -/
theorem Extreme.concat {r : ℕ → ℕ → Prop} [Std.Refl r] [IsTrans ℕ r] {entry : Option Duration}
    {c : Prop} [Decidable c] (hnil : durations = [] → entry = none)
    (h : durations ≠ [] → Extreme r durations entry)
    (hnew : c → r duration.nanos (entry.getD duration).nanos)
    (hold : ¬c → r (entry.getD duration).nanos duration.nanos) :
    Extreme r (durations ++ [duration]) (some (if c then duration else entry.getD duration)) := by
  have hlast : duration ∈ durations ++ [duration] := by simp
  by_cases hempty : durations = []
  · rw [hnil hempty, hempty]
    exact ⟨duration, by simp, by simp, by simpa using Std.Refl.refl duration.nanos⟩
  obtain ⟨first, hmem, rfl, hfirst⟩ := h hempty
  rw [Option.getD_some] at hnew hold ⊢
  by_cases hc : c
  · refine ⟨duration, hlast, by rw [if_pos hc], fun d hd => ?_⟩
    rcases List.mem_append.mp hd with hd | hd
    · exact IsTrans.trans _ _ _ (hnew hc) (hfirst d hd)
    · rw [List.mem_singleton.mp hd]
      exact Std.Refl.refl _
  · refine ⟨first, List.mem_append_left _ hmem, by rw [if_neg hc], fun d hd => ?_⟩
    rcases List.mem_append.mp hd with hd | hd
    · exact hfirst d hd
    · rw [List.mem_singleton.mp hd]
      exact hold hc

namespace Summary

/-- New metrics sum up nothing. -/
theorem new : PerformanceMetrics.new.Summary operation [] where
  empty _ := ⟨rfl, rfl, rfl, rfl⟩
  count h := absurd rfl h
  total h := absurd rfl h
  shortest h := absurd rfl h
  longest h := absurd rfl h

/-- The count, also of an operation that was not recorded. -/
theorem getCount_eq (h : metrics.Summary operation durations) :
    metrics.getCount operation = durations.length := by
  rw [getCount]
  by_cases hnil : durations = []
  · rw [(h.empty hnil).1, hnil]
    rfl
  · rw [h.count hnil]
    rfl

/-- The sum so far, which is nothing at first. -/
theorem total_getD (h : metrics.Summary operation durations) :
    ((metrics.operationDurations.lookup operation).getD .zero).nanos = totalNanos durations := by
  by_cases hnil : durations = []
  · rw [(h.empty hnil).2.1, hnil]
    rfl
  · obtain ⟨total, htotal, hsum⟩ := h.total hnil
    rw [htotal]
    exact hsum

/-- **A record of an operation adds to its summary**, as long as the sum fits. -/
theorem record (h : metrics.Summary operation durations)
    (hfits : totalNanos (durations ++ [duration]) < 2 ^ 64 * 1000000000)
    (hlen : durations.length + 1 < 2 ^ 64) :
    ∃ later, metrics.recordOperation operation duration = .returned later ∧
      later.Summary operation (durations ++ [duration]) := by
  rw [totalNanos_concat, ← h.total_getD] at hfits
  rw [recordOperation, add_of_lt hfits]
  refine ⟨_, rfl, fun hc => absurd hc (by simp), fun _ => ?_, fun _ => ?_, fun _ => ?_, fun _ => ?_⟩
  · have hcount := h.getCount_eq
    rw [getCount] at hcount
    rw [AList.lookup_insert, hcount, wrappingAdd, Nat.mod_eq_of_lt hlen, List.length_append]
    rfl
  · refine ⟨_, AList.lookup_insert _, ?_⟩
    rw [totalNanos_concat, ← h.total_getD]
  · rw [AList.lookup_insert]
    exact .concat (fun hnil => (h.empty hnil).2.2.1) h.shortest le_of_lt not_lt.mp
  · rw [AList.lookup_insert]
    exact .concat (fun hnil => (h.empty hnil).2.2.2) h.longest le_of_lt not_lt.mp

/-- A record of another operation changes nothing of it. -/
theorem other (h : metrics.Summary operation durations) (hne : operation ≠ name)
    (hrecord : metrics.recordOperation name duration = .returned later) :
    later.Summary operation durations := by
  rw [recordOperation] at hrecord
  rcases hadd : ((metrics.operationDurations.lookup name).getD .zero).add duration with
    total | _ | _
  · rw [hadd] at hrecord
    obtain rfl := Outcome.returned.inj hrecord
    constructor <;> simp only [AList.lookup_insert_ne hne]
    · exact h.empty
    · exact h.count
    · exact h.total
    · exact h.shortest
    · exact h.longest
  · rw [hadd] at hrecord
    exact absurd hrecord (by simp [Outcome.map])
  · rw [hadd] at hrecord
    exact absurd hrecord (by simp [Outcome.map])

end Summary

/-! ### After any records -/

theorem durationsOf_append (operation : String) (records records' : List (String × Duration)) :
    durationsOf operation (records ++ records') =
      durationsOf operation records ++ durationsOf operation records' := by
  rw [durationsOf, List.filter_append, List.map_append]
  rfl

/-- **After any records the maps sum up the durations of every operation**, when these fit. -/
theorem recordAll_summary (before : List (String × Duration))
    (h : ∀ operation, metrics.Summary operation (durationsOf operation before))
    (hfits : ∀ operation,
      totalNanos (durationsOf operation (before ++ records)) < 2 ^ 64 * 1000000000)
    (hlen : (before ++ records).length < 2 ^ 64) :
    ∃ later, metrics.recordAll records = .returned later ∧
      ∀ operation, later.Summary operation (durationsOf operation (before ++ records)) := by
  -- induction on the records that are still to be made
  induction records generalizing metrics before with
  | nil => exact ⟨metrics, rfl, by simpa using h⟩
  | cons record rest ih =>
    obtain ⟨name, duration⟩ := record
    have hsplit : before ++ (name, duration) :: rest = before ++ [(name, duration)] ++ rest := by
      simp
    have hself : durationsOf name (before ++ [(name, duration)]) =
        durationsOf name before ++ [duration] := by
      simp [durationsOf]
    rw [hsplit] at hfits hlen
    have hlt : totalNanos (durationsOf name before ++ [duration]) < 2 ^ 64 * 1000000000 := by
      refine lt_of_le_of_lt ?_ (hfits name)
      rw [durationsOf_append name (before ++ [(name, duration)]), hself]
      simp only [totalNanos, List.map_append, List.sum_append]
      exact Nat.le_add_right _ _
    have hcount : (durationsOf name before).length + 1 < 2 ^ 64 := by
      have hle : (durationsOf name before).length ≤ before.length := by
        rw [durationsOf, List.length_map]
        exact List.length_filter_le _ _
      simp only [List.length_append, List.length_singleton] at hlen
      omega
    obtain ⟨next, hnext, hsummary⟩ := (h name).record hlt hcount
    have hall : ∀ operation,
        next.Summary operation (durationsOf operation (before ++ [(name, duration)])) := by
      intro operation
      by_cases hname : operation = name
      · rw [hname, hself]
        exact hsummary
      · have hother : durationsOf operation (before ++ [(name, duration)]) =
            durationsOf operation before := by
          simp [durationsOf, Ne.symm hname]
        rw [hother]
        exact (h operation).other hname hnext
    rw [recordAll, hnext, hsplit]
    exact ih _ hall hfits hlen

/-- After records in new metrics. -/
theorem recordAll_new
    (hfits : ∀ operation, totalNanos (durationsOf operation records) < 2 ^ 64 * 1000000000)
    (hlen : records.length < 2 ^ 64) :
    ∃ metrics, new.recordAll records = .returned metrics ∧
      ∀ operation, metrics.Summary operation (durationsOf operation records) :=
  recordAll_summary [] (fun _ => .new) hfits hlen

/-! ### The average -/

/-- The average of an operation that was recorded. -/
theorem Summary.getAverageDuration_eq (h : metrics.Summary operation durations)
    (hne : durations ≠ []) :
    ∃ total : Duration, total.nanos = totalNanos durations ∧
      metrics.getAverageDuration operation =
        (total.divU32 (asU32 durations.length)).map some := by
  obtain ⟨total, htotal, hsum⟩ := h.total hne
  refine ⟨total, hsum, ?_⟩
  rw [getAverageDuration, h.getCount_eq, if_neg (mt List.length_eq_zero_iff.mp hne), htotal]

/-- The lower 32 bits of a count divide as the count does when there are no others, or nothing
is left either way. -/
theorem div_asU32_eq_iff (total count : ℕ) :
    asU32 count ≠ 0 ∧ total / asU32 count = total / count ↔
      0 < count ∧ count < 2 ^ 32 ∨ total < asU32 count := by
  rw [asU32]
  have hle := Nat.mod_le count (2 ^ 32)
  have hlow := Nat.mod_lt count (Nat.two_pow_pos 32)
  constructor
  · rintro ⟨hne, hdiv⟩
    by_contra hc
    rw [not_or, not_lt] at hc
    obtain ⟨hbig, htotal⟩ := hc
    -- the quotient by the lower bits is positive, and twice that by the count
    have hcount : 2 * (count % 2 ^ 32) ≤ count := by omega
    have hpos : 0 < total / (count % 2 ^ 32) := Nat.div_pos htotal (Nat.pos_of_ne_zero hne)
    have hhalf : total / count ≤ total / (count % 2 ^ 32) / 2 := by
      rw [Nat.div_div_eq_div_mul, mul_comm]
      exact Nat.div_le_div_left hcount (by omega)
    omega
  · rintro (⟨hpos, hlt⟩ | hlt)
    · rw [Nat.mod_eq_of_lt hlt]
      exact ⟨hpos.ne', rfl⟩
    · exact ⟨by omega, by rw [Nat.div_eq_of_lt hlt, Nat.div_eq_of_lt (hlt.trans_le hle)]⟩

/-- An average is between the shortest and the longest. -/
theorem le_average_le (hne : durations ≠ []) {shortest longest : Duration}
    (hshortest : ∀ duration ∈ durations, shortest.nanos ≤ duration.nanos)
    (hlongest : ∀ duration ∈ durations, duration.nanos ≤ longest.nanos) :
    shortest.nanos ≤ totalNanos durations / durations.length ∧
      totalNanos durations / durations.length ≤ longest.nanos := by
  have hpos : 0 < durations.length := List.length_pos_of_ne_nil hne
  have hlow := List.card_nsmul_le_sum (durations.map Duration.nanos) shortest.nanos
    (by simpa using hshortest)
  have hhigh := List.sum_le_card_nsmul (durations.map Duration.nanos) longest.nanos
    (by simpa using hlongest)
  rw [List.length_map, smul_eq_mul, mul_comm] at hlow hhigh
  exact ⟨(Nat.le_div_iff_mul_le hpos).mpr hlow, Nat.div_le_of_le_mul (by rwa [mul_comm])⟩

/-- **What a summary is right about.** -/
theorem Summary.exact_iff (h : metrics.Summary operation durations) :
    metrics.Exact operation durations ↔
      durations.length < 2 ^ 32 ∨ totalNanos durations < durations.length % 2 ^ 32 := by
  by_cases hnil : durations = []
  · refine ⟨fun _ => Or.inl (by rw [hnil]; decide), fun _ => ⟨h.getCount_eq, fun _ => ?_, ?_⟩⟩
    · rw [getAverageDuration, h.getCount_eq, if_pos (by rw [hnil]; rfl)]
    · exact fun hc => absurd hnil hc
  have hpos : 0 < durations.length := List.length_pos_of_ne_nil hnil
  obtain ⟨total, hsum, haverage⟩ := h.getAverageDuration_eq hnil
  have hdiv := div_asU32_eq_iff (totalNanos durations) durations.length
  rw [and_iff_right hpos] at hdiv
  refine Iff.trans ?_ hdiv
  constructor
  · rintro ⟨-, -, hexact⟩
    obtain ⟨average, -, -, hreturned, hvalue, -⟩ := hexact hnil
    rw [haverage, Duration.divU32] at hreturned
    by_cases hzero : asU32 durations.length = 0
    · rw [if_pos hzero] at hreturned
      exact absurd hreturned (by simp [Outcome.map])
    · rw [if_neg hzero] at hreturned
      obtain rfl := Option.some.inj (Outcome.returned.inj hreturned)
      rw [← hsum] at hvalue ⊢
      exact ⟨hzero, hvalue⟩
  · rintro ⟨hzero, hvalue⟩
    obtain ⟨shortest, -, hmin, hshortest⟩ := h.shortest hnil
    obtain ⟨longest, -, hmax, hlongest⟩ := h.longest hnil
    refine ⟨h.getCount_eq, fun hc => absurd hc hnil, fun _ => ?_⟩
    have hvalue : total.nanos / asU32 durations.length =
        totalNanos durations / durations.length := by
      rw [hsum, hvalue]
    obtain ⟨hlow, hhigh⟩ := le_average_le hnil hshortest hlongest
    rw [haverage, Duration.divU32, if_neg hzero]
    exact ⟨_, shortest, longest, rfl, hvalue, hmin, hmax, hlow.trans_eq hvalue.symm,
      hvalue.trans_le hhigh⟩

/-- **The metrics are right exactly when the count fits in 32 bits**, or the sum is less than what
the lower 32 bits of the count are: for all records of any operations, fewer than 2^64 and with
sums that fit. -/
theorem recorded_exact_iff (records : List (String × Duration)) (operation : String)
    (hfits : ∀ operation, totalNanos (durationsOf operation records) < 2 ^ 64 * 1000000000)
    (hlen : records.length < 2 ^ 64) :
    ∃ metrics, new.recordAll records = .returned metrics ∧
      (metrics.Exact operation (durationsOf operation records) ↔
        (durationsOf operation records).length < 2 ^ 32 ∨
          totalNanos (durationsOf operation records) <
            (durationsOf operation records).length % 2 ^ 32) := by
  obtain ⟨metrics, hmetrics, hsummary⟩ := recordAll_new hfits hlen
  exact ⟨metrics, hmetrics, (hsummary operation).exact_iff⟩

/-- Two reads of 5 and 8 nanoseconds are summed up as they should be. -/
theorem recorded_exact_twoReads :
    ∃ metrics, new.recordAll [("read", ⟨5, by decide⟩), ("read", ⟨8, by decide⟩)] =
        .returned metrics ∧
      metrics.Exact "read" [⟨5, by decide⟩, ⟨8, by decide⟩] := by
  obtain ⟨metrics, hmetrics, hiff⟩ := recorded_exact_iff
    [("read", ⟨5, by decide⟩), ("read", ⟨8, by decide⟩)] "read" (fun operation => by
      by_cases hname : "read" = operation <;> simp [durationsOf, totalNanos, hname]) (by decide)
  exact ⟨metrics, hmetrics, hiff.mpr (Or.inl (by decide))⟩

/-- As many records of one nanosecond as 32 bits cannot count. -/
theorem getAverageDuration_replicate {k : ℕ} (hpos : 0 < k) (hlow : asU32 k = 0)
    (hlt : k < 2 ^ 64) :
    ∃ metrics, new.recordAll (List.replicate k ("read", ⟨1, by decide⟩)) = .returned metrics ∧
      metrics.getAverageDuration "read" = .panicked ∧
      ¬metrics.Exact "read" (List.replicate k ⟨1, by decide⟩) := by
  have hread : ∀ operation, durationsOf operation
      (List.replicate k ("read", (⟨1, by decide⟩ : Duration))) =
        if "read" = operation then List.replicate k ⟨1, by decide⟩ else [] := by
    intro operation
    by_cases hname : "read" = operation <;> simp [durationsOf, hname]
  have hfits : ∀ operation, totalNanos (durationsOf operation
      (List.replicate k ("read", (⟨1, by decide⟩ : Duration)))) < 2 ^ 64 * 1000000000 := by
    intro operation
    rw [hread]
    by_cases hname : "read" = operation
    · rw [if_pos hname, totalNanos, List.map_replicate, List.sum_replicate_nat, Nat.mul_one]
      omega
    · rw [if_neg hname]
      exact Nat.zero_lt_of_lt Duration.zero.lt
  obtain ⟨metrics, hmetrics, hsummary⟩ := recordAll_new hfits (by rwa [List.length_replicate])
  have hsum := hsummary "read"
  rw [hread, if_pos rfl] at hsum
  have hne : List.replicate k (⟨1, by decide⟩ : Duration) ≠ [] :=
    fun hc => hpos.ne' (by simpa using hc)
  obtain ⟨total, -, haverage⟩ := hsum.getAverageDuration_eq hne
  have hpanic : metrics.getAverageDuration "read" = .panicked := by
    rw [haverage, List.length_replicate, Duration.divU32, if_pos hlow]
    rfl
  refine ⟨metrics, hmetrics, hpanic, fun hexact => ?_⟩
  obtain ⟨average, -, -, hreturned, -⟩ := hexact.2.2 hne
  rw [hpanic] at hreturned
  cases hreturned

/-- **A panic after 2^32 records**: the lower 32 bits of the count are `0`, and the sum is divided
by them. -/
theorem not_exact_manyReads :
    ∃ metrics, new.recordAll (List.replicate (2 ^ 32) ("read", ⟨1, by decide⟩)) =
        .returned metrics ∧
      metrics.getAverageDuration "read" = .panicked ∧
      ¬metrics.Exact "read" (List.replicate (2 ^ 32) ⟨1, by decide⟩) :=
  getAverageDuration_replicate (by omega) rfl (by omega)

end PerformanceMetrics

end SaferRing
