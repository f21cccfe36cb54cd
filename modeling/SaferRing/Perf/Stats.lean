import SaferRing.Logging.Metrics
import SaferRing.Perf.Exact

/-!
# What a performance counter tells

A counter that was updated by any number of overlapping calls tells, once they have returned, how
many there were, how long they took in all and on average, and what the shortest and the longest
took (`SaferRing.PerfStats.Summarizes`), as long as the sum fits in 64 bits of nanoseconds. One
duration is told wrong: where only one was recorded and it is as long as can be, the shortest reads
as none at all (`SaferRing.Recording.stats_of_run`).
-/

namespace SaferRing

open PerformanceMetrics (totalNanos)
open Transition (Move Run)

/-- **What is told sums up the durations.** -/
structure PerfStats.Summarizes (stats : PerfStats) (durations : List Duration) : Prop where
  /-- The count is their number. -/
  count : (stats.count : ℕ) = durations.length
  /-- The sum is their sum. -/
  total : stats.totalTime.nanos = totalNanos durations
  /-- The average is the one by the other, and nothing when there are none. -/
  average : stats.avgTime.nanos = totalNanos durations / durations.length
  /-- The shortest is among them. -/
  shortest : durations ≠ [] → ∃ shortest ∈ durations,
    (∀ duration ∈ durations, shortest.nanos ≤ duration.nanos) ∧ stats.minTime = shortest
  /-- So is the longest. -/
  longest : durations ≠ [] → ∃ longest ∈ durations,
    (∀ duration ∈ durations, duration.nanos ≤ longest.nanos) ∧ stats.maxTime = longest
  /-- Where there are none, nothing took time. -/
  none : durations = [] → stats.minTime = .zero ∧ stats.maxTime = .zero
  /-- The average is between the shortest and the longest. -/
  between : stats.minTime.nanos ≤ stats.avgTime.nanos ∧
    stats.avgTime.nanos ≤ stats.maxTime.nanos

namespace PerfCounter

variable {durations : List Duration}

/-- A sum of numbers that wraps around. -/
private theorem val_sum (l : List U64) : ((l.sum : U64) : ℕ) = (l.map Fin.val).sum % 2 ^ 64 := by
  induction l with
  | nil => rfl
  | cons x l ih =>
    rw [List.sum_cons, List.map_cons, List.sum_cons, Fin.val_add, ih, Nat.add_mod_mod]

/-- The count, as a number. -/
theorem val_count (durations : List Duration) :
    ((durations.foldl record new).count : ℕ) = durations.length % 2 ^ 64 := by
  rw [foldl_record]
  have hsum := val_sum (durations.map fun _ => (1 : U64))
  have hones : ((durations.map fun _ => (1 : U64)).map Fin.val).sum = durations.length := by
    rw [List.map_map]
    show (durations.map fun _ => 1).sum = durations.length
    rw [List.map_const', List.sum_replicate, smul_eq_mul, mul_one]
  rw [hones] at hsum
  simpa only [new, zero_add] using hsum

/-- A duration that fits in 64 bits, as a number. -/
theorem val_asNanosU64_of_lt {duration : Duration} (h : duration.nanos < 2 ^ 64) :
    (duration.asNanosU64 : ℕ) = duration.nanos :=
  Nat.mod_eq_of_lt h

/-- Every duration fits where the sum does. -/
theorem nanos_lt_of_mem (hfits : totalNanos durations < 2 ^ 64) :
    ∀ duration ∈ durations, duration.nanos < 2 ^ 64 :=
  fun _ hmem => (List.single_le_sum (by simp) _ (List.mem_map_of_mem hmem)).trans_lt hfits

/-- The sum, as a number. -/
theorem val_totalTimeNs (hfits : totalNanos durations < 2 ^ 64) :
    ((durations.foldl record new).totalTimeNs : ℕ) = totalNanos durations := by
  have hsum := val_sum (durations.map Duration.asNanosU64)
  have hvals : (durations.map Duration.asNanosU64).map Fin.val = durations.map Duration.nanos := by
    rw [List.map_map]
    exact List.map_congr_left fun d hd => val_asNanosU64_of_lt (nanos_lt_of_mem hfits d hd)
  rw [hvals] at hsum
  rw [foldl_record]
  simpa only [new, zero_add, totalNanos] using hsum.trans (Nat.mod_eq_of_lt hfits)

/-- A number that was recorded, or is the only one that could be, is that of a duration. -/
private theorem exists_attained {v start : U64} (hne : durations ≠ [])
    (hmem : v = start ∨ v ∈ durations.map Duration.asNanosU64)
    (hstart : v = start → ∀ duration ∈ durations, duration.asNanosU64 = v) :
    ∃ duration ∈ durations, duration.asNanosU64 = v := by
  rcases hmem with hv | hv
  · obtain ⟨d, hd⟩ := List.exists_mem_of_ne_nil durations hne
    exact ⟨d, hd, hstart hv d hd⟩
  · exact List.mem_map.mp hv

/-- **The least number of a counter is that of a shortest duration.** -/
theorem exists_shortest (hfits : totalNanos durations < 2 ^ 64) (hne : durations ≠ []) :
    ∃ shortest ∈ durations, (∀ duration ∈ durations, shortest.nanos ≤ duration.nanos) ∧
      ((durations.foldl record new).minTimeNs : ℕ) = shortest.nanos := by
  have hval : ∀ d ∈ durations, (d.asNanosU64 : ℕ) = d.nanos :=
    fun d hd => val_asNanosU64_of_lt (nanos_lt_of_mem hfits d hd)
  obtain ⟨hmem, hlow⟩ :=
    CompareExchange.isLeast_foldl_min (durations.map Duration.asNanosU64) new.minTimeNs
  have hle : ∀ d ∈ durations,
      (durations.map Duration.asNanosU64).foldl min new.minTimeNs ≤ d.asNanosU64 :=
    fun d hd => hlow (Or.inr (List.mem_map_of_mem hd))
  -- where the least number is `u64::MAX`, every duration is as long
  obtain ⟨d, hd, heq⟩ := exists_attained hne hmem fun htop d' hd' =>
    (top_le_iff.mp (htop.ge.trans (hle d' hd'))).trans htop.symm
  rw [foldl_record]
  refine ⟨d, hd, fun d' hd' => ?_, ?_⟩
  · rw [← hval d hd, ← hval d' hd', heq]
    exact hle d' hd'
  · rw [← hval d hd, heq]

/-- **The greatest number of a counter is that of a longest duration.** -/
theorem exists_longest (hfits : totalNanos durations < 2 ^ 64) (hne : durations ≠ []) :
    ∃ longest ∈ durations, (∀ duration ∈ durations, duration.nanos ≤ longest.nanos) ∧
      ((durations.foldl record new).maxTimeNs : ℕ) = longest.nanos := by
  have hval : ∀ d ∈ durations, (d.asNanosU64 : ℕ) = d.nanos :=
    fun d hd => val_asNanosU64_of_lt (nanos_lt_of_mem hfits d hd)
  obtain ⟨hmem, hhigh⟩ :=
    CompareExchange.isGreatest_foldl_max (durations.map Duration.asNanosU64) new.maxTimeNs
  have hle : ∀ d ∈ durations,
      d.asNanosU64 ≤ (durations.map Duration.asNanosU64).foldl max new.maxTimeNs :=
    fun d hd => hhigh (Or.inr (List.mem_map_of_mem hd))
  -- where the greatest number is `0`, no duration took time
  obtain ⟨d, hd, heq⟩ := exists_attained hne hmem fun hzero d' hd' =>
    (le_antisymm ((hle d' hd').trans hzero.le) (Fin.zero_le _)).trans hzero.symm
  rw [foldl_record]
  refine ⟨d, hd, fun d' hd' => ?_, ?_⟩
  · rw [← hval d hd, ← hval d' hd', heq]
    exact hle d' hd'
  · rw [← hval d hd, heq]

/-- Where the shortest duration is as long as can be told, it is the only one. -/
theorem eq_singleton_of_longest (hfits : totalNanos durations < 2 ^ 64) {shortest : Duration}
    (hmem : shortest ∈ durations) (hlong : shortest.nanos = 2 ^ 64 - 1)
    (hlow : ∀ duration ∈ durations, shortest.nanos ≤ duration.nanos) : durations = [shortest] := by
  rcases durations with _ | ⟨d, _ | ⟨d', rest⟩⟩
  · exact absurd hmem List.not_mem_nil
  · rw [List.mem_singleton.mp hmem]
  · -- two of them come to more than fits
    have hd := hlow d (by simp)
    have hd' := hlow d' (by simp)
    simp only [totalNanos, List.map_cons, List.sum_cons] at hfits
    omega

/-- What a counter tells of the shortest duration. -/
theorem minTime_stats {shortest : Duration}
    (hmin : ((durations.foldl record new).minTimeNs : ℕ) = shortest.nanos) :
    (durations.foldl record new).stats.minTime =
      if shortest.nanos = 2 ^ 64 - 1 then .zero else shortest := by
  have htop : (durations.foldl record new).minTimeNs = ⊤ ↔ shortest.nanos = 2 ^ 64 - 1 := by
    rw [Fin.ext_iff, hmin]
    rfl
  rw [stats]
  dsimp only
  split
  · rename_i h
    rw [if_pos (htop.mp h)]
  · rename_i h
    rw [if_neg (fun hc => h (htop.mpr hc))]
    exact Duration.ext hmin

/-- **What a counter tells sums up the durations it was updated with**, when their number and
their sum fit in 64 bits, unless there is only one and it is as long as can be told. -/
theorem summarizes_foldl_iff (hfew : durations.length < 2 ^ 64)
    (hfits : totalNanos durations < 2 ^ 64) :
    (durations.foldl record new).stats.Summarizes durations ↔
      ∀ duration, durations = [duration] → duration.nanos ≠ 2 ^ 64 - 1 := by
  have hcount : ((durations.foldl record new).count : ℕ) = durations.length :=
    (val_count durations).trans (Nat.mod_eq_of_lt hfew)
  have htotal := val_totalTimeNs hfits
  by_cases hnil : durations = []
  · subst hnil
    refine iff_of_true ⟨rfl, rfl, rfl, ?_, ?_, fun _ => ⟨rfl, rfl⟩, by decide⟩ (by simp)
    all_goals exact fun hne => absurd rfl hne
  have hpos : 0 < (durations.foldl record new).count := by
    rw [Fin.lt_def, hcount]
    exact List.length_pos_of_ne_nil hnil
  have haverage : (durations.foldl record new).stats.avgTime.nanos =
      totalNanos durations / durations.length := by
    rw [stats, if_pos hpos, Duration.nanos_fromNanos, Fin.div_val, hcount, htotal]
  obtain ⟨shortest, hshortest, hlow, hmin⟩ := exists_shortest hfits hnil
  obtain ⟨longest, hlongest, hhigh, hmax⟩ := exists_longest hfits hnil
  have hmaxTime : (durations.foldl record new).stats.maxTime = longest :=
    Duration.ext hmax
  have hminTime := minTime_stats hmin
  constructor
  · rintro hsum d rfl hlong
    obtain rfl := List.mem_singleton.mp hshortest
    obtain ⟨d', hd', -, htold⟩ := hsum.shortest hnil
    obtain rfl := List.mem_singleton.mp hd'
    rw [htold, if_pos hlong] at hminTime
    rw [hminTime] at hlong
    exact absurd hlong (by decide)
  · intro hone
    have hshort : shortest.nanos ≠ 2 ^ 64 - 1 := fun hlong =>
      hone shortest (eq_singleton_of_longest hfits hshortest hlong hlow) hlong
    rw [if_neg hshort] at hminTime
    obtain ⟨hbelow, habove⟩ := PerformanceMetrics.le_average_le hnil hlow hhigh
    refine ⟨hcount, htotal, haverage, fun _ => ⟨shortest, hshortest, hlow, hminTime⟩,
      fun _ => ⟨longest, hlongest, hhigh, hmaxTime⟩, fun h => absurd h hnil, ?_, ?_⟩
    · rw [haverage, hminTime]
      exact hbelow
    · rw [haverage, hmaxTime]
      exact habove

end PerfCounter

namespace Recording

variable {s : Recording} {ms : List (Move Recording RecordLabel)}

/-- **What a counter tells after any overlapping calls, once all have returned**, sums up what
they recorded, whatever the order of their accesses and whatever their reads saw – for fewer than
2^64 calls whose durations come to less than 2^64 nanoseconds, and exactly when they are not one
call with a duration of 2^64 - 1 nanoseconds. -/
theorem stats_of_run (hrun : Run Step (ofCounter .new) ms s) (hreturned : s.Returned)
    (hfew : (durationsOf ms).length < 2 ^ 64) (hfits : totalNanos (durationsOf ms) < 2 ^ 64) :
    s.counter.stats.Summarizes (durationsOf ms) ↔
      ∀ duration, durationsOf ms = [duration] → duration.nanos ≠ 2 ^ 64 - 1 := by
  rw [counter_eq_foldl hrun hreturned]
  exact PerfCounter.summarizes_foldl_iff hfew hfits

/-- **Two calls that overlap** took 6 nanoseconds on average, between 5 and 8. -/
theorem stats_twoCalls : ∃ ms s, Run Step (ofCounter .new) ms s ∧
    ms.map Move.label = twoCalls ∧
    s.counter.stats.Summarizes [⟨5, by decide⟩, ⟨8, by decide⟩] := by
  obtain ⟨ms, s, hrun, hlabels, hreturned, -⟩ := run_twoCalls
  have hdurations : durationsOf ms = [⟨5, by decide⟩, ⟨8, by decide⟩] := by
    rw [durationsOf_eq, hlabels]
    rfl
  have hstats := (stats_of_run hrun hreturned (by rw [hdurations]; decide)
    (by rw [hdurations]; decide)).mpr fun duration hone => by
      rw [hdurations] at hone
      exact absurd hone (by simp)
  rw [hdurations] at hstats
  exact ⟨ms, s, hrun, hlabels, hstats⟩

end Recording

end SaferRing
