import Mathlib.Algebra.BigOperators.Group.List.Lemmas
import SaferRing.Perf

/-!
# Overlapping calls lose nothing

However the accesses of several calls of `record` come between each other, and whatever values
their reads see, the counter they leave is the one that the same calls leave when they are made
one after the other: `SaferRing.Recording.counter_eq_foldl`. For the sum and the count this is
that every call adds to them once; for the least and the greatest duration it is the rule for
cells that are raised by compare-exchange, for which the calls are offers to two cells
(`SaferRing.Recording.lowered`, `SaferRing.Recording.raised`).
-/

namespace SaferRing

open CompareExchange (Cell Offer Shared Bounded)
open Transition (Move Run)

/-- What records made one after the other leave. -/
theorem PerfCounter.foldl_record (durations : List Duration) (c : PerfCounter) :
    durations.foldl PerfCounter.record c =
      ⟨c.count + (durations.map fun _ => (1 : U64)).sum,
        c.totalTimeNs + (durations.map Duration.asNanosU64).sum,
        (durations.map Duration.asNanosU64).foldl min c.minTimeNs,
        (durations.map Duration.asNanosU64).foldl max c.maxTimeNs⟩ := by
  induction durations generalizing c with
  | nil => simp
  | cons d ds ih =>
    rw [List.foldl_cons, ih]
    simp [PerfCounter.record, add_assoc]

namespace RecordCall

/-- What a call offers to the cell of the least duration. -/
def minOffer : RecordCall → Offer U64ᵒᵈ
  | counting nanos => .fresh (OrderDual.toDual nanos)
  | adding nanos => .fresh (OrderDual.toDual nanos)
  | lowering offer => offer
  | raising offer => .settled (OrderDual.toDual offer.value)

/-- What a call offers to the cell of the greatest duration. -/
def maxOffer : RecordCall → Offer U64
  | counting nanos => .fresh nanos
  | adding nanos => .fresh nanos
  | lowering offer => .fresh (OrderDual.ofDual offer.value)
  | raising offer => offer

/-- What a call has added to the count. -/
def counted : RecordCall → U64
  | counting _ => 0
  | _ => 1

/-- What a call has added to the sum. -/
def added : RecordCall → U64
  | counting _ => 0
  | adding _ => 0
  | lowering offer => OrderDual.ofDual offer.value
  | raising offer => offer.value

theorem value_minOffer (call : RecordCall) : OrderDual.ofDual call.minOffer.value = call.nanos := by
  cases call <;> rfl

theorem value_maxOffer (call : RecordCall) : call.maxOffer.value = call.nanos := by
  cases call <;> rfl

/-- What a call that has returned has done. -/
theorem of_returned {call : RecordCall} (h : call.returned = true) :
    call.minOffer.isSettled = true ∧ call.maxOffer.isSettled = true ∧ call.counted = 1 ∧
      call.added = call.nanos := by
  cases call with
  | raising offer => exact ⟨rfl, h, rfl, rfl⟩
  | _ => exact absurd h (by simp [returned])

end RecordCall

namespace Recording

/-- The least duration, as a cell that calls offer values to. -/
def lowered (self : Recording) : Shared U64ᵒᵈ :=
  ⟨self.minTimeNs, self.calls.map RecordCall.minOffer⟩

/-- The greatest duration. -/
def raised (self : Recording) : Shared U64 :=
  ⟨self.maxTimeNs, self.calls.map RecordCall.maxOffer⟩

/-! ### What an access does -/

section Access

variable {s t next : Recording} {call call' : RecordCall} {seen : U64} {spurious : Bool} {i : ℕ}

/-- What comes of an access to the cell of the least duration. -/
private theorem minOffer_next {offer : Offer U64ᵒᵈ} :
    (if offer.isSettled then RecordCall.raising (.fresh (OrderDual.ofDual offer.value))
      else .lowering offer).minOffer = offer := by
  split
  · rename_i hsettled
    exact (Offer.eq_settled hsettled).symm
  · rfl

/-- **What an access does to the two sums.** -/
theorem sums_accessBy (h : s.accessBy call seen spurious = some (next, call')) :
    next.count = s.count + (-call.counted + call'.counted) ∧
      next.totalTimeNs = s.totalTimeNs + (-call.added + call'.added) ∧
      call'.nanos = call.nanos := by
  cases call with
  | counting nanos =>
    obtain ⟨rfl, rfl⟩ := Prod.mk.inj (Option.some.inj h)
    simp [RecordCall.counted, RecordCall.added, RecordCall.nanos]
  | adding nanos =>
    obtain ⟨rfl, rfl⟩ := Prod.mk.inj (Option.some.inj h)
    simp [RecordCall.counted, RecordCall.added, RecordCall.nanos]
  | lowering offer =>
    obtain ⟨⟨cell, offer'⟩, hadvance, h⟩ := Option.map_eq_some_iff.mp h
    obtain ⟨rfl, rfl⟩ := Prod.mk.inj h
    have hvalue : offer'.value = offer.value := Offer.value_advance hadvance
    split
    all_goals simp [RecordCall.counted, RecordCall.added, RecordCall.nanos, hvalue]
  | raising offer =>
    obtain ⟨⟨cell, offer'⟩, hadvance, h⟩ := Option.map_eq_some_iff.mp h
    obtain ⟨rfl, rfl⟩ := Prod.mk.inj h
    have hvalue : offer'.value = offer.value := Offer.value_advance hadvance
    simp [RecordCall.counted, RecordCall.added, RecordCall.nanos, hvalue]

/-- **What an access does to the least duration**: the next access of the offer, in the loop for
it, and nothing elsewhere. -/
theorem min_accessBy (h : s.accessBy call seen spurious = some (next, call')) :
    (call.inMin = false → next.minTimeNs = s.minTimeNs ∧ call'.minOffer = call.minOffer) ∧
      (call.inMin = true → call.minOffer.advance s.minTimeNs (OrderDual.toDual seen) spurious =
        some (next.minTimeNs, call'.minOffer)) := by
  cases call with
  | counting nanos | adding nanos =>
    obtain ⟨rfl, rfl⟩ := Prod.mk.inj (Option.some.inj h)
    exact ⟨fun _ => ⟨rfl, rfl⟩, fun hin => absurd hin (by simp [RecordCall.inMin])⟩
  | lowering offer =>
    obtain ⟨⟨cell, offer'⟩, hadvance, h⟩ := Option.map_eq_some_iff.mp h
    obtain ⟨rfl, rfl⟩ := Prod.mk.inj h
    refine ⟨fun hin => absurd hin (by simp [RecordCall.inMin]), fun _ => ?_⟩
    rw [minOffer_next]
    exact hadvance
  | raising offer =>
    obtain ⟨⟨cell, offer'⟩, hadvance, h⟩ := Option.map_eq_some_iff.mp h
    obtain ⟨rfl, rfl⟩ := Prod.mk.inj h
    refine ⟨fun _ => ⟨rfl, ?_⟩, fun hin => absurd hin (by simp [RecordCall.inMin])⟩
    rw [RecordCall.minOffer, RecordCall.minOffer, Offer.value_advance hadvance]

/-- **What an access does to the greatest duration.** -/
theorem max_accessBy (h : s.accessBy call seen spurious = some (next, call')) :
    (call.inMax = false → next.maxTimeNs = s.maxTimeNs ∧ call'.maxOffer = call.maxOffer) ∧
      (call.inMax = true → call.maxOffer.advance s.maxTimeNs seen spurious =
        some (next.maxTimeNs, call'.maxOffer)) := by
  cases call with
  | counting nanos | adding nanos =>
    obtain ⟨rfl, rfl⟩ := Prod.mk.inj (Option.some.inj h)
    exact ⟨fun _ => ⟨rfl, rfl⟩, fun hin => absurd hin (by simp [RecordCall.inMax])⟩
  | lowering offer =>
    obtain ⟨⟨cell, offer'⟩, hadvance, h⟩ := Option.map_eq_some_iff.mp h
    obtain ⟨rfl, rfl⟩ := Prod.mk.inj h
    refine ⟨fun _ => ⟨rfl, ?_⟩, fun hin => absurd hin (by simp [RecordCall.inMax])⟩
    have hvalue : offer'.value = offer.value := Offer.value_advance hadvance
    split
    all_goals rw [RecordCall.maxOffer, RecordCall.maxOffer, hvalue]
  | raising offer =>
    obtain ⟨⟨cell, offer'⟩, hadvance, h⟩ := Option.map_eq_some_iff.mp h
    obtain ⟨rfl, rfl⟩ := Prod.mk.inj h
    exact ⟨fun hin => absurd hin (by simp [RecordCall.inMax]), fun _ => hadvance⟩

/-- **A step of the threads**: a call is made, or one that is there makes an access. -/
theorem step_cases {l : RecordLabel} (h : Step s l t) :
    (∃ duration, l = .record duration ∧ t = s.call duration) ∨
      ∃ i seen spurious call next call', l = .access i seen spurious ∧
        s.calls[i]? = some call ∧ s.accessBy call seen spurious = some (next, call') ∧
        t = { next with calls := s.calls.set i call' } := by
  cases l with
  | record duration => exact Or.inl ⟨duration, rfl, (Option.some.inj h).symm⟩
  | access i seen spurious =>
    rw [Step, step] at h
    split at h
    · exact absurd h (by simp)
    · rename_i call hi
      obtain ⟨⟨next, call'⟩, haccess, rfl⟩ := Option.map_eq_some_iff.mp h
      exact Or.inr ⟨i, seen, spurious, call, next, call', rfl, hi, haccess, rfl⟩

end Access

/-! ### What the calls have done -/

section Steps

variable {s t : Recording} {l : RecordLabel}

/-- Replacing an entry changes a sum by the difference. -/
private theorem sum_map_set {β : Type} {f : β → U64} {calls : List β} {i : ℕ} {a b : β}
    (hi : calls[i]? = some a) :
    ((calls.set i b).map f).sum = (calls.map f).sum + (-f a + f b) := by
  obtain ⟨hlt, rfl⟩ := List.getElem?_eq_some_iff.mp hi
  have hlt' : i < (calls.map f).length := by simpa using hlt
  rw [List.map_set, List.sum_set', dif_pos hlt', List.getElem_map]

/-- A call offers its duration to the cell of the least duration. -/
theorem lowered_call (s : Recording) (duration : Duration) :
    CompareExchange.Step s.lowered (.offer (OrderDual.toDual duration.asNanosU64))
      (s.call duration).lowered := by
  have hoffers : (s.call duration).lowered = ⟨s.lowered.cell, s.lowered.offers ++
      [.fresh (OrderDual.toDual duration.asNanosU64)]⟩ := by
    rw [lowered, call, List.map_append]
    rfl
  rw [hoffers]
  exact .offer s.lowered _

/-- And to that of the greatest. -/
theorem raised_call (s : Recording) (duration : Duration) :
    CompareExchange.Step s.raised (.offer duration.asNanosU64) (s.call duration).raised := by
  have hoffers : (s.call duration).raised =
      ⟨s.raised.cell, s.raised.offers ++ [.fresh duration.asNanosU64]⟩ := by
    rw [raised, call, List.map_append]
    rfl
  rw [hoffers]
  exact .offer s.raised _

section Access

variable {i : ℕ} {call call' : RecordCall} {seen : U64} {spurious : Bool} {next : Recording}

/-- **An access in the loop for the least duration is one of its offer**; another leaves the
offers as they are. -/
theorem lowered_access (hi : s.calls[i]? = some call)
    (haccess : s.accessBy call seen spurious = some (next, call')) :
    (call.inMin = false →
      lowered { next with calls := s.calls.set i call' } = s.lowered) ∧
      (call.inMin = true → CompareExchange.Step s.lowered
        (.access i (OrderDual.toDual seen) spurious)
        (lowered { next with calls := s.calls.set i call' })) := by
  obtain ⟨hout, hin⟩ := min_accessBy haccess
  refine ⟨fun h => ?_, fun h => ?_⟩
  · obtain ⟨hcell, hoffer⟩ := hout h
    rw [lowered, lowered, CompareExchange.map_set_of_eq hi hoffer, hcell]
  · have hoffers : lowered { next with calls := s.calls.set i call' } =
        ⟨next.minTimeNs, s.lowered.offers.set i call'.minOffer⟩ := by
      rw [lowered, List.map_set]
      rfl
    have hget : s.lowered.offers[i]? = some call.minOffer := by
      rw [lowered, List.getElem?_map, hi]
      rfl
    rw [hoffers]
    exact .access hget (hin h)

/-- **An access in the loop for the greatest duration is one of its offer.** -/
theorem raised_access (hi : s.calls[i]? = some call)
    (haccess : s.accessBy call seen spurious = some (next, call')) :
    (call.inMax = false →
      raised { next with calls := s.calls.set i call' } = s.raised) ∧
      (call.inMax = true → CompareExchange.Step s.raised (.access i seen spurious)
        (raised { next with calls := s.calls.set i call' })) := by
  obtain ⟨hout, hin⟩ := max_accessBy haccess
  refine ⟨fun h => ?_, fun h => ?_⟩
  · obtain ⟨hcell, hoffer⟩ := hout h
    rw [raised, raised, CompareExchange.map_set_of_eq hi hoffer, hcell]
  · have hoffers : raised { next with calls := s.calls.set i call' } =
        ⟨next.maxTimeNs, s.raised.offers.set i call'.maxOffer⟩ := by
      rw [raised, List.map_set]
      rfl
    have hget : s.raised.offers[i]? = some call.maxOffer := by
      rw [raised, List.getElem?_map, hi]
      rfl
    rw [hoffers]
    exact .access hget (hin h)

end Access

/-- What every access to the cell of the least duration keeps, every step keeps. -/
theorem lowered_preserves {P : Shared U64ᵒᵈ → Prop}
    (hP : ∀ s l t, CompareExchange.Step s l t → P s → P t) (hstep : Step s l t)
    (h : P s.lowered) : P t.lowered := by
  rcases step_cases hstep with ⟨duration, -, rfl⟩ |
    ⟨i, seen, spurious, call, next, call', -, hi, haccess, rfl⟩
  · exact hP _ _ _ (lowered_call s duration) h
  · obtain ⟨hout, hin⟩ := lowered_access hi haccess
    rcases hloop : call.inMin with _ | _
    · rw [hout hloop]
      exact h
    · exact hP _ _ _ (hin hloop) h

/-- The same for the greatest. -/
theorem raised_preserves {P : Shared U64 → Prop}
    (hP : ∀ s l t, CompareExchange.Step s l t → P s → P t) (hstep : Step s l t)
    (h : P s.raised) : P t.raised := by
  rcases step_cases hstep with ⟨duration, -, rfl⟩ |
    ⟨i, seen, spurious, call, next, call', -, hi, haccess, rfl⟩
  · exact hP _ _ _ (raised_call s duration) h
  · obtain ⟨hout, hin⟩ := raised_access hi haccess
    rcases hloop : call.inMax with _ | _
    · rw [hout hloop]
      exact h
    · exact hP _ _ _ (hin hloop) h

/-- **Everything the calls have done so far is in the counter, once.** -/
structure Recorded (c : PerfCounter) (s : Recording) : Prop where
  /-- The calls past the first access are counted. -/
  count : s.count = c.count + (s.calls.map RecordCall.counted).sum
  /-- The calls past the second are summed up. -/
  total : s.totalTimeNs = c.totalTimeNs + (s.calls.map RecordCall.added).sum
  /-- The least duration is bounded by what was offered. -/
  least : Bounded (OrderDual.toDual c.minTimeNs) s.lowered
  /-- So is the greatest. -/
  greatest : Bounded c.maxTimeNs s.raised

/-- Nothing was done to a counter that nobody updates. -/
theorem Recorded.ofCounter (c : PerfCounter) : Recorded c (Recording.ofCounter c) :=
  ⟨(add_zero _).symm, (add_zero _).symm, .new _, .new _⟩

/-- **Every step keeps it so.** -/
theorem Recorded.step {c : PerfCounter} (h : Recorded c s) (hstep : Step s l t) :
    Recorded c t := by
  have hleast : Bounded (OrderDual.toDual c.minTimeNs) t.lowered :=
    lowered_preserves (fun _ _ _ hs h => h.step hs) hstep h.least
  have hgreatest : Bounded c.maxTimeNs t.raised :=
    raised_preserves (fun _ _ _ hs h => h.step hs) hstep h.greatest
  rcases step_cases hstep with ⟨duration, -, rfl⟩ |
    ⟨i, seen, spurious, call, next, call', -, hi, haccess, rfl⟩
  · refine ⟨?_, ?_, hleast, hgreatest⟩
    · rw [call, List.map_append, List.sum_append, h.count]
      exact congrArg (c.count + ·) (add_zero _).symm
    · rw [call, List.map_append, List.sum_append, h.total]
      exact congrArg (c.totalTimeNs + ·) (add_zero _).symm
  · obtain ⟨hcount, htotal, -⟩ := sums_accessBy haccess
    refine ⟨?_, ?_, hleast, hgreatest⟩
    · rw [sum_map_set hi, hcount, h.count, add_assoc]
    · rw [sum_map_set hi, htotal, h.total, add_assoc]

end Steps

/-! ### Whole runs -/

section Runs

variable {s : Recording} {c : PerfCounter} {ms : List (Move Recording RecordLabel)}

/-- What a step records. -/
def duration : RecordLabel → Option Duration
  | .record duration => some duration
  | .access .. => none

/-- The durations recorded in a run, in the order of the calls. -/
def durationsOf (ms : List (Move Recording RecordLabel)) : List Duration :=
  ms.filterMap fun m => duration m.label

theorem durationsOf_eq (ms : List (Move Recording RecordLabel)) :
    durationsOf ms = (ms.map Move.label).filterMap duration := by
  rw [durationsOf, List.filterMap_map]
  rfl

/-- **The calls are those that were made.** -/
theorem nanos_of_run (hrun : Run Step (ofCounter c) ms s) :
    s.calls.map RecordCall.nanos = (durationsOf ms).map Duration.asNanosU64 := by
  induction hrun with
  | nil => rfl
  | @snoc s t ms l _ hstep ih =>
    rw [durationsOf, List.filterMap_append, List.map_append, ← durationsOf, ← ih]
    rcases step_cases hstep with ⟨duration, rfl, rfl⟩ |
      ⟨i, seen, spurious, call, next, call', rfl, hi, haccess, rfl⟩
    · rw [call, List.map_append]
      rfl
    · have hnanos := CompareExchange.map_set_of_eq hi (sums_accessBy haccess).2.2
      rw [hnanos]
      exact (List.append_nil _).symm

/-- The greatest value of an order is the least of its dual. -/
private theorem foldl_max_dual (l : List U64ᵒᵈ) (x : U64ᵒᵈ) :
    OrderDual.ofDual (l.foldl max x) = (l.map OrderDual.ofDual).foldl min (OrderDual.ofDual x) := by
  induction l generalizing x with
  | nil => rfl
  | cons y l ih => exact ih (max x y)

/-- Two calls overlap: both read the least duration before either writes it, and the one that is
late has to try again; for the greatest it sees that it has lost. -/
def twoCalls : List RecordLabel :=
  [.record ⟨5, by decide⟩, .record ⟨8, by decide⟩, .access 0 0 false, .access 1 0 false,
    .access 0 0 false, .access 1 0 false, .access 0 ⊤ false, .access 1 ⊤ false,
    .access 1 ⊤ false, .access 0 8 false, .access 0 8 false, .access 1 0 false,
    .access 0 0 false, .access 1 0 false, .access 0 8 false]

/-- That is a run, whose accesses are up to date. -/
theorem run_twoCalls : ∃ ms s, Run Step (ofCounter .new) ms s ∧ ms.map Move.label = twoCalls ∧
    s.Returned ∧ Transition.Guarded UpToDate ms ∧ s.calls.length = 2 := by
  obtain ⟨⟨ms, s⟩, htrace⟩ : ∃ x, Transition.trace step (ofCounter .new) twoCalls = some x :=
    Option.isSome_iff_exists.mp (by decide)
  obtain ⟨hrun, hlabels⟩ := Transition.run_of_trace htrace
  have hcheck : (Transition.trace step (ofCounter .new) twoCalls).map (fun x =>
      decide (x.2.Returned ∧ (∀ m ∈ x.1, UpToDate m.before m.label) ∧ x.2.calls.length = 2)) =
        some true := by
    decide
  rw [htrace] at hcheck
  obtain ⟨hreturned, hdate, hlength⟩ := of_decide_eq_true (Option.some.inj hcheck)
  exact ⟨ms, s, hrun, hlabels, hreturned, hdate, hlength⟩

/-- **Overlapping calls leave the counter that the same calls leave one after the other**, once
all of them have returned. -/
theorem counter_eq_foldl (hrun : Run Step (ofCounter c) ms s) (hreturned : s.Returned) :
    s.counter = (durationsOf ms).foldl PerfCounter.record c := by
  have h : Recorded c s :=
    hrun.preserves (Recorded c) (fun _ _ _ hstep h => h.step hstep) (.ofCounter c)
  have hnanos := nanos_of_run hrun
  have hdone : ∀ call ∈ s.calls, call.minOffer.isSettled = true ∧ call.maxOffer.isSettled = true ∧
      call.counted = 1 ∧ call.added = call.nanos :=
    fun call hcall => RecordCall.of_returned (hreturned call hcall)
  have hcount : s.calls.map RecordCall.counted = (durationsOf ms).map fun _ => (1 : U64) := by
    have hlength : s.calls.length = (durationsOf ms).length := by
      simpa using congrArg List.length hnanos
    rw [List.map_congr_left fun call hcall => (hdone call hcall).2.2.1, List.map_const',
      List.map_const', hlength]
  have htotal : s.calls.map RecordCall.added = (durationsOf ms).map Duration.asNanosU64 := by
    rw [← hnanos]
    exact List.map_congr_left fun call hcall => (hdone call hcall).2.2.2
  have hleast := h.least.value_eq fun offer hoffer => by
    obtain ⟨call, hcall, rfl⟩ := List.mem_map.mp hoffer
    exact (hdone call hcall).1
  have hgreatest := h.greatest.value_eq fun offer hoffer => by
    obtain ⟨call, hcall, rfl⟩ := List.mem_map.mp hoffer
    exact (hdone call hcall).2.1
  have hlow : s.lowered.values.map OrderDual.ofDual =
      (durationsOf ms).map Duration.asNanosU64 := by
    rw [← hnanos, Shared.values, lowered, List.map_map, List.map_map]
    exact List.map_congr_left fun call _ => call.value_minOffer
  have hhigh : s.raised.values = (durationsOf ms).map Duration.asNanosU64 := by
    rw [← hnanos, Shared.values, raised, List.map_map]
    exact List.map_congr_left fun call _ => call.value_maxOffer
  rw [PerfCounter.foldl_record, counter, h.count, h.total, hcount, htotal]
  congr 1
  · calc OrderDual.ofDual s.minTimeNs.value
        = OrderDual.ofDual (s.lowered.values.foldl max (OrderDual.toDual c.minTimeNs)) :=
          congrArg OrderDual.ofDual hleast
      _ = (s.lowered.values.map OrderDual.ofDual).foldl min c.minTimeNs :=
          foldl_max_dual _ _
      _ = ((durationsOf ms).map Duration.asNanosU64).foldl min c.minTimeNs := by rw [hlow]
  · rw [← hhigh]
    exact hgreatest

/-- **They leave the counter of both.** -/
theorem counter_twoCalls : ∃ ms s, Run Step (ofCounter .new) ms s ∧
    ms.map Move.label = twoCalls ∧ s.counter = ⟨2, 13, 5, 8⟩ := by
  obtain ⟨ms, s, hrun, hlabels, hreturned, -⟩ := run_twoCalls
  have hcounter := counter_eq_foldl hrun hreturned
  rw [durationsOf_eq, hlabels] at hcounter
  exact ⟨ms, s, hrun, hlabels, hcounter.trans (by decide)⟩

end Runs

/-! ### How long a call takes -/

/-- Whether a step is an access of a call. -/
def accessOf (i : ℕ) : RecordLabel → ℕ
  | .record _ => 0
  | .access j _ _ => if j = i then 1 else 0

/-- The accesses of a call before its loops. -/
def before : Option RecordCall → ℕ
  | none => 0
  | some (.counting _) => 0
  | some (.adding _) => 1
  | some (.lowering _) => 2
  | some (.raising _) => 2

/-- **What a call has spent**: its accesses before the loops, and what its two offers have. -/
def Spent (i n : ℕ) (s : Recording) : Prop :=
  ∃ low high, n = before s.calls[i]? + low + high ∧
    CompareExchange.Paid i low s.lowered ∧ CompareExchange.Paid i high s.raised

section Progress

variable {s t next : Recording} {l : RecordLabel} {i j n : ℕ} {call call' : RecordCall}
  {seen : U64} {spurious : Bool} {c : PerfCounter} {ms : List (Move Recording RecordLabel)}

/-- An access before the loops leads one further, and one in a loop stays past them. -/
theorem before_accessBy (h : s.accessBy call seen spurious = some (next, call')) :
    before (some call') =
      before (some call) + if call.inMin || call.inMax then 0 else 1 := by
  cases call with
  | counting nanos | adding nanos =>
    obtain ⟨rfl, rfl⟩ := Prod.mk.inj (Option.some.inj h)
    rfl
  | lowering offer =>
    obtain ⟨⟨cell, offer'⟩, -, h⟩ := Option.map_eq_some_iff.mp h
    obtain ⟨rfl, rfl⟩ := Prod.mk.inj h
    split <;> rfl
  | raising offer =>
    obtain ⟨⟨cell, offer'⟩, -, h⟩ := Option.map_eq_some_iff.mp h
    obtain ⟨rfl, rfl⟩ := Prod.mk.inj h
    rfl

/-- **A step that is up to date spends one access of the call it is of.** -/
theorem Spent.step (h : Spent i n s) (hstep : Step s l t) (hdate : UpToDate s l) :
    Spent i (n + accessOf i l) t := by
  obtain ⟨low, high, rfl, hlow, hhigh⟩ := h
  rcases step_cases hstep with ⟨duration, rfl, rfl⟩ |
    ⟨j, seen, spurious, call, next, call', rfl, hj, haccess, rfl⟩
  · refine ⟨low, high, ?_, hlow.step (lowered_call s duration) trivial,
      hhigh.step (raised_call s duration) trivial⟩
    have hbefore : before (s.call duration).calls[i]? = before s.calls[i]? := by
      rw [Recording.call, List.getElem?_append]
      split
      · rfl
      · rename_i hge
        rw [List.getElem?_eq_none (not_lt.mp hge)]
        rcases hnew : ([RecordCall.counting duration.asNanosU64])[i - s.calls.length]?
          with _ | new
        · rfl
        · obtain rfl := List.mem_singleton.mp (List.mem_of_getElem? hnew)
          rfl
    rw [hbefore]
    rfl
  · obtain ⟨rfl, hseen⟩ := hdate
    obtain ⟨hlowout, hlowin⟩ := lowered_access hj haccess
    obtain ⟨hhighout, hhighin⟩ := raised_access hj haccess
    have hlow' : CompareExchange.Paid i (low + if call.inMin ∧ j = i then 1 else 0)
        (lowered { next with calls := s.calls.set j call' }) := by
      rcases hloop : call.inMin with _ | _
      · rw [hlowout hloop]
        simpa using hlow
      · have hdate : CompareExchange.UpToDate s.lowered
            (.access j (OrderDual.toDual seen) false) :=
          ⟨congrArg OrderDual.toDual ((hseen call hj).1 hloop), rfl⟩
        simpa [CompareExchange.accessOf] using hlow.step (hlowin hloop) hdate
    have hhigh' : CompareExchange.Paid i (high + if call.inMax ∧ j = i then 1 else 0)
        (raised { next with calls := s.calls.set j call' }) := by
      rcases hloop : call.inMax with _ | _
      · rw [hhighout hloop]
        simpa using hhigh
      · have hdate : CompareExchange.UpToDate s.raised (.access j seen false) :=
          ⟨(hseen call hj).2 hloop, rfl⟩
        simpa [CompareExchange.accessOf] using hhigh.step (hhighin hloop) hdate
    refine ⟨_, _, ?_, hlow', hhigh'⟩
    by_cases hji : j = i
    · subst hji
      have hself : (s.calls.set j call')[j]? = some call' :=
        List.getElem?_set_self (List.getElem?_eq_some_iff.mp hj).1
      rw [accessOf, if_pos rfl, hself, hj, before_accessBy haccess]
      -- one of the three parts of the call pays for the access
      cases call <;> simp [RecordCall.inMin, RecordCall.inMax] <;> omega
    · rw [accessOf, if_neg hji, List.getElem?_set_ne hji]
      simp [hji]

/-- A call leaves the loop for the least duration when it is done there. -/
def InLoop (call : RecordCall) : Prop :=
  ∀ offer, call = .lowering offer → offer.isSettled = false

/-- An access leaves a call inside its loop. -/
theorem inLoop_accessBy (h : s.accessBy call seen spurious = some (next, call')) :
    InLoop call' := by
  cases call with
  | counting nanos =>
    obtain ⟨rfl, rfl⟩ := Prod.mk.inj (Option.some.inj h)
    exact fun offer ho => absurd ho (by simp)
  | adding nanos =>
    obtain ⟨rfl, rfl⟩ := Prod.mk.inj (Option.some.inj h)
    intro offer ho
    obtain rfl := RecordCall.lowering.inj ho
    rfl
  | lowering offer =>
    obtain ⟨⟨cell, offer'⟩, -, h⟩ := Option.map_eq_some_iff.mp h
    obtain ⟨rfl, rfl⟩ := Prod.mk.inj h
    intro offer₁ ho
    split at ho
    · exact absurd ho (by simp)
    · rename_i hnot
      obtain rfl := RecordCall.lowering.inj ho
      exact Bool.not_eq_true _ ▸ hnot
  | raising offer =>
    obtain ⟨⟨cell, offer'⟩, -, h⟩ := Option.map_eq_some_iff.mp h
    obtain ⟨rfl, rfl⟩ := Prod.mk.inj h
    exact fun offer ho => absurd ho (by simp)

/-- Every call of a run is inside its loop. -/
theorem inLoop_of_run (hrun : Run Step (ofCounter c) ms s) : ∀ call ∈ s.calls, InLoop call := by
  refine hrun.preserves (fun s => ∀ call ∈ s.calls, InLoop call) (fun s l t hstep h => ?_)
    (by simp [ofCounter])
  rcases step_cases hstep with ⟨duration, -, rfl⟩ |
    ⟨i, seen, spurious, call, next, call', -, hi, haccess, rfl⟩
  · intro call hcall
    rcases List.mem_append.mp hcall with hcall | hcall
    · exact h call hcall
    · obtain rfl := List.mem_singleton.mp hcall
      exact fun offer ho => absurd ho (by simp)
  · intro call₁ hcall
    rcases List.mem_or_eq_of_mem_set hcall with hcall | rfl
    · exact h call₁ hcall
    · exact inLoop_accessBy haccess

/-- **A call that has not returned can go on.** -/
theorem access_of_not_returned (hi : s.calls[i]? = some call) (hloop : InLoop call)
    (hnot : call.returned = false) :
    ∃ seen t, UpToDate s (.access i seen false) ∧ Step s (.access i seen false) t := by
  let seen := if call.inMin then OrderDual.ofDual s.minTimeNs.value else s.maxTimeNs.value
  have hdate : UpToDate s (.access i seen false) := by
    refine ⟨rfl, fun call' hi' => ?_⟩
    obtain rfl := Option.some.inj (hi.symm.trans hi')
    cases call <;> simp [seen, RecordCall.inMin, RecordCall.inMax]
  have haccess : (s.accessBy call seen false).isSome = true := by
    cases call with
    | counting nanos | adding nanos => rfl
    | lowering offer =>
      rw [accessBy, Option.isSome_map]
      exact Offer.isSome_advance s.minTimeNs false (hloop offer rfl)
    | raising offer =>
      rw [accessBy, Option.isSome_map]
      exact Offer.isSome_advance s.maxTimeNs false hnot
  obtain ⟨⟨next, call'⟩, hnext⟩ := Option.isSome_iff_exists.mp haccess
  refine ⟨seen, { next with calls := s.calls.set i call' }, hdate, ?_⟩
  rw [Step, step, hi]
  dsimp only
  rw [hnext]
  rfl

/-- **A call returns after at most `2 n + 4` accesses**, when `n` calls are made in all and
accesses are up to date: it makes no more of them, and until it has returned it can make
another. -/
theorem accesses_le (hrun : Run Step (ofCounter c) ms s)
    (hdate : Transition.Guarded UpToDate ms) (i : ℕ) :
    Transition.spent (accessOf i) ms ≤ 2 * s.calls.length + 4 ∧
      ∀ call, s.calls[i]? = some call → call.returned = false →
        ∃ seen t, UpToDate s (.access i seen false) ∧ Step s (.access i seen false) t := by
  have hspent : Spent i (Transition.spent (accessOf i) ms) s := by
    induction hrun with
    | nil => exact ⟨0, 0, rfl, CompareExchange.Paid.new _ i, CompareExchange.Paid.new _ i⟩
    | snoc _ hstep ih =>
      obtain ⟨hdate, hlast⟩ := Transition.guarded_snoc.mp hdate
      rw [Transition.spent_snoc]
      exact (ih hdate).step hstep hlast
  have hlow : CompareExchange.Accounted s.lowered :=
    hrun.preserves (fun s => CompareExchange.Accounted s.lowered)
      (fun _ _ _ => lowered_preserves fun _ _ _ hs h => h.step hs) (le_refl 0)
  have hhigh : CompareExchange.Accounted s.raised :=
    hrun.preserves (fun s => CompareExchange.Accounted s.raised)
      (fun _ _ _ => raised_preserves fun _ _ _ hs h => h.step hs) (le_refl 0)
  have hlowle : s.lowered.cell.past.length ≤ s.calls.length := by simpa [lowered] using hlow.le
  have hhighle : s.raised.cell.past.length ≤ s.calls.length := by simpa [raised] using hhigh.le
  refine ⟨?_, fun call hi hnot =>
    access_of_not_returned hi (inLoop_of_run hrun call (List.mem_of_getElem? hi)) hnot⟩
  obtain ⟨low, high, hsum, hpaidlow, hpaidhigh⟩ := hspent
  have hbefore : before s.calls[i]? ≤ 2 := by
    unfold before
    split <;> omega
  have hlowpaid := hpaidlow.le
  have hhighpaid := hpaidhigh.le
  omega

/-- **Where two calls overlap, neither makes more than eight accesses.** -/
theorem accesses_twoCalls : ∃ ms s, Run Step (ofCounter .new) ms s ∧
    ms.map Move.label = twoCalls ∧ ∀ i, Transition.spent (accessOf i) ms ≤ 8 := by
  obtain ⟨ms, s, hrun, hlabels, -, hdate, hlength⟩ := run_twoCalls
  refine ⟨ms, s, hrun, hlabels, fun i => ?_⟩
  obtain ⟨hle, -⟩ := accesses_le hrun hdate i
  rwa [hlength] at hle

end Progress

end Recording

end SaferRing
