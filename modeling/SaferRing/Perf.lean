import Mathlib.Algebra.BigOperators.Group.List.Basic
import Mathlib.Data.ZMod.Defs
import Mathlib.Order.Fin.Basic
import SaferRing.Library.CompareExchange
import SaferRing.Logging

/-!
# Performance counters

A `SaferRing.PerfCounter` counts operations and how long they take, in four atomic numbers that
any thread may update. A call of `record` is not one step: it adds to the count, adds to the sum,
and runs a compare-exchange loop for the least duration and another for the greatest; calls of
several threads come between each other at every access (`SaferRing.Recording.step`). What a call
comes to when nothing comes between is `SaferRing.PerfCounter.record`.
-/

namespace SaferRing

open CompareExchange (Cell Offer Shared)

/-- A number of type `u64`; what is added to it wraps around. -/
abbrev U64 : Type := Fin (2 ^ 64)

instance neZero_u64 : NeZero (2 ^ 64) := ⟨by decide⟩

namespace Duration

/-- `as_nanos() as u64`: the lower 64 bits of the nanoseconds. -/
def asNanosU64 (self : Duration) : U64 := Fin.ofNat _ self.nanos

/-- `from_nanos`. -/
def fromNanos (nanos : U64) : Duration := ⟨nanos, nanos.isLt.trans (by decide)⟩

@[simp] theorem nanos_fromNanos (nanos : U64) : (fromNanos nanos).nanos = nanos := rfl

/-- Durations are as long as they are. -/
protected theorem ext {d d' : Duration} (h : d.nanos = d'.nanos) : d = d' := by
  obtain ⟨nanos, hlt⟩ := d
  obtain ⟨nanos', hlt'⟩ := d'
  obtain rfl : nanos = nanos' := h
  rfl

end Duration

/-! ### The counter -/

/-- **The numbers of a counter.** -/
structure PerfCounter where
  /-- How many operations there were. -/
  count : U64
  /-- How long they took in all, in nanoseconds. -/
  totalTimeNs : U64
  /-- How long the shortest took. -/
  minTimeNs : U64
  /-- How long the longest took. -/
  maxTimeNs : U64
  deriving DecidableEq, Repr

/-- **What a counter tells.** -/
structure PerfStats where
  /-- How many operations there were. -/
  count : U64
  /-- How long they took in all. -/
  totalTime : Duration
  /-- How long one took on average. -/
  avgTime : Duration
  /-- How long the shortest took. -/
  minTime : Duration
  /-- How long the longest took. -/
  maxTime : Duration
  deriving DecidableEq, Repr

namespace PerfCounter

/-- A counter of nothing: its least duration is `u64::MAX`. -/
def new : PerfCounter := ⟨0, 0, ⊤, 0⟩

variable (self : PerfCounter)

/-- Read the numbers of a counter nobody updates. -/
def stats : PerfStats where
  count := self.count
  totalTime := .fromNanos self.totalTimeNs
  avgTime := .fromNanos (if self.count > 0 then self.totalTimeNs / self.count else 0)
  -- no operation took less than `u64::MAX`: there was none, or so it seems
  minTime := if self.minTimeNs = ⊤ then .zero else .fromNanos self.minTimeNs
  maxTime := .fromNanos self.maxTimeNs

/-- Put every number back to where it started. -/
def reset (_ : PerfCounter) : PerfCounter := ⟨0, 0, ⊤, 0⟩

/-- **What one `record` does to a counter**, when nothing comes between its accesses. -/
def record (duration : Duration) : PerfCounter where
  count := self.count + 1
  totalTimeNs := self.totalTimeNs + duration.asNanosU64
  minTimeNs := min self.minTimeNs duration.asNanosU64
  maxTimeNs := max self.maxTimeNs duration.asNanosU64

end PerfCounter

/-! ### Calls that overlap -/

/-- **Where a call of `record` is.** -/
inductive RecordCall
  /-- It is about to add to the count. -/
  | counting (nanos : U64)
  /-- It is about to add to the sum. -/
  | adding (nanos : U64)
  /-- It is in the loop for the least duration. -/
  | lowering (offer : Offer U64ᵒᵈ)
  /-- It is in the loop for the greatest duration, and has returned when that is done. -/
  | raising (offer : Offer U64)
  deriving DecidableEq

namespace RecordCall

/-- The nanoseconds recorded. -/
def nanos : RecordCall → U64
  | counting nanos => nanos
  | adding nanos => nanos
  | lowering offer => OrderDual.ofDual offer.value
  | raising offer => offer.value

/-- Whether a call is in the loop for the least duration. -/
def inMin : RecordCall → Bool
  | lowering _ => true
  | _ => false

/-- Whether a call is in the loop for the greatest duration, or past it. -/
def inMax : RecordCall → Bool
  | raising _ => true
  | _ => false

/-- Whether the call has returned. -/
def returned : RecordCall → Bool
  | raising offer => offer.isSettled
  | _ => false

end RecordCall

/-- **A counter while it is updated**: its atomic numbers, two of them with the values they had
before, and the calls there were, in the order they were made. -/
structure Recording where
  /-- How many operations there were. -/
  count : U64
  /-- How long they took in all. -/
  totalTimeNs : U64
  /-- How long the shortest took, in the order where the least is the greatest. -/
  minTimeNs : Cell U64ᵒᵈ
  /-- How long the longest took. -/
  maxTimeNs : Cell U64
  /-- The calls. -/
  calls : List RecordCall
  deriving DecidableEq

/-- What can happen to a counter. -/
inductive RecordLabel
  /-- `record` is called. -/
  | record (duration : Duration)
  /-- A call makes its next access; a read, or a compare-exchange that fails, sees the value
  `seen`, and a compare-exchange may be refused `spurious`ly. -/
  | access (i : ℕ) (seen : U64) (spurious : Bool)
  deriving DecidableEq

namespace Recording

/-- A counter that no call updates. -/
def ofCounter (counter : PerfCounter) : Recording :=
  ⟨counter.count, counter.totalTimeNs, ⟨OrderDual.toDual counter.minTimeNs, []⟩,
    ⟨counter.maxTimeNs, []⟩, []⟩

variable (self : Recording)

/-- The numbers of the counter. -/
def counter : PerfCounter :=
  ⟨self.count, self.totalTimeNs, OrderDual.ofDual self.minTimeNs.value, self.maxTimeNs.value⟩

/-- Whether every call has returned. -/
def Returned : Prop := ∀ call ∈ self.calls, call.returned = true

instance : Decidable self.Returned := List.decidableBAll _ _

/-- Call `record`. -/
def call (duration : Duration) : Recording :=
  { self with calls := self.calls ++ [.counting duration.asNanosU64] }

/-- **One access of a call of `record`.** -/
def accessBy (call : RecordCall) (seen : U64) (spurious : Bool) :
    Option (Recording × RecordCall) :=
  match call with
  | .counting nanos => some ({ self with count := self.count + 1 }, .adding nanos)
  | .adding nanos =>
    some ({ self with totalTimeNs := self.totalTimeNs + nanos },
      .lowering (.fresh (OrderDual.toDual nanos)))
  | .lowering offer =>
    (offer.advance self.minTimeNs (OrderDual.toDual seen) spurious).map fun (cell, offer) =>
      ({ self with minTimeNs := cell },
        if offer.isSettled then .raising (.fresh (OrderDual.ofDual offer.value))
        else .lowering offer)
  | .raising offer =>
    (offer.advance self.maxTimeNs seen spurious).map fun (cell, offer) =>
      ({ self with maxTimeNs := cell }, .raising offer)

/-- **One step of the threads that share the counter.** -/
def step (self : Recording) : RecordLabel → Option Recording
  | .record duration => some (self.call duration)
  | .access i seen spurious =>
    match self.calls[i]? with
    | none => none
    | some call =>
      (self.accessBy call seen spurious).map fun (next, call) =>
        { next with calls := self.calls.set i call }

/-- The steps, as a relation. -/
abbrev Step (s : Recording) (l : RecordLabel) (t : Recording) : Prop := s.step l = some t

/-- **Accesses are up to date**: what is seen is what the cell holds, and no compare-exchange is
refused for no reason. -/
def UpToDate (s : Recording) : RecordLabel → Prop
  | .record _ => True
  | .access i seen spurious => spurious = false ∧ ∀ call ∈ s.calls[i]?,
    (call.inMin = true → seen = OrderDual.ofDual s.minTimeNs.value) ∧
      (call.inMax = true → seen = s.maxTimeNs.value)

instance (s : Recording) : (l : RecordLabel) → Decidable (UpToDate s l)
  | .record _ => inferInstanceAs (Decidable True)
  | .access i seen spurious => inferInstanceAs (Decidable (spurious = false ∧
      ∀ call ∈ s.calls[i]?, (call.inMin = true → seen = OrderDual.ofDual s.minTimeNs.value) ∧
        (call.inMax = true → seen = s.maxTimeNs.value)))

end Recording

end SaferRing
