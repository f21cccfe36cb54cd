import Mathlib.Algebra.BigOperators.Group.List.Basic
import Mathlib.Data.List.Perm.Basic
import SaferRing.Perf

/-!
# Memory in use

A `SaferRing.MemoryTracker` is told of every allocation and deallocation, by any thread, and keeps
what is in use and the most that ever was. A call first changes what is in use; one that allocates
then raises the peak, in a compare-exchange loop, to what it left in use.

`SaferRing.Tracking.linearized` is that the calls come to the same as if they were made one after
the other, **in the order of their first accesses**, and
`SaferRing.Tracking.isGreatest_peak` that **the peak is the most that was in use at any moment of
the run**, when nothing is given back that was not in use.
-/

namespace SaferRing

open CompareExchange (Cell Offer Shared Bounded)
open Transition (Move Run)

/-! ### The tracker -/

/-- **The numbers of a tracker.** -/
structure MemoryTracker where
  /-- The bytes in use. -/
  allocated : U64
  /-- The most there were. -/
  peak : U64
  /-- How many allocations there were. -/
  totalAllocs : U64
  /-- How many deallocations there were. -/
  totalDeallocs : U64
  deriving DecidableEq, Repr

/-- What a tracker is told. -/
inductive TrackerRequest
  /-- Bytes are allocated. -/
  | alloc (size : U64)
  /-- Bytes are given back. -/
  | dealloc (size : U64)
  deriving DecidableEq, Repr

namespace MemoryTracker

/-- A tracker of nothing. -/
def new : MemoryTracker := ⟨0, 0, 0, 0⟩

variable (self : MemoryTracker)

/-- Put every number back to where it started. -/
def reset (_ : MemoryTracker) : MemoryTracker := ⟨0, 0, 0, 0⟩

/-- What an allocation does, when nothing comes between its accesses. -/
def recordAlloc (size : U64) : MemoryTracker where
  allocated := self.allocated + size
  peak := max self.peak (self.allocated + size)
  totalAllocs := self.totalAllocs + 1
  totalDeallocs := self.totalDeallocs

/-- What a deallocation does. -/
def recordDealloc (size : U64) : MemoryTracker :=
  { self with allocated := self.allocated - size, totalDeallocs := self.totalDeallocs + 1 }

/-- What a request does. -/
def told : TrackerRequest → MemoryTracker
  | .alloc size => self.recordAlloc size
  | .dealloc size => self.recordDealloc size

end MemoryTracker

/-! ### Calls that overlap -/

/-- **Where a call of `record_alloc` or `record_dealloc` is.** -/
inductive TrackerCall
  /-- It is about to add to what is in use. -/
  | allocating (size : U64)
  /-- It is about to count the allocation. -/
  | countingAlloc (size newAllocated : U64)
  /-- It is in the loop for the peak, and has returned when that is done. -/
  | raisingPeak (size : U64) (offer : Offer U64)
  /-- It is about to take from what is in use. -/
  | deallocating (size : U64)
  /-- It is about to count the deallocation. -/
  | countingDealloc (size : U64)
  /-- It has returned from a deallocation. -/
  | deallocated (size : U64)
  deriving DecidableEq

namespace TrackerCall

/-- What the tracker is told. -/
def request : TrackerCall → TrackerRequest
  | allocating size => .alloc size
  | countingAlloc size _ => .alloc size
  | raisingPeak size _ => .alloc size
  | deallocating size => .dealloc size
  | countingDealloc size => .dealloc size
  | deallocated size => .dealloc size

/-- Whether the call has returned. -/
def returned : TrackerCall → Bool
  | raisingPeak _ offer => offer.isSettled
  | deallocated _ => true
  | _ => false

/-- Whether the next access gives back no more than is in use. -/
def givesBack (allocated : U64) : TrackerCall → Bool
  | deallocating size => decide (size ≤ allocated)
  | _ => true

end TrackerCall

/-- The first access of a call is still to come. -/
def TrackerRequest.call : TrackerRequest → TrackerCall
  | alloc size => .allocating size
  | dealloc size => .deallocating size

/-- **A tracker while it is told**: its atomic numbers, the peak with the values it had before,
and the calls there were, in the order they were made. -/
structure Tracking where
  /-- The bytes in use. -/
  allocated : U64
  /-- The most there were. -/
  peak : Cell U64
  /-- How many allocations there were. -/
  totalAllocs : U64
  /-- How many deallocations there were. -/
  totalDeallocs : U64
  /-- The calls. -/
  calls : List TrackerCall
  deriving DecidableEq

/-- What can happen to a tracker. -/
inductive TrackerLabel
  /-- It is told something. -/
  | tell (request : TrackerRequest)
  /-- A call makes its next access. -/
  | access (i : ℕ) (seen : U64) (spurious : Bool)
  deriving DecidableEq

namespace Tracking

/-- A tracker that no call updates. -/
def ofTracker (tracker : MemoryTracker) : Tracking :=
  ⟨tracker.allocated, ⟨tracker.peak, []⟩, tracker.totalAllocs, tracker.totalDeallocs, []⟩

variable (self : Tracking)

/-- The numbers of the tracker. -/
def tracker : MemoryTracker :=
  ⟨self.allocated, self.peak.value, self.totalAllocs, self.totalDeallocs⟩

/-- Whether every call has returned. -/
def Returned : Prop := ∀ call ∈ self.calls, call.returned = true

instance : Decidable self.Returned := List.decidableBAll _ _

/-- **One access of a call.** What an allocation leaves in use is what it offers for the peak. -/
def accessBy (call : TrackerCall) (seen : U64) (spurious : Bool) :
    Option (Tracking × TrackerCall) :=
  match call with
  | .allocating size =>
    some ({ self with allocated := self.allocated + size },
      .countingAlloc size (self.allocated + size))
  | .countingAlloc size newAllocated =>
    some ({ self with totalAllocs := self.totalAllocs + 1 },
      .raisingPeak size (.fresh newAllocated))
  | .raisingPeak size offer =>
    (offer.advance self.peak seen spurious).map fun (cell, offer) =>
      ({ self with peak := cell }, .raisingPeak size offer)
  | .deallocating size =>
    some ({ self with allocated := self.allocated - size }, .countingDealloc size)
  | .countingDealloc size =>
    some ({ self with totalDeallocs := self.totalDeallocs + 1 }, .deallocated size)
  | .deallocated _ => none

/-- **One step of the threads that share the tracker.** -/
def step (self : Tracking) : TrackerLabel → Option Tracking
  | .tell request => some { self with calls := self.calls ++ [request.call] }
  | .access i seen spurious =>
    match self.calls[i]? with
    | none => none
    | some call =>
      (self.accessBy call seen spurious).map fun (next, call) =>
        { next with calls := self.calls.set i call }

/-- The steps, as a relation. -/
abbrev Step (s : Tracking) (l : TrackerLabel) (t : Tracking) : Prop := s.step l = some t

/-- **Nothing is given back that was not in use.** -/
def GivesBack (s : Tracking) : TrackerLabel → Prop
  | .tell _ => True
  | .access i _ _ => ∀ call ∈ s.calls[i]?, call.givesBack s.allocated = true

instance (s : Tracking) : (l : TrackerLabel) → Decidable (GivesBack s l)
  | .tell _ => inferInstanceAs (Decidable True)
  | .access i _ _ =>
    inferInstanceAs (Decidable (∀ call ∈ s.calls[i]?, call.givesBack s.allocated = true))

end Tracking

/-! ### One call after the other -/

namespace MemoryTracker

/-- What is in use after each allocation, when the tracker is told one thing after the other. -/
def usages (self : MemoryTracker) : List TrackerRequest → List U64
  | [] => []
  | .alloc size :: rest => (self.allocated + size) :: (self.recordAlloc size).usages rest
  | .dealloc size :: rest => (self.recordDealloc size).usages rest

/-- How many allocations a request is. -/
def allocs : TrackerRequest → U64
  | .alloc _ => 1
  | .dealloc _ => 0

/-- How many deallocations. -/
def deallocs : TrackerRequest → U64
  | .alloc _ => 0
  | .dealloc _ => 1

variable (m : MemoryTracker) (order : List TrackerRequest)

/-- **What requests come to one after the other**: the peak is the most that was in use after one
of them, and the others are sums. -/
theorem foldl_told :
    (order.foldl told m).peak = (m.usages order).foldl max m.peak ∧
      (order.foldl told m).totalAllocs = m.totalAllocs + (order.map allocs).sum ∧
      (order.foldl told m).totalDeallocs = m.totalDeallocs + (order.map deallocs).sum := by
  induction order generalizing m with
  | nil => simp [usages]
  | cons request rest ih =>
    obtain ⟨hpeak, hallocs, hdeallocs⟩ := ih (m.told request)
    rw [List.foldl_cons, hpeak, hallocs, hdeallocs]
    cases request with
    | alloc size => exact ⟨rfl, by simp [told, recordAlloc, allocs, add_assoc],
        by simp [told, recordAlloc, deallocs]⟩
    | dealloc size => exact ⟨rfl, by simp [told, recordDealloc, allocs],
        by simp [told, recordDealloc, deallocs, add_assoc]⟩

/-- One more request. -/
theorem usages_concat (request : TrackerRequest) :
    m.usages (order ++ [request]) = m.usages order ++ (order.foldl told m).usages [request] := by
  induction order generalizing m with
  | nil => rfl
  | cons first rest ih =>
    cases first with
    | alloc size => exact congrArg _ (ih (m.recordAlloc size))
    | dealloc size => exact ih (m.recordDealloc size)

end MemoryTracker

/-! ### The order of the first accesses -/

namespace TrackerCall

/-- What a call is about to tell the tracker, by its first access. -/
def opens : TrackerCall → Option TrackerRequest
  | allocating size => some (.alloc size)
  | deallocating size => some (.dealloc size)
  | _ => none

/-- What a call has told the tracker, when it is past its first access. -/
def started : TrackerCall → Option TrackerRequest
  | allocating _ => none
  | countingAlloc size _ => some (.alloc size)
  | raisingPeak size _ => some (.alloc size)
  | deallocating _ => none
  | countingDealloc size => some (.dealloc size)
  | deallocated size => some (.dealloc size)

/-- What it offers for the peak. -/
def offer : TrackerCall → Option (Offer U64)
  | countingAlloc _ newAllocated => some (.fresh newAllocated)
  | raisingPeak _ offer => some offer
  | _ => none

/-- What it has added to the number of allocations. -/
def countedAllocs : TrackerCall → U64
  | raisingPeak _ _ => 1
  | _ => 0

/-- And to that of deallocations. -/
def countedDeallocs : TrackerCall → U64
  | deallocated _ => 1
  | _ => 0

/-- What a call that has returned has done. -/
theorem of_returned {call : TrackerCall} (h : call.returned = true) :
    call.started = some call.request ∧ (∀ o ∈ call.offer, o.isSettled = true) ∧
      call.countedAllocs = MemoryTracker.allocs call.request ∧
      call.countedDeallocs = MemoryTracker.deallocs call.request := by
  cases call with
  | raisingPeak size offer =>
    refine ⟨rfl, fun o ho => ?_, rfl, rfl⟩
    obtain rfl : offer = o := Option.some.inj ho
    exact h
  | deallocated size => exact ⟨rfl, fun o ho => absurd ho (by simp [offer]), rfl, rfl⟩
  | _ => exact absurd h (by simp [returned])

end TrackerCall

namespace Tracking

/-- What the first access of a call tells the tracker. -/
def first (m : Move Tracking TrackerLabel) : Option TrackerRequest :=
  match m.label with
  | .tell _ => none
  | .access i _ _ => m.before.calls[i]?.bind TrackerCall.opens

theorem first_access {s t : Tracking} {i : ℕ} {seen : U64} {spurious : Bool} {call : TrackerCall}
    (h : s.calls[i]? = some call) : first ⟨s, .access i seen spurious, t⟩ = call.opens := by
  simp [first, h]

/-- **The requests of a run, in the order of the first accesses of their calls.** -/
def orderOf (ms : List (Move Tracking TrackerLabel)) : List TrackerRequest := ms.filterMap first

/-- The requests of a run, in the order of the calls. -/
def requestsOf (ms : List (Move Tracking TrackerLabel)) : List TrackerRequest :=
  ms.filterMap fun m =>
    match m.label with
    | .tell request => some request
    | .access .. => none

/-- **What the calls have done so far is what their requests do in an order.** -/
structure Linear (m : MemoryTracker) (order : List TrackerRequest) (s : Tracking) : Prop where
  /-- What is in use is as it is then. -/
  allocated : s.allocated = (order.foldl MemoryTracker.told m).allocated
  /-- The order is of the calls past their first access. -/
  started : order.Perm (s.calls.filterMap TrackerCall.started)
  /-- They offer for the peak what is in use after an allocation. -/
  offered : ((s.calls.filterMap TrackerCall.offer).map Offer.value).Perm (m.usages order)
  /-- The peak is bounded by what they offer. -/
  peak : Bounded m.peak ⟨s.peak, s.calls.filterMap TrackerCall.offer⟩
  /-- The allocations past the second are counted. -/
  allocs : s.totalAllocs = m.totalAllocs + (s.calls.map TrackerCall.countedAllocs).sum
  /-- So are the deallocations. -/
  deallocs : s.totalDeallocs = m.totalDeallocs + (s.calls.map TrackerCall.countedDeallocs).sum

section Steps

variable {s t next : Tracking} {l : TrackerLabel} {m : MemoryTracker}
  {order : List TrackerRequest} {call call' : TrackerCall} {i : ℕ} {seen : U64} {spurious : Bool}

/-- **A step of the threads**: something is told, or a call makes an access. -/
theorem step_cases (h : Step s l t) :
    (∃ request, l = .tell request ∧ t = { s with calls := s.calls ++ [request.call] }) ∨
      ∃ i seen spurious call next call' l₁ l₂, l = .access i seen spurious ∧
        s.calls[i]? = some call ∧ s.accessBy call seen spurious = some (next, call') ∧
        s.calls = l₁ ++ call :: l₂ ∧ t = { next with calls := l₁ ++ call' :: l₂ } := by
  cases l with
  | tell request => exact Or.inl ⟨request, rfl, (Option.some.inj h).symm⟩
  | access i seen spurious =>
    rw [Step, step] at h
    split at h
    · exact absurd h (by simp)
    · rename_i call hi
      obtain ⟨⟨next, call'⟩, haccess, rfl⟩ := Option.map_eq_some_iff.mp h
      obtain ⟨hlt, rfl⟩ := List.getElem?_eq_some_iff.mp hi
      obtain ⟨l₁, l₂, hcalls, -, hset⟩ : ∃ l₁ l₂, s.calls = l₁ ++ s.calls[i] :: l₂ ∧
          l₁.length = i ∧ s.calls.set i call' = l₁ ++ call' :: l₂ := List.exists_of_set hlt
      exact Or.inr ⟨i, seen, spurious, _, next, call', l₁, l₂, rfl, hi, haccess, hcalls,
        congrArg (fun calls => ({ next with calls } : Tracking)) hset⟩

/-- A call replaced by one that has done the same. -/
private theorem filterMap_same {β : Type} {f : TrackerCall → Option β} {l₁ l₂ : List TrackerCall}
    (h : f call' = f call) : (l₁ ++ call' :: l₂).filterMap f = (l₁ ++ call :: l₂).filterMap f := by
  rw [List.filterMap_append, List.filterMap_append, List.filterMap_cons, List.filterMap_cons, h]

/-- A call replaced by one that has done one more thing. -/
private theorem filterMap_more {β : Type} {f : TrackerCall → Option β} {l₁ l₂ : List TrackerCall}
    {b : β} (h : f call = none) (h' : f call' = some b) :
    ((l₁ ++ call :: l₂).filterMap f ++ [b]).Perm ((l₁ ++ call' :: l₂).filterMap f) := by
  rw [List.filterMap_append, List.filterMap_append, List.filterMap_cons_none h,
    List.filterMap_cons_some h', List.append_assoc]
  exact (List.perm_append_singleton b _).append_left _

/-- A call that adds to a count. -/
private theorem sum_counted {f : TrackerCall → U64} {l₁ l₂ : List TrackerCall} {x : U64}
    (h : f call' = f call + x) :
    ((l₁ ++ call' :: l₂).map f).sum = ((l₁ ++ call :: l₂).map f).sum + x := by
  simp only [List.map_append, List.map_cons, List.sum_append, List.sum_cons, h]
  ac_rfl

/-- Nothing is told to a tracker that no call updates. -/
theorem Linear.ofTracker (m : MemoryTracker) : Linear m [] (Tracking.ofTracker m) :=
  ⟨rfl, .refl _, .refl _, .new _, (add_zero _).symm, (add_zero _).symm⟩

/-- **Telling the tracker something** does nothing yet. -/
theorem Linear.tell (h : Linear m order s) (request : TrackerRequest) :
    Linear m order { s with calls := s.calls ++ [request.call] } := by
  have hstarted : TrackerCall.started request.call = none := by cases request <;> rfl
  have hoffer : TrackerCall.offer request.call = none := by cases request <;> rfl
  have hallocs : TrackerCall.countedAllocs request.call = 0 := by cases request <;> rfl
  have hdeallocs : TrackerCall.countedDeallocs request.call = 0 := by cases request <;> rfl
  refine ⟨h.allocated, ?_, ?_, ?_, ?_, ?_⟩
  · rw [List.filterMap_append, List.filterMap_cons_none hstarted, List.filterMap_nil,
      List.append_nil]
    exact h.started
  · rw [List.filterMap_append, List.filterMap_cons_none hoffer, List.filterMap_nil,
      List.append_nil]
    exact h.offered
  · dsimp only
    rw [List.filterMap_append, List.filterMap_cons_none hoffer, List.filterMap_nil,
      List.append_nil]
    exact h.peak
  · rw [List.map_append, List.sum_append, h.allocs]
    simp [hallocs]
  · rw [List.map_append, List.sum_append, h.deallocs]
    simp [hdeallocs]

/-- What an access counts. -/
theorem counts_accessBy (h : s.accessBy call seen spurious = some (next, call')) :
    ∃ x y, next.totalAllocs = s.totalAllocs + x ∧
      call'.countedAllocs = call.countedAllocs + x ∧
      next.totalDeallocs = s.totalDeallocs + y ∧
      call'.countedDeallocs = call.countedDeallocs + y := by
  cases call with
  | allocating size | deallocating size =>
    obtain ⟨rfl, rfl⟩ := Prod.mk.inj (Option.some.inj h)
    exact ⟨0, 0, (add_zero _).symm, rfl, (add_zero _).symm, rfl⟩
  | countingAlloc size newAllocated =>
    obtain ⟨rfl, rfl⟩ := Prod.mk.inj (Option.some.inj h)
    exact ⟨1, 0, rfl, rfl, (add_zero _).symm, rfl⟩
  | raisingPeak size offer =>
    obtain ⟨⟨cell, offer'⟩, -, h⟩ := Option.map_eq_some_iff.mp h
    obtain ⟨rfl, rfl⟩ := Prod.mk.inj h
    exact ⟨0, 0, (add_zero _).symm, rfl, (add_zero _).symm, rfl⟩
  | countingDealloc size =>
    obtain ⟨rfl, rfl⟩ := Prod.mk.inj (Option.some.inj h)
    exact ⟨0, 1, (add_zero _).symm, rfl, rfl, rfl⟩
  | deallocated size => exact absurd h (by simp [accessBy])

/-- **What an access does to what is in use**: a first access does what its request does, and
makes the call one that is past it. -/
theorem allocated_accessBy (h : s.accessBy call seen spurious = some (next, call')) :
    (call.opens = none ∧ next.allocated = s.allocated ∧ call'.started = call.started) ∨
      ∃ request, call.opens = some request ∧ call.started = none ∧
        call'.started = some request ∧ ∀ m : MemoryTracker, m.allocated = s.allocated →
          next.allocated = (m.told request).allocated := by
  cases call with
  | allocating size =>
    obtain ⟨rfl, rfl⟩ := Prod.mk.inj (Option.some.inj h)
    exact Or.inr ⟨_, rfl, rfl, rfl, fun m hm => congrArg (· + size) hm.symm⟩
  | deallocating size =>
    obtain ⟨rfl, rfl⟩ := Prod.mk.inj (Option.some.inj h)
    exact Or.inr ⟨_, rfl, rfl, rfl, fun m hm => congrArg (· - size) hm.symm⟩
  | countingAlloc size newAllocated =>
    obtain ⟨rfl, rfl⟩ := Prod.mk.inj (Option.some.inj h)
    exact Or.inl ⟨rfl, rfl, rfl⟩
  | raisingPeak size offer =>
    obtain ⟨⟨cell, offer'⟩, -, h⟩ := Option.map_eq_some_iff.mp h
    obtain ⟨rfl, rfl⟩ := Prod.mk.inj h
    exact Or.inl ⟨rfl, rfl, rfl⟩
  | countingDealloc size =>
    obtain ⟨rfl, rfl⟩ := Prod.mk.inj (Option.some.inj h)
    exact Or.inl ⟨rfl, rfl, rfl⟩
  | deallocated size => exact absurd h (by simp [accessBy])

/-- **What an access does to the peak**: the first access of an allocation makes an offer of what
it leaves in use; in the loop it is the next access of the offer; and another one does nothing. -/
theorem offer_accessBy (h : s.accessBy call seen spurious = some (next, call')) :
    (next.peak = s.peak ∧ call'.offer = call.offer ∧ ∀ size, call.opens ≠ some (.alloc size)) ∨
      (∃ size, call.opens = some (.alloc size) ∧ next.peak = s.peak ∧ call.offer = none ∧
        call'.offer = some (.fresh (s.allocated + size))) ∨
      ∃ o o', call.opens = none ∧ call.offer = some o ∧ call'.offer = some o' ∧
        o.advance s.peak seen spurious = some (next.peak, o') := by
  cases call with
  | allocating size =>
    obtain ⟨rfl, rfl⟩ := Prod.mk.inj (Option.some.inj h)
    exact Or.inr (Or.inl ⟨size, rfl, rfl, rfl, rfl⟩)
  | countingAlloc size newAllocated | deallocating size | countingDealloc size =>
    obtain ⟨rfl, rfl⟩ := Prod.mk.inj (Option.some.inj h)
    exact Or.inl ⟨rfl, rfl, by simp [TrackerCall.opens]⟩
  | raisingPeak size offer =>
    obtain ⟨⟨cell, offer'⟩, hadvance, h⟩ := Option.map_eq_some_iff.mp h
    obtain ⟨rfl, rfl⟩ := Prod.mk.inj h
    exact Or.inr (Or.inr ⟨offer, offer', rfl, rfl, rfl, hadvance⟩)
  | deallocated size => exact absurd h (by simp [accessBy])

/-- **An access keeps it so**; a first access puts the request at the end of the order. -/
theorem Linear.access {l₁ l₂ : List TrackerCall} (h : Linear m order s)
    (hcalls : s.calls = l₁ ++ call :: l₂)
    (haccess : s.accessBy call seen spurious = some (next, call')) :
    Linear m (order ++ call.opens.toList) { next with calls := l₁ ++ call' :: l₂ } := by
  obtain ⟨hallocated, hstarted, hoffered, hpeak, hallocs, hdeallocs⟩ := h
  rw [hcalls] at hstarted hoffered hpeak hallocs hdeallocs
  obtain ⟨x, y, hx, hcx, hy, hcy⟩ := counts_accessBy haccess
  have hcounts : next.totalAllocs = m.totalAllocs +
        ((l₁ ++ call' :: l₂).map TrackerCall.countedAllocs).sum ∧
      next.totalDeallocs = m.totalDeallocs +
        ((l₁ ++ call' :: l₂).map TrackerCall.countedDeallocs).sum := by
    rw [hx, hy, hallocs, hdeallocs, sum_counted hcx, sum_counted hcy, add_assoc, add_assoc]
    exact ⟨rfl, rfl⟩
  have hopened : next.allocated =
        ((order ++ call.opens.toList).foldl MemoryTracker.told m).allocated ∧
      (order ++ call.opens.toList).Perm ((l₁ ++ call' :: l₂).filterMap TrackerCall.started) := by
    rcases allocated_accessBy haccess with ⟨hnone, hsame, hst⟩ | ⟨request, hsome, hnot, hst, hdoes⟩
    · rw [hnone, Option.toList_none, List.append_nil, hsame, filterMap_same hst]
      exact ⟨hallocated, hstarted⟩
    · rw [hsome, Option.toList_some, List.foldl_append]
      exact ⟨hdoes _ hallocated.symm, (hstarted.append_right _).trans (filterMap_more hnot hst)⟩
  obtain ⟨hoffered', hpeak'⟩ :
      (((l₁ ++ call' :: l₂).filterMap TrackerCall.offer).map Offer.value).Perm
        (m.usages (order ++ call.opens.toList)) ∧
      Bounded m.peak ⟨next.peak, (l₁ ++ call' :: l₂).filterMap TrackerCall.offer⟩ := by
    rcases offer_accessBy haccess with ⟨hcell, hsame, hnot⟩ |
      ⟨size, hsome, hcell, hnone, hfresh⟩ | ⟨o, o', hnone, ho, ho', hadvance⟩
    · rw [hcell, filterMap_same hsame]
      refine ⟨?_, hpeak⟩
      rcases hopens : call.opens with _ | request
      · rwa [Option.toList_none, List.append_nil]
      · rw [Option.toList_some, MemoryTracker.usages_concat]
        cases request with
        | alloc size => exact absurd hopens (hnot size)
        | dealloc size => exact hoffered.trans (.of_eq (List.append_nil _).symm)
    · have hmore : ((l₁ ++ call :: l₂).filterMap TrackerCall.offer ++
          [Offer.fresh (s.allocated + size)]).Perm
          ((l₁ ++ call' :: l₂).filterMap TrackerCall.offer) := filterMap_more hnone hfresh
      rw [hsome, Option.toList_some, MemoryTracker.usages_concat, hcell]
      refine ⟨(hmore.map Offer.value).symm.trans ?_, (hpeak.step (.offer _ _)).perm hmore⟩
      rw [List.map_append]
      refine (hoffered.append_right _).trans (.of_eq ?_)
      rw [hallocated]
      rfl
    · -- the offer has its place among those of the calls that have one
      have hplace : ∀ {c : TrackerCall} {o : Offer U64}, c.offer = some o →
          (l₁ ++ c :: l₂).filterMap TrackerCall.offer =
            l₁.filterMap TrackerCall.offer ++ o :: l₂.filterMap TrackerCall.offer :=
        fun hc => by rw [List.filterMap_append, List.filterMap_cons_some hc]
      rw [hplace ho] at hoffered hpeak
      rw [hplace ho', hnone, Option.toList_none, List.append_nil]
      refine ⟨?_, ?_⟩
      · rw [List.map_append, List.map_cons, Offer.value_advance hadvance, ← List.map_cons,
          ← List.map_append]
        exact hoffered
      · have hget : (l₁.filterMap TrackerCall.offer ++ o :: l₂.filterMap TrackerCall.offer)[
            (l₁.filterMap TrackerCall.offer).length]? = some o := by simp
        have hstep := hpeak.step (.access hget hadvance)
        rwa [List.set_append_right _ _ (le_refl _), Nat.sub_self, List.set_cons_zero] at hstep
  exact ⟨hopened.1, hopened.2, hoffered', hpeak', hcounts.1, hcounts.2⟩

end Steps

/-! ### Whole runs -/

section Runs

variable {s : Tracking} {m : MemoryTracker} {ms : List (Move Tracking TrackerLabel)}

/-- The calls are those that were made. -/
theorem requests_of_run (hrun : Run Step (ofTracker m) ms s) :
    s.calls.map TrackerCall.request = requestsOf ms := by
  induction hrun with
  | nil => rfl
  | @snoc s t ms l _ hstep ih =>
    rw [requestsOf, List.filterMap_append, ← requestsOf, ← ih]
    rcases step_cases hstep with ⟨request, rfl, rfl⟩ |
      ⟨i, seen, spurious, call, next, call', l₁, l₂, rfl, -, haccess, hcalls, rfl⟩
    · rw [List.map_append]
      cases request <;> rfl
    · have hrequest : call'.request = call.request := by
        cases call with
        | raisingPeak size offer =>
          obtain ⟨⟨cell, offer'⟩, -, h⟩ := Option.map_eq_some_iff.mp haccess
          obtain ⟨rfl, rfl⟩ := Prod.mk.inj h
          rfl
        | deallocated size => exact absurd haccess (by simp [accessBy])
        | _ =>
          obtain ⟨rfl, rfl⟩ := Prod.mk.inj (Option.some.inj haccess)
          rfl
      rw [hcalls, List.map_append, List.map_append, List.map_cons, List.map_cons, hrequest]
      exact (List.append_nil _).symm

/-- The calls of a run have done what their requests do in the order of their first accesses. -/
theorem linear_of_run (hrun : Run Step (ofTracker m) ms s) : Linear m (orderOf ms) s := by
  induction hrun with
  | nil => exact .ofTracker m
  | @snoc s t ms l _ hstep ih =>
    rw [orderOf, List.filterMap_append, ← orderOf]
    rcases step_cases hstep with ⟨request, rfl, rfl⟩ |
      ⟨i, seen, spurious, call, next, call', l₁, l₂, rfl, hi, haccess, hcalls, rfl⟩
    · rw [List.filterMap_cons_none rfl, List.filterMap_nil, List.append_nil]
      exact ih.tell request
    · rw [List.filterMap_cons, first_access hi]
      have h := ih.access hcalls haccess
      rcases hopens : call.opens with _ | request
      · rwa [hopens] at h
      · rwa [hopens] at h

/-- The order in which values are offered does not matter to the greatest. -/
private theorem foldl_max_perm {l l' : List U64} (h : l.Perm l') (x : U64) :
    l.foldl max x = l'.foldl max x :=
  (CompareExchange.isGreatest_foldl_max l x).unique <| by
    have hgreatest := CompareExchange.isGreatest_foldl_max l' x
    simpa only [h.mem_iff] using hgreatest

/-- The peak is the most that an allocation left in use, once all calls have returned. -/
theorem peak_of_run (hrun : Run Step (ofTracker m) ms s) (hreturned : s.Returned) :
    s.peak.value = (m.usages (orderOf ms)).foldl max m.peak := by
  have h := linear_of_run hrun
  have hsettled : Shared.Settled ⟨s.peak, s.calls.filterMap TrackerCall.offer⟩ := by
    intro o ho
    obtain ⟨call, hcall, hoffer⟩ := List.mem_filterMap.mp ho
    exact (TrackerCall.of_returned (hreturned call hcall)).2.1 o hoffer
  calc s.peak.value
      = ((s.calls.filterMap TrackerCall.offer).map Offer.value).foldl max m.peak :=
        h.peak.value_eq hsettled
    _ = (m.usages (orderOf ms)).foldl max m.peak := foldl_max_perm h.offered m.peak

/-- **Overlapping calls come to the same as if they were made one after the other, in the order
of their first accesses**, once all of them have returned: in particular the peak is that of the
allocations and deallocations in this order. -/
theorem linearized (hrun : Run Step (ofTracker m) ms s) (hreturned : s.Returned) :
    s.tracker = (orderOf ms).foldl MemoryTracker.told m ∧ (orderOf ms).Perm (requestsOf ms) := by
  have h := linear_of_run hrun
  have hdone := fun call hcall => TrackerCall.of_returned (hreturned call hcall)
  have hperm : (orderOf ms).Perm (requestsOf ms) := by
    rw [← requests_of_run hrun]
    refine h.started.trans (.of_eq ?_)
    rw [List.filterMap_congr fun call hcall => (hdone call hcall).1]
    exact List.filterMap_eq_map ▸ rfl
  refine ⟨?_, hperm⟩
  obtain ⟨hpeak, hallocs, hdeallocs⟩ := m.foldl_told (orderOf ms)
  have hsum : ∀ {f : TrackerCall → U64} {g : TrackerRequest → U64},
      (∀ call ∈ s.calls, f call = g call.request) →
        (s.calls.map f).sum = ((orderOf ms).map g).sum := by
    intro f g hfg
    rw [(hperm.map g).sum_eq, ← requests_of_run hrun, List.map_map, List.map_congr_left hfg]
    rfl
  have hpeak' : s.peak.value = ((orderOf ms).foldl MemoryTracker.told m).peak :=
    (peak_of_run hrun hreturned).trans hpeak.symm
  have hallocs' : s.totalAllocs = ((orderOf ms).foldl MemoryTracker.told m).totalAllocs := by
    rw [hallocs, h.allocs, hsum fun call hcall => (hdone call hcall).2.2.1]
  have hdeallocs' : s.totalDeallocs = ((orderOf ms).foldl MemoryTracker.told m).totalDeallocs := by
    rw [hdeallocs, h.deallocs, hsum fun call hcall => (hdone call hcall).2.2.2]
  rw [tracker, h.allocated, hpeak', hallocs', hdeallocs']

/-- Two allocations and a deallocation overlap: the second allocation is the first to raise the
peak, and the first sees that it need not. -/
def threeCalls : List TrackerLabel :=
  [.tell (.alloc 100), .tell (.alloc 50), .tell (.dealloc 100), .access 0 0 false,
    .access 1 0 false, .access 2 0 false, .access 1 0 false, .access 0 0 false,
    .access 1 0 false, .access 0 0 false, .access 1 0 false, .access 0 150 false,
    .access 2 0 false]

/-- That is a run, which gives nothing back that was not in use. -/
theorem run_threeCalls : ∃ ms s, Run Step (ofTracker .new) ms s ∧
    ms.map Move.label = threeCalls ∧ s.Returned ∧
    orderOf ms = [.alloc 100, .alloc 50, .dealloc 100] ∧ Transition.Guarded GivesBack ms := by
  obtain ⟨⟨ms, s⟩, htrace⟩ : ∃ x, Transition.trace step (ofTracker .new) threeCalls = some x :=
    Option.isSome_iff_exists.mp (by decide)
  obtain ⟨hrun, hlabels⟩ := Transition.run_of_trace htrace
  have hcheck : (Transition.trace step (ofTracker .new) threeCalls).map (fun x =>
      decide (x.2.Returned ∧ orderOf x.1 = [.alloc 100, .alloc 50, .dealloc 100] ∧
        ∀ m ∈ x.1, GivesBack m.before m.label)) = some true := by
    decide
  rw [htrace] at hcheck
  obtain ⟨hreturned, horder, hback⟩ := of_decide_eq_true (Option.some.inj hcheck)
  exact ⟨ms, s, hrun, hlabels, hreturned, horder, hback⟩

/-- **They leave 50 bytes in use, of 150 at the most.** -/
theorem linearized_threeCalls : ∃ ms s, Run Step (ofTracker .new) ms s ∧
    ms.map Move.label = threeCalls ∧ s.tracker = ⟨50, 150, 2, 1⟩ := by
  obtain ⟨ms, s, hrun, hlabels, hreturned, horder, -⟩ := run_threeCalls
  obtain ⟨htracker, -⟩ := linearized hrun hreturned
  rw [horder] at htracker
  exact ⟨ms, s, hrun, hlabels, htracker.trans (by decide)⟩

/-! ### The most that was in use -/

/-- What is in use after a step is what an allocation left, or no more than before. -/
theorem allocated_step {s t : Tracking} {l : TrackerLabel} {order : List TrackerRequest}
    (h : Linear m order s) (hstep : Step s l t) (hback : GivesBack s l) :
    m.usages (order ++ (first ⟨s, l, t⟩).toList) = m.usages order ++ [t.allocated] ∨
      m.usages (order ++ (first ⟨s, l, t⟩).toList) = m.usages order ∧
        t.allocated ≤ s.allocated := by
  rcases step_cases hstep with ⟨request, rfl, rfl⟩ |
    ⟨i, seen, spurious, call, next, call', l₁, l₂, rfl, hi, haccess, -, rfl⟩
  · exact Or.inr ⟨by rw [first, Option.toList_none, List.append_nil], le_refl _⟩
  · rw [first_access hi]
    rcases allocated_accessBy haccess with ⟨hnone, hsame, -⟩ | ⟨request, hsome, -, -, hdoes⟩
    · exact Or.inr ⟨by rw [hnone, Option.toList_none, List.append_nil], hsame.le⟩
    · have hallocated := hdoes _ h.allocated.symm
      rw [hsome, Option.toList_some, MemoryTracker.usages_concat]
      cases request with
      | alloc size => exact Or.inl (by rw [hallocated]; rfl)
      | dealloc size =>
        refine Or.inr ⟨List.append_nil _, ?_⟩
        have hcall : call = .deallocating size := by
          cases call with
          | deallocating size' =>
            exact congrArg _ (TrackerRequest.dealloc.inj (Option.some.inj hsome))
          | _ => exact absurd hsome (by simp [TrackerCall.opens])
        have hle : size ≤ s.allocated := by
          subst hcall
          exact of_decide_eq_true (hback _ hi)
        have hsub : next.allocated = s.allocated - size := by
          rw [hallocated, h.allocated]
          rfl
        show next.allocated ≤ s.allocated
        rw [hsub, Fin.le_def, Fin.sub_val_of_le hle]
        exact Nat.sub_le _ _

/-- **What was in use at the moments of a run**: every usage after an allocation is one of them,
and none is more than all of these and the peak before. -/
structure Marked (m : MemoryTracker) (ms : List (Move Tracking TrackerLabel)) (s : Tracking) :
    Prop where
  /-- What an allocation left was in use. -/
  used : ∀ v ∈ m.usages (orderOf ms), ∃ move ∈ ms, v = move.after.allocated
  /-- What was in use was left by an allocation, or is less. -/
  below : ∀ move ∈ ms, ∃ v, (v = m.peak ∨ v ∈ m.usages (orderOf ms)) ∧ move.after.allocated ≤ v
  /-- So is what is in use. -/
  now : ∃ v, (v = m.peak ∨ v ∈ m.usages (orderOf ms)) ∧ s.allocated ≤ v

/-- Every run marks what was in use. -/
theorem marked_of_run (hrun : Run Step (ofTracker m) ms s)
    (hback : Transition.Guarded GivesBack ms) (hm : m.allocated ≤ m.peak) : Marked m ms s := by
  induction hrun with
  | nil => exact ⟨by simp [orderOf, MemoryTracker.usages], by simp, m.peak, Or.inl rfl, hm⟩
  | @snoc s t ms l hrun hstep ih =>
    obtain ⟨hback, hlast⟩ := Transition.guarded_snoc.mp hback
    obtain ⟨hused, hbelow, v, hv, hnow⟩ := ih hback
    have horder : orderOf (ms ++ [⟨s, l, t⟩]) = orderOf ms ++ (first ⟨s, l, t⟩).toList := by
      rw [orderOf, List.filterMap_append, List.filterMap_cons, List.filterMap_nil]
      rcases first ⟨s, l, t⟩ with _ | request <;> rfl
    have hmore : ∀ u, u = m.peak ∨ u ∈ m.usages (orderOf ms) →
        u = m.peak ∨ u ∈ m.usages (orderOf (ms ++ [⟨s, l, t⟩])) := by
      intro u hu
      rw [horder]
      rcases allocated_step (linear_of_run hrun) hstep hlast with hadd | ⟨hsame, -⟩
      · rw [hadd]
        exact hu.imp_right (List.mem_append_left _)
      · rwa [hsame]
    have hnext : ∃ u, (u = m.peak ∨ u ∈ m.usages (orderOf (ms ++ [⟨s, l, t⟩]))) ∧
        t.allocated ≤ u := by
      rcases allocated_step (linear_of_run hrun) hstep hlast with hadd | ⟨-, hle⟩
      · refine ⟨t.allocated, Or.inr ?_, le_refl _⟩
        rw [horder, hadd]
        exact List.mem_append_right _ List.mem_cons_self
      · exact ⟨v, hmore v hv, hle.trans hnow⟩
    refine ⟨fun u hu => ?_, fun move hmove => ?_, hnext⟩
    · have hold : u ∈ m.usages (orderOf ms) ∨ u = t.allocated := by
        rw [horder] at hu
        rcases allocated_step (linear_of_run hrun) hstep hlast with hadd | ⟨hsame, -⟩
        · rw [hadd] at hu
          exact (List.mem_append.mp hu).imp_right List.mem_singleton.mp
        · exact Or.inl (hsame ▸ hu)
      rcases hold with hu | rfl
      · obtain ⟨move, hmove, heq⟩ := hused u hu
        exact ⟨move, List.mem_append_left _ hmove, heq⟩
      · exact ⟨⟨s, l, t⟩, List.mem_append_right _ List.mem_cons_self, rfl⟩
    · rcases List.mem_append.mp hmove with hmove | hmove
      · obtain ⟨u, hu, hle⟩ := hbelow move hmove
        exact ⟨u, hmore u hu, hle⟩
      · obtain rfl := List.mem_singleton.mp hmove
        exact hnext

/-- **The peak is the most that was in use at any moment of the run**, or the peak before, once
all calls have returned and when nothing was given back that was not in use. -/
theorem isGreatest_peak (hrun : Run Step (ofTracker m) ms s) (hreturned : s.Returned)
    (hback : Transition.Guarded GivesBack ms) (hm : m.allocated ≤ m.peak) :
    IsGreatest {u | u = m.peak ∨ ∃ move ∈ ms, u = move.after.allocated} s.tracker.peak := by
  obtain ⟨hused, hbelow, -⟩ := marked_of_run hrun hback hm
  obtain ⟨hmem, htop⟩ :=
    CompareExchange.isGreatest_foldl_max (m.usages (orderOf ms)) m.peak
  rw [tracker, peak_of_run hrun hreturned]
  refine ⟨hmem.imp_right (hused _), ?_⟩
  rintro u (rfl | ⟨move, hmove, rfl⟩)
  · exact htop (Or.inl rfl)
  · obtain ⟨v, hv, hle⟩ := hbelow move hmove
    exact hle.trans (htop hv)

/-- **Of the three calls, 150 bytes is the most that was in use.** -/
theorem isGreatest_threeCalls : ∃ ms s, Run Step (ofTracker .new) ms s ∧
    ms.map Move.label = threeCalls ∧ ∀ move ∈ ms, move.after.allocated ≤ s.tracker.peak := by
  obtain ⟨ms, s, hrun, hlabels, hreturned, -, hback⟩ := run_threeCalls
  have hgreatest := isGreatest_peak hrun hreturned hback (le_refl _)
  exact ⟨ms, s, hrun, hlabels, fun move hmove => hgreatest.2 (Or.inr ⟨move, hmove, rfl⟩)⟩

end Runs

end Tracking

end SaferRing
