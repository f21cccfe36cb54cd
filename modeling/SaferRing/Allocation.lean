import Mathlib.Algebra.Ring.Nat
import SaferRing.Completion
import SaferRing.Ownership

/-!
# Aligned buffers

`SaferRing.allocateAlignedBuffer` and `SaferRing.allocateWithAlignment` ask the allocator for
memory with a layout of their own and hand it out as a boxed slice of bytes, which gives it back
with the layout of such a slice when it is dropped. The allocator demands that the two are the
same (`SaferRing.Allocator.dealloc`).

`SaferRing.allocated_freed_iff` is that **a buffer is given back as it was obtained exactly when
its alignment is 1**, which for page-aligned buffers is to say that the page layout was refused.
-/

namespace SaferRing

/-! ### Layouts -/

/-- Whether an alignment is a power of two. -/
def isPowerOfTwo (align : ℕ) : Bool := 2 ^ align.log2 = align

/-- **A layout of memory**: a size and an alignment, which is a power of two, such that the size
rounded up to it is no more than `isize::MAX`. -/
structure Layout where
  /-- The size. -/
  size : ℕ
  /-- The alignment. -/
  align : ℕ
  /-- The alignment is a power of two. -/
  powerOfTwo : isPowerOfTwo align
  /-- The size is not too large. -/
  fits : size + align ≤ 2 ^ 63
  deriving DecidableEq

/-- A layout of a size and an alignment, if there is one. -/
def Layout.fromSizeAlign (size align : ℕ) : Option Layout :=
  if h : isPowerOfTwo align ∧ size + align ≤ 2 ^ 63 then some ⟨size, align, h.1, h.2⟩ else none

/-! ### The allocator -/

/-- **The allocator**: the memory that is allocated, by address, with the layout it was obtained
with. -/
structure Allocator where
  /-- The layouts. -/
  allocated : HashMap Layout

namespace Allocator

variable (self : Allocator)

/-- Obtain zeroed memory, where the system has put it; `none` is the null pointer. -/
def allocZeroed (layout : Layout) (answer : Option ℕ) : Option ℕ × Allocator :=
  match answer with
  | none => (none, self)
  | some ptr => (some ptr, ⟨self.allocated.insert ptr layout⟩)

/-- **Give memory back**, which must be with the size and the alignment it was obtained with.
Anything else, `none`, is undefined behaviour. -/
def dealloc (ptr size align : ℕ) : Option Allocator :=
  match self.allocated.lookup ptr with
  | none => none
  | some layout =>
    if layout.size = size ∧ layout.align = align then some ⟨self.allocated.erase ptr⟩ else none

end Allocator

/-- A boxed slice of no bytes, which owns no memory. -/
def BoxedSlice.empty : BoxedSlice := ⟨1, []⟩

/-- **Drop a boxed slice**: unless it is empty, its memory is given back with the layout of its
bytes. -/
def BoxedSlice.drop (self : BoxedSlice) (allocator : Allocator) : Option Allocator :=
  if self.bytes.length = 0 then some allocator
  else allocator.dealloc self.addr self.bytes.length 1

/-! ### Buffers -/

/-- The memory of a layout as a boxed slice, with a panic when there is none. -/
def boxZeroed (allocator : Allocator) (layout : Layout) (answer : Option ℕ) :
    Outcome (BoxedSlice × Allocator) :=
  match allocator.allocZeroed layout answer with
  | (none, _) => .panicked
  | (some ptr, allocator) => .returned (⟨ptr, List.replicate layout.size 0⟩, allocator)

/-- **A buffer on a page of its own**, or anywhere when there is no such layout. -/
def allocateAlignedBuffer (allocator : Allocator) (size : ℕ) (answer : Option ℕ) :
    Outcome (BoxedSlice × Allocator) :=
  if size = 0 then .returned (.empty, allocator)
  else
    match Layout.fromSizeAlign size 4096 with
    | some layout => boxZeroed allocator layout answer
    | none =>
      match Layout.fromSizeAlign size 1 with
      | some layout => boxZeroed allocator layout answer
      | none => .panicked

/-- **A buffer with an alignment**, with a panic when there is no such layout. -/
def allocateWithAlignment (allocator : Allocator) (size align : ℕ) (answer : Option ℕ) :
    Outcome (BoxedSlice × Allocator) :=
  if size = 0 then .returned (.empty, allocator)
  else
    match Layout.fromSizeAlign size align with
    | some layout => boxZeroed allocator layout answer
    | none => .panicked

/-! ### Giving buffers back -/

variable {allocator later : Allocator} {layout : Layout} {size align : ℕ} {answer : Option ℕ}
  {buffer : BoxedSlice}

theorem Layout.fromSizeAlign_eq_some (h : fromSizeAlign size align = some layout) :
    layout.size = size ∧ layout.align = align := by
  obtain ⟨_, h⟩ := Option.dite_none_right_eq_some.mp h
  obtain rfl := Option.some.inj h
  exact ⟨rfl, rfl⟩

/-- What is boxed has the size and is zero, and the allocator knows its layout. -/
theorem boxZeroed_eq_returned (h : boxZeroed allocator layout answer = .returned (buffer, later)) :
    buffer.bytes = List.replicate layout.size 0 ∧
      later.allocated.lookup buffer.addr = some layout := by
  cases answer with
  | none => exact absurd h (by simp [boxZeroed, Allocator.allocZeroed])
  | some ptr =>
    obtain ⟨rfl, rfl⟩ := Prod.mk.inj (Outcome.returned.inj h)
    exact ⟨rfl, AList.lookup_insert _⟩

/-- **What is boxed is given back as it was obtained when its alignment is 1.** -/
theorem drop_boxZeroed (hsize : 0 < layout.size)
    (h : boxZeroed allocator layout answer = .returned (buffer, later)) :
    (buffer.drop later).isSome ↔ layout.align = 1 := by
  obtain ⟨hbytes, hlookup⟩ := boxZeroed_eq_returned h
  have hlen : buffer.bytes.length = layout.size := by
    rw [hbytes, List.length_replicate]
  rw [BoxedSlice.drop, hlen, if_neg (Nat.ne_of_gt hsize), Allocator.dealloc, hlookup]
  by_cases halign : layout.align = 1
  · simp [halign]
  · simp [halign]

/-- **Buffers are given back as they were obtained exactly when their alignment is 1.** A buffer
that was to be aligned to a page has that alignment only if there is no page layout of its
size. -/
theorem allocated_freed_iff (allocator : Allocator) (size : ℕ) (answer : Option ℕ)
    (hsize : 0 < size) :
    (∀ buffer later, allocateAlignedBuffer allocator size answer = .returned (buffer, later) →
      ((buffer.drop later).isSome ↔ 2 ^ 63 - 4096 < size)) ∧
    ∀ align buffer later,
      allocateWithAlignment allocator size align answer = .returned (buffer, later) →
        ((buffer.drop later).isSome ↔ align = 1) := by
  constructor
  · intro buffer later h
    rw [allocateAlignedBuffer, if_neg (Nat.ne_of_gt hsize)] at h
    rcases hpage : Layout.fromSizeAlign size 4096 with _ | layout
    · rw [hpage] at h
      have hlarge : 2 ^ 63 - 4096 < size := by
        by_contra hc
        have hfits : isPowerOfTwo 4096 ∧ size + 4096 ≤ 2 ^ 63 := ⟨by decide, by omega⟩
        rw [Layout.fromSizeAlign, dif_pos hfits] at hpage
        cases hpage
      rcases hbyte : Layout.fromSizeAlign size 1 with _ | layout
      · rw [hbyte] at h
        cases h
      · rw [hbyte] at h
        obtain ⟨rfl, halign⟩ := Layout.fromSizeAlign_eq_some hbyte
        exact iff_of_true ((drop_boxZeroed hsize h).mpr halign) hlarge
    · rw [hpage] at h
      have hfits := layout.fits
      obtain ⟨rfl, halign⟩ := Layout.fromSizeAlign_eq_some hpage
      rw [drop_boxZeroed hsize h, halign]
      exact iff_of_false (by omega) (by omega)
  · intro align buffer later h
    rw [allocateWithAlignment, if_neg (Nat.ne_of_gt hsize)] at h
    rcases hlayout : Layout.fromSizeAlign size align with _ | layout
    · rw [hlayout] at h
      cases h
    · rw [hlayout] at h
      obtain ⟨rfl, rfl⟩ := Layout.fromSizeAlign_eq_some hlayout
      exact drop_boxZeroed hsize h

/-- Three bytes anywhere are given back as they were obtained. -/
theorem allocated_freed_threeBytes :
    ∃ buffer later, allocateWithAlignment ⟨∅⟩ 3 1 (some 4096) = .returned (buffer, later) ∧
      (buffer.drop later).isSome :=
  ⟨_, _, rfl, ((allocated_freed_iff ⟨∅⟩ 3 (some 4096) (by decide)).2 1 _ _ rfl).mpr rfl⟩

/-- **A cache line is not**: 64 bytes obtained with an alignment of 64 are given back with one of
1, and so is a page. -/
theorem not_allocated_freed_cacheLine :
    (∃ buffer later, allocateWithAlignment ⟨∅⟩ 64 64 (some 4096) = .returned (buffer, later) ∧
      buffer.drop later = none) ∧
    ∃ buffer later, allocateAlignedBuffer ⟨∅⟩ 64 (some 4096) = .returned (buffer, later) ∧
      buffer.drop later = none :=
  ⟨⟨_, _, rfl, rfl⟩, _, _, rfl, rfl⟩

end SaferRing
