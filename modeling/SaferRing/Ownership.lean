import Mathlib.Logic.Function.Basic
import SaferRing.Operation

/-!
# Who owns a buffer

An `SaferRing.OwnedBuffer` is a handle: it names a cell, and the cell says who owns
the bytes – the user, the kernel under the id of an operation, or nobody for the
time being, while a guard holds them (`SaferRing.BufferOwnership`). Several handles
may name one cell, so the ownership is read and changed in a `SaferRing.Heap` of
cells that all of them share.

The five things that happen to a cell each have their definition, on the cell
alone: `SaferRing.BufferOwnership.tryAccess`, `giveToKernel`, `returnFromKernel`
(which panics on the wrong owner), `asPtrAndLen`, and the return of the bytes when
a guard is dropped, which looks at nothing. The methods of a handle are these, run
on its cell.
-/

namespace SaferRing

/-! ### Bytes and their owner -/

/-- A boxed slice: where the allocator put it, and what it holds. -/
structure BoxedSlice where
  /-- The address of the first byte. -/
  addr : ℕ
  /-- The bytes. -/
  bytes : List UInt8
  deriving DecidableEq, Repr

/-- **The owner of a buffer.** -/
inductive BufferOwnership
  /-- Userspace owns the bytes. -/
  | user (buf : BoxedSlice)
  /-- The kernel owns the bytes, for the operation `id`. -/
  | kernel (buf : BoxedSlice) (id : ℕ)
  /-- The bytes are out, held by a guard. -/
  | returning
  deriving DecidableEq, Repr

namespace BufferOwnership

/-- Take the bytes out for a guard, if userspace owns them. -/
def tryAccess : BufferOwnership → Option BoxedSlice × BufferOwnership
  | .user buf => (some buf, .returning)
  | .kernel buf id => (none, .kernel buf id)
  | .returning => (none, .returning)

/-- Hand the bytes to the kernel for the operation `submissionId`, and return
where they are. -/
def giveToKernel (submissionId : ℕ) :
    BufferOwnership → Except SaferRingError (Ptr × ℕ) × BufferOwnership
  | .user buf => (.ok (some buf.addr, buf.bytes.length), .kernel buf submissionId)
  | .kernel buf existingId =>
    (.error (.ioNew .wouldBlock
      s!"Buffer already owned by kernel (operation {existingId})"), .kernel buf existingId)
  | .returning =>
    (.error (.ioNew .wouldBlock "Buffer ownership is currently transitioning"), .returning)

/-- Take the bytes back from the kernel; `none` is the panic on a buffer that the
operation `submissionId` does not own. -/
def returnFromKernel (submissionId : ℕ) : BufferOwnership → Option BufferOwnership
  | .kernel buf id => if id = submissionId then some (.user buf) else none
  | _ => none

/-- Where the bytes are, if userspace owns them; otherwise the null pointer and
length `0`. The owner does not change. -/
def asPtrAndLen : BufferOwnership → Ptr × ℕ
  | .user buf => (some buf.addr, buf.bytes.length)
  | .kernel _ _ => (none, 0)
  | .returning => (none, 0)

/-- Whether userspace owns the bytes. -/
def isUserOwned : BufferOwnership → Bool
  | .user _ => true
  | _ => false

/-- The operation the kernel owns the bytes for, if it owns them. -/
def kernelOwner : BufferOwnership → Option ℕ
  | .kernel _ id => some id
  | _ => none

variable {o : BufferOwnership} {id : ℕ}

/-- **The kernel's bytes are out of reach**: no access while an operation owns
them. -/
theorem tryAccess_of_kernelOwner (h : o.kernelOwner = some id) : o.tryAccess = (none, o) := by
  cases o with
  | kernel => rfl
  | user => exact absurd h (by simp [kernelOwner])
  | returning => rfl

/-- An attempt to access does not put bytes in the kernel's hands. -/
theorem kernelOwner_tryAccess : o.tryAccess.2.kernelOwner = o.kernelOwner := by
  cases o <;> rfl

end BufferOwnership

/-! ### The heap of cells -/

/-- The cells that handles share, and the next one to be allocated. -/
structure Heap where
  /-- The owner each cell records. -/
  cell : ℕ → BufferOwnership
  /-- The next cell. -/
  next : ℕ

namespace Heap

/-- A heap without a buffer. -/
def empty : Heap := ⟨fun _ => .returning, 0⟩

/-- Write a cell. -/
def set (self : Heap) (c : ℕ) (o : BufferOwnership) : Heap :=
  { self with cell := Function.update self.cell c o }

/-- Allocate a cell. -/
def alloc (self : Heap) (o : BufferOwnership) : ℕ × Heap :=
  (self.next, ⟨Function.update self.cell self.next o, self.next + 1⟩)

variable (self : Heap) (c d : ℕ) (o : BufferOwnership)

@[simp] theorem cell_set_self : (self.set c o).cell c = o := Function.update_self ..

theorem cell_set_of_ne {c d : ℕ} (h : d ≠ c) : (self.set c o).cell d = self.cell d :=
  Function.update_of_ne h ..

/-- Writing what is there changes nothing. -/
@[simp] theorem set_cell : self.set c (self.cell c) = self := by
  rw [set, Function.update_eq_self]

@[simp] theorem cell_alloc_self : (self.alloc o).2.cell self.next = o := Function.update_self ..

theorem cell_alloc_of_ne {d : ℕ} (h : d ≠ self.next) :
    (self.alloc o).2.cell d = self.cell d :=
  Function.update_of_ne h ..

end Heap

/-! ### Handles -/

/-- **A handle to a buffer**: the cell it names, and the size the buffer was made
with. -/
structure OwnedBuffer where
  /-- The cell. -/
  inner : ℕ
  /-- The number of bytes. -/
  size : ℕ
  /-- The generation, `0` for every buffer. -/
  generation : ℕ
  deriving DecidableEq, Repr

/-- The bytes of a buffer, out of its cell. -/
structure BufferAccessGuard where
  /-- The bytes. -/
  buffer : BoxedSlice
  /-- The cell they go back to. -/
  ownership : ℕ
  deriving DecidableEq, Repr

namespace OwnedBuffer

/-- A buffer of zeros, at an address the allocator chooses. -/
def new (heap : Heap) (addr size : ℕ) : OwnedBuffer × Heap :=
  let (c, heap) := heap.alloc (.user ⟨addr, List.replicate size 0⟩)
  (⟨c, size, 0⟩, heap)

/-- A buffer with the given bytes, at an address the allocator chooses. -/
def fromSlice (heap : Heap) (addr : ℕ) (data : List UInt8) : OwnedBuffer × Heap :=
  let (c, heap) := heap.alloc (.user ⟨addr, data⟩)
  (⟨c, data.length, 0⟩, heap)

variable (self : OwnedBuffer) (heap : Heap)

/-- Another handle of the same buffer. -/
def cloneHandle : OwnedBuffer := ⟨self.inner, self.size, self.generation⟩

/-- Take the bytes out into a guard, if userspace owns them. -/
def tryAccess : Option BufferAccessGuard × Heap :=
  match (heap.cell self.inner).tryAccess with
  | (some buffer, o) => (some ⟨buffer, self.inner⟩, heap.set self.inner o)
  | (none, o) => (none, heap.set self.inner o)

/-- Hand the bytes to the kernel. -/
def giveToKernel (submissionId : ℕ) : Except SaferRingError (Ptr × ℕ) × Heap :=
  let (result, o) := (heap.cell self.inner).giveToKernel submissionId
  (result, heap.set self.inner o)

/-- Take the bytes back from the kernel; `none` is the panic. -/
def returnFromKernel (submissionId : ℕ) : Option Heap :=
  ((heap.cell self.inner).returnFromKernel submissionId).map (heap.set self.inner)

/-- Where the bytes are. -/
def asPtrAndLen : Ptr × ℕ := (heap.cell self.inner).asPtrAndLen

@[simp] theorem cloneHandle_eq : self.cloneHandle = self := rfl

variable {self heap}

/-- Handing over a buffer that userspace owns. -/
theorem giveToKernel_of_user {buf : BoxedSlice} (h : heap.cell self.inner = .user buf) (id : ℕ) :
    self.giveToKernel heap id =
      (.ok (some buf.addr, buf.bytes.length), heap.set self.inner (.kernel buf id)) := by
  rw [giveToKernel, h, BufferOwnership.giveToKernel]

end OwnedBuffer

/-- Write through a guard, which is as long as it was. -/
def BufferAccessGuard.write (self : BufferAccessGuard) (bytes : List UInt8) : BufferAccessGuard :=
  { self with buffer := { self.buffer with bytes } }

/-- Dropping a guard gives the bytes back to userspace, whatever the cell says. -/
def BufferAccessGuard.drop (self : BufferAccessGuard) (heap : Heap) : Heap :=
  heap.set self.ownership (.user self.buffer)

end SaferRing
