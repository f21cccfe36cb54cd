import Mathlib.Algebra.Ring.Int.Defs
import Mathlib.Algebra.Ring.Nat
import Mathlib.Data.List.AList
import SaferRing.Error

/-!
# Operations, from building to submission

An operation of the legacy interface is built field by field
(`SaferRing.Operation` in the state `SaferRing.Building`), checked by
`SaferRing.Operation.validate`, and given an id when the ring submits it
(`SaferRing.Operation.submitWithId`). The buffer of an operation is one of four
forms, and only the pinned slice is turned into a pointer and a length
(`SaferRing.Operation.bufferInfo`).

The ring keeps a handle of every submitted operation in the
`SaferRing.OperationTracker`, under an id it draws from a wrapping 64-bit counter.
-/

namespace SaferRing

/-- A hash map with keys of a machine-integer type: an association list without
repeated keys. Its order stands for the order of iteration, which the source
leaves open. -/
abbrev HashMap (V : Type) := AList fun _ : ℕ => V

/-- Addition of `u64` values that wraps around. -/
def wrappingAdd (m n : ℕ) : ℕ := (m + n) % 2 ^ 64

/-- The lower 32 bits of a number, `as u32`. -/
def asU32 (n : ℕ) : ℕ := n % 2 ^ 32

/-- A raw pointer; `none` is the null pointer. -/
abbrev Ptr := Option ℕ

/-! ### Types of operation -/

/-- The I/O operations the crate knows. -/
inductive OperationType
  /-- Read into a buffer. -/
  | read
  /-- Write from a buffer. -/
  | write
  /-- Accept a connection. -/
  | accept
  /-- Send on a socket. -/
  | send
  /-- Receive from a socket. -/
  | recv
  /-- Vectored read. -/
  | readVectored
  /-- Vectored write. -/
  | writeVectored
  deriving DecidableEq, Repr

/-- Every type but accept needs a buffer. -/
def OperationType.requiresBuffer : OperationType → Bool
  | .accept => false
  | _ => true

/-- The two vectored types. -/
def OperationType.isVectored : OperationType → Bool
  | .readVectored | .writeVectored => true
  | _ => false

/-- The name of a type, as it prints. -/
def OperationType.debug : OperationType → String
  | .read => "Read"
  | .write => "Write"
  | .accept => "Accept"
  | .send => "Send"
  | .recv => "Recv"
  | .readVectored => "ReadVectored"
  | .writeVectored => "WriteVectored"

/-- A slice pinned by the caller: its address and its length. -/
structure Slice where
  /-- The address of the first byte. -/
  addr : ℕ
  /-- The number of bytes. -/
  len : ℕ
  deriving DecidableEq, Repr

/-- The buffer of an operation. -/
inductive BufferType
  /-- No buffer. -/
  | none
  /-- One pinned slice. -/
  | pinned (buf : Slice)
  /-- A buffer registered with the registry, by index and size. -/
  | registered (index size : ℕ)
  /-- Several pinned slices. -/
  | vectored (buffers : List Slice)
  deriving DecidableEq, Repr

/-- The file descriptor of an operation; a registered descriptor and a fixed file
carry the descriptor they were registered for. -/
inductive FdType
  /-- A plain descriptor. -/
  | raw (fd : ℤ)
  /-- A registered descriptor. -/
  | registered (index : ℕ) (fd : ℤ)
  /-- A fixed file. -/
  | fixed (index : ℕ) (fd : ℤ)
  deriving DecidableEq, Repr

/-- Whether the buffer is `BufferType::Vectored`. -/
def BufferType.isVectored : BufferType → Bool
  | .vectored _ => true
  | _ => false

/-- Whether the descriptor is a plain one that was never set. -/
def FdType.isUnset : FdType → Bool
  | .raw fd => decide (fd < 0)
  | _ => false

/-! ### The states of an operation -/

/-- The state of an operation under construction. -/
structure Building where
  deriving DecidableEq, Repr

/-- The state of an operation in flight. -/
structure Submitted where
  /-- The id the ring gave the operation. -/
  id : ℕ
  deriving DecidableEq, Repr

/-- An operation, in the state `S`. -/
structure Operation (S : Type) where
  /-- The buffer of the operation. -/
  buffer : BufferType
  /-- The descriptor it works on. -/
  fd : FdType
  /-- The offset in the file. -/
  offset : ℕ
  /-- What it does. -/
  opType : OperationType
  /-- Its state. -/
  state : S
  deriving DecidableEq, Repr

namespace Operation

variable {S : Type}

/-- The descriptor, whatever form it is held in. -/
def getFd (op : Operation S) : ℤ :=
  match op.fd with
  | .raw fd => fd
  | .registered _ fd => fd
  | .fixed _ fd => fd

/-- **The check made before submission**: a descriptor is set, a buffer is there
when the type needs one, and vectored types go with vectored buffers. -/
def validate (op : Operation Building) : Except String Unit :=
  if op.fd.isUnset then .error "File descriptor must be set"
  else if op.opType.requiresBuffer && op.buffer == .none then
    .error "Buffer must be set for I/O operations"
  else if op.opType.requiresBuffer && op.buffer == .vectored [] then
    .error "Vectored operations require at least one buffer"
  else if op.opType.isVectored && !op.buffer.isVectored then
    .error "Vectored operation types require vectored buffers"
  else if !op.opType.isVectored && op.buffer.isVectored then
    .error "Non-vectored operation types cannot use vectored buffers"
  else .ok ()

/-- Give the operation its id, after checking it once more. -/
def submitWithId (op : Operation Building) (id : ℕ) : Except String (Operation Submitted) :=
  match op.validate with
  | .error msg => .error msg
  | .ok () => .ok { op with state := ⟨id⟩ }

/-- The pointer and the length handed to the kernel: only a pinned slice has
them; registered and vectored buffers are “handled differently”, which here is
not at all. -/
def bufferInfo (op : Operation Submitted) : Option (Ptr × ℕ) :=
  match op.buffer with
  | .none => none
  | .pinned buf => some (some buf.addr, buf.len)
  | .registered _ _ => none
  | .vectored _ => none

/-- An operation that passes the check is submitted as it is. -/
theorem submitWithId_of_validate {op : Operation Building} (h : op.validate = .ok ()) (id : ℕ) :
    op.submitWithId id = .ok { op with state := ⟨id⟩ } := by
  rw [submitWithId, h]

end Operation

/-! ### The tracker -/

/-- The buffers an operation may own while it is tracked. -/
inductive TrackedBuffer
  /-- One boxed slice. -/
  | single (bytes : List UInt8)
  /-- Several boxed slices. -/
  | vectored (bytes : List (List UInt8))
  deriving DecidableEq, Repr

/-- What the tracker keeps of an operation in flight. -/
structure OperationHandle where
  /-- The id of the operation. -/
  id : ℕ
  /-- Its type. -/
  opType : OperationType
  /-- Its descriptor. -/
  fd : ℤ
  /-- The buffer it owns, if it owns one. -/
  buffer : Option TrackedBuffer
  deriving DecidableEq, Repr

/-- **The legacy operations in flight**, under ids drawn from a counter that
starts at `1` and wraps. -/
structure OperationTracker where
  /-- The handles, by id. -/
  inFlight : HashMap OperationHandle
  /-- The next id. -/
  nextId : ℕ

namespace OperationTracker

/-- A tracker with nothing in flight. -/
def new : OperationTracker := ⟨∅, 1⟩

variable (self : OperationTracker)

/-- Draw an id and track an operation under it. -/
def registerOperationWithBuffer (opType : OperationType) (fd : ℤ)
    (buffer : Option TrackedBuffer) : ℕ × OperationTracker :=
  let id := self.nextId
  (id, ⟨self.inFlight.insert id ⟨id, opType, fd, buffer⟩, wrappingAdd self.nextId 1⟩)

/-- Draw an id and track an operation that owns no buffer. -/
def registerOperation (opType : OperationType) (fd : ℤ) : ℕ × OperationTracker :=
  self.registerOperationWithBuffer opType fd none

/-- Stop tracking an operation. -/
def completeOperation (id : ℕ) : Option OperationHandle × OperationTracker :=
  (self.inFlight.lookup id, { self with inFlight := self.inFlight.erase id })

/-- Whether an operation is tracked. -/
def isOperationTracked (id : ℕ) : Bool := decide (id ∈ self.inFlight)

/-- What is known of the operations tracked: their ids, types and descriptors. -/
def debugInfo : List (ℕ × OperationType × ℤ) :=
  self.inFlight.entries.map fun entry => (entry.2.id, entry.2.opType, entry.2.fd)

/-- The number of operations tracked. -/
def count : ℕ := self.inFlight.keys.length

/-- Whether any operation is tracked. -/
def hasOperations : Bool := !self.inFlight.keys.isEmpty

@[simp] theorem mem_completeOperation {id j : ℕ} :
    j ∈ (self.completeOperation id).2.inFlight ↔ j ≠ id ∧ j ∈ self.inFlight :=
  AList.mem_erase

end OperationTracker

end SaferRing
