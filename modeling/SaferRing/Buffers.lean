import SaferRing.Ring

/-!
# The buffers of a legacy submission

A legacy operation holds its buffer in one of four forms, and the backend is handed
one pointer and one length. This file says which bytes the one and the other stand
for, and when they are the same (`SaferRing.Ring.CarriesBuffers`).

* `SaferRing.BufferType.addresses` – the bytes of the operation's buffer;
* `SaferRing.Request.addresses` – the bytes a backend is pointed to;
* `SaferRing.Ring.carriesBuffers_iff` – they are the same exactly when the buffer is
  a pinned slice or has no byte: `bufferInfo` leaves registered and vectored buffers
  to the ring, and `submitToBackend` turns what is left to it into a null pointer.
-/

namespace SaferRing

/-! ### The bytes an operation is about -/

/-- **The memory of the process**, as far as an operation points into it. -/
structure Memory where
  /-- The address of the buffer registered under an index. -/
  registeredAt : ℕ → ℕ
  /-- The slices listed by an array of iovecs, by its address and length. -/
  iovecs : ℕ → ℕ → List Slice

/-- The addresses of the bytes of a slice, in order. -/
def Slice.addresses (slice : Slice) : List ℕ := List.range' slice.addr slice.len

/-- A pointer and a length for each slice of a vectored buffer. No function of the ring
calls it. -/
def Operation.vectoredBufferInfo (op : Operation Submitted) : Option (List (Ptr × ℕ)) :=
  match op.buffer with
  | .vectored buffers => some (buffers.map fun buf => (some buf.addr, buf.len))
  | _ => none

section Memory

variable (memory : Memory)

/-- The slices a buffer is made of. -/
def BufferType.slices : BufferType → List Slice
  | .none => []
  | .pinned buf => [buf]
  | .registered index size => [⟨memory.registeredAt index, size⟩]
  | .vectored buffers => buffers

/-- The addresses of the bytes of a buffer, in order. -/
def BufferType.addresses (buffer : BufferType) : List ℕ :=
  (buffer.slices memory).flatMap Slice.addresses

/-- **The slices a backend is pointed to.** For a vectored type the pointer and the length are
those of an array of iovecs, as for `readv` and `writev`. -/
def Request.slices (request : Request) : List Slice :=
  match request.bufferPtr with
  | none => []
  | some addr =>
    if request.opType.isVectored then memory.iovecs addr request.bufferLen
    else [⟨addr, request.bufferLen⟩]

/-- The addresses of the bytes a backend is pointed to, in order. -/
def Request.addresses (request : Request) : List ℕ :=
  (request.slices memory).flatMap Slice.addresses

/-- **A pointer and a length describe a buffer**: they stand for its bytes, and are not a null
pointer with length `0` when it has any. -/
structure Request.Describes (request : Request) (buffer : BufferType) : Prop where
  /-- They stand for the bytes of the buffer. -/
  addresses : request.addresses memory = buffer.addresses memory
  /-- They are not those of no buffer. -/
  notNull : buffer.addresses memory ≠ [] → ¬(request.bufferPtr = none ∧ request.bufferLen = 0)

end Memory

/-! ### What is handed over -/

section Request

variable {memory : Memory} {request : Request} {operation : Operation Building} {slice : Slice}

/-- The bytes decide: a null pointer stands for none. -/
theorem Request.describes_iff {buffer : BufferType} :
    request.Describes memory buffer ↔ request.addresses memory = buffer.addresses memory := by
  refine ⟨fun h => h.addresses, fun h => ⟨h, ?_⟩⟩
  rintro hne ⟨hnull, -⟩
  refine hne ?_
  rw [← h, Request.addresses, Request.slices, hnull]
  rfl

/-- A pinned slice only passes the check for a type that is not vectored. -/
theorem Operation.isVectored_of_pinned (hvalid : operation.validate = .ok ())
    (hbuffer : operation.buffer = .pinned slice) : operation.opType.isVectored = false := by
  by_contra hvectored
  rw [Bool.not_eq_false] at hvectored
  unfold Operation.validate at hvalid
  split_ifs at hvalid with h1 h2 h3 h4
  rw [hvectored, hbuffer] at h4
  exact h4 rfl

/-- A pinned slice is handed over as it is. -/
theorem Ring.slices_legacyRequest_of_pinned (id : ℕ) (hvalid : operation.validate = .ok ())
    (hbuffer : operation.buffer = .pinned slice) :
    (legacyRequest { operation with state := ⟨id⟩ }).slices memory = [slice] := by
  have hvectored := Operation.isVectored_of_pinned hvalid hbuffer
  simp [legacyRequest, Operation.bufferInfo, hbuffer, Request.slices, hvectored]

/-- **Any other buffer is handed over as none.** -/
theorem Ring.legacyRequest_null (id : ℕ) (hbuffer : ∀ slice, operation.buffer ≠ .pinned slice) :
    (legacyRequest { operation with state := ⟨id⟩ }).bufferPtr = none ∧
      (legacyRequest { operation with state := ⟨id⟩ }).bufferLen = 0 := by
  rcases hb : operation.buffer with _ | slice | ⟨index, size⟩ | buffers
  case pinned => exact absurd hb (hbuffer slice)
  all_goals simp [legacyRequest, Operation.bufferInfo]

/-- The slices of a vectored buffer are those `vectoredBufferInfo` lists. -/
theorem Operation.vectoredBufferInfo_eq {op : Operation Submitted}
    (hvectored : op.buffer.isVectored = true) :
    op.vectoredBufferInfo =
      some ((op.buffer.slices memory).map fun slice => (some slice.addr, slice.len)) := by
  rcases hb : op.buffer with _ | slice | ⟨index, size⟩ | buffers
  case vectored => simp [Operation.vectoredBufferInfo, BufferType.slices, hb]
  all_goals simp [BufferType.isVectored, hb] at hvectored

/-- A backend tells what it accepted. -/
theorem Backend.accepted_inj {b : Backend} {request' : Request} :
    b.accepted request = b.accepted request' ↔ request = request' := by
  simp [Backend.accepted]

end Request

namespace Ring

variable (self : Ring) {memory : Memory} {operation : Operation Building}

/-- **A submission carries the buffers** of its operation: what the backend accepts describes
them. -/
def CarriesBuffers (memory : Memory) (operation : Operation Building) : Prop :=
  ∀ request, (self.submit operation (.ok ())).2.backend = self.backend.accepted request →
    request.Describes memory operation.buffer

variable {self}

/-- An operation that passes the check is handed to the backend, as one request. -/
theorem backend_submit (hvalid : operation.validate = .ok ()) :
    (self.submit operation (.ok ())).2.backend =
      self.backend.accepted
        (legacyRequest { operation with state := ⟨self.operations.nextId⟩ }) := by
  rcases self.submit_cases operation (.ok ()) with ⟨msg, h, -⟩ | ⟨e, h, -⟩ | ⟨-, -, h⟩
  · rw [hvalid] at h
    exact absurd h (by simp)
  · exact absurd h (by simp)
  · rw [h]
    rfl

/-- A submission carries the buffers when its one request does. -/
theorem carriesBuffers_iff_describes (hvalid : operation.validate = .ok ()) :
    self.CarriesBuffers memory operation ↔
      (legacyRequest { operation with state := ⟨self.operations.nextId⟩ }).Describes memory
        operation.buffer := by
  unfold CarriesBuffers
  rw [backend_submit hvalid]
  constructor
  · exact fun h => h _ rfl
  · rintro h request hrequest
    rwa [← Backend.accepted_inj.mp hrequest]

variable (self) (memory)

/-- **When a legacy submission carries the buffers of its operation**: for any operation that
passes the check, exactly when the buffer is a pinned slice or there is no byte in it. -/
theorem carriesBuffers_iff (hvalid : operation.validate = .ok ()) :
    self.CarriesBuffers memory operation ↔
      (∃ slice, operation.buffer = .pinned slice) ∨ operation.buffer.addresses memory = [] := by
  rw [carriesBuffers_iff_describes hvalid, Request.describes_iff]
  by_cases hpinned : ∃ slice, operation.buffer = .pinned slice
  · obtain ⟨slice, hslice⟩ := hpinned
    refine ⟨fun _ => Or.inl ⟨slice, hslice⟩, fun _ => ?_⟩
    rw [Request.addresses, slices_legacyRequest_of_pinned _ hvalid hslice, BufferType.addresses,
      hslice]
    rfl
  · have hnull := legacyRequest_null self.operations.nextId fun slice h => hpinned ⟨slice, h⟩
    -- A null pointer stands for no byte.
    have hnone : (legacyRequest { operation with state := ⟨self.operations.nextId⟩ }).addresses
        memory = [] := by
      rw [Request.addresses, Request.slices, hnull.1]
      rfl
    rw [hnone, eq_comm]
    exact ⟨Or.inr, fun h => h.resolve_left hpinned⟩

/-- A memory with the registered buffers at one address, and no array of iovecs. -/
def plainMemory : Memory := ⟨fun _ => 4096, fun _ _ => []⟩

/-- A read of descriptor `3` into a buffer. -/
def readOf (buffer : BufferType) : Operation Building := ⟨buffer, .raw 3, 0, .read, ⟨⟩⟩

/-- A read into eight pinned bytes carries them. -/
theorem carriesBuffers_pinnedRead :
    Ring.new.CarriesBuffers plainMemory (readOf (.pinned ⟨8192, 8⟩)) :=
  (carriesBuffers_iff .new plainMemory rfl).mpr (.inl ⟨⟨8192, 8⟩, rfl⟩)

/-- **A read into eight registered bytes does not**: the backend gets a null pointer with
length `0`. -/
theorem not_carriesBuffers_registeredRead :
    ¬∀ (self : Ring) (memory : Memory) (operation : Operation Building),
      operation.opType.requiresBuffer = true → operation.validate = .ok () →
        self.CarriesBuffers memory operation := by
  intro h
  have hread := h .new plainMemory (readOf (.registered 0 8)) rfl rfl _ rfl
  exact hread.notNull (by decide) ⟨rfl, rfl⟩

end Ring

end SaferRing
