import SaferRing.SafeOperations

/-!
# The adapters to `AsyncRead` and `AsyncWrite`

An adapter has one buffer of its own, and at most one owned operation at a time: a
`SaferRing.AsyncReadAdapter` copies what is read out of the buffer
(`SaferRing.AsyncReadAdapter.pollRead`), a `SaferRing.AsyncWriteAdapter` copies what is to be
written into it (`SaferRing.AsyncWriteAdapter.pollWrite`). `SaferRing.File` and
`SaferRing.Socket` are one of each.

The ring is shared. A `SaferRing.Round` says how an adapter finds it each time it goes through
the body of a call: what the kernel and the other users made of it, and what the backend
answers. A call that is left without rounds does not return.

That a future gives back the buffer it was given is `SaferRing.SafeOperationFuture.poll_holds`.
-/

namespace SaferRing

/-! ### Errors -/

/-- What an error prints, part by part. -/
def SaferRingError.display : SaferRingError → List ErrorText
  | .bufferInFlight => [.text "Buffer still in flight"]
  | .operationPending => [.text "Operation not completed"]
  | .operationsInFlight count => [.text s!"Ring has {count} operations in flight"]
  | .invalidStateTransition => [.text "Invalid operation state transition"]
  | .notRegistered => [.text "Resource not registered"]
  | .poolEmpty => [.text "Buffer pool is empty"]
  | .poolPoisoned => [.text "Buffer pool mutex is poisoned"]
  | .io e => [.text "I/O error: ", e.toText]

/-- **An error of an adapter**, `io::Error::other`, by the parts of its text. -/
structure AdapterError where
  /-- The text. -/
  message : List ErrorText
  deriving DecidableEq, Repr

/-- An error of the ring, as an adapter passes it on. -/
def AdapterError.ofRing (e : SaferRingError) : AdapterError := ⟨e.display⟩

/-- An error with a text of the crate. -/
def AdapterError.other (message : String) : AdapterError := ⟨[.text message]⟩

/-! ### The ring and the buffer -/

/-- **How an adapter finds its ring** when it goes through its body. -/
structure Round where
  /-- The ring its future is polled on. -/
  polled : Ring
  /-- The task that polls. -/
  waker : Waker
  /-- Whether the backend fails. -/
  fail : Option SaferRingError
  /-- What the kernel put into the buffer of a read. -/
  data : List UInt8
  /-- The ring it submits an operation to. -/
  submitted : Ring
  /-- The backend's answer to that. -/
  answer : Except SaferRingError Unit

/-- The size of the buffer of an adapter. -/
def adapterBufferSize : ℕ := 8192

/-- Put bytes over the first ones of a buffer, as far as it goes. -/
def BoxedSlice.fill (self : BoxedSlice) (data : List UInt8) : BoxedSlice :=
  { self with bytes := (data ++ self.bytes.drop data.length).take self.bytes.length }

namespace OwnedBuffer

variable (self : OwnedBuffer) (heap : Heap)

/-- What the kernel reads goes into the buffer, whoever owns it. -/
def fill (data : List UInt8) : Heap :=
  heap.set self.inner <| match heap.cell self.inner with
    | .user buf => .user (buf.fill data)
    | .kernel buf id => .kernel (buf.fill data) id
    | .returning => .returning

/-- The bytes in the buffer. -/
def bytes : List UInt8 :=
  match heap.cell self.inner with
  | .user buf => buf.bytes
  | .kernel buf _ => buf.bytes
  | .returning => []

end OwnedBuffer

/-! ### Reading -/

/-- **The adapter to `AsyncRead`.** -/
structure AsyncReadAdapter where
  /-- The descriptor. -/
  fd : ℤ
  /-- The buffer, while no read is in flight. -/
  internalBuffer : Option OwnedBuffer
  /-- What was read and not delivered. -/
  cachedData : List UInt8
  /-- How much of that was delivered since. -/
  cachedPos : ℕ
  /-- The read in flight. -/
  readFuture : Option SafeOperationFuture
  /-- History: the request of the read in flight. -/
  request : Option Request

/-- History: a read that completed. -/
structure CompletedRead where
  /-- Its request. -/
  request : Option Request
  /-- The bytes read. -/
  bytes : List UInt8
  deriving DecidableEq

/-- What a call of `poll_read` that returns comes to. -/
structure PolledRead (A : Type) where
  /-- The answer. -/
  answer : Poll (Except AdapterError Unit)
  /-- What was put into the caller's buffer. -/
  put : List UInt8
  /-- History: the read that completed. -/
  read : Option CompletedRead
  /-- The reader. -/
  reader : A
  /-- The cells of the buffers. -/
  heap : Heap

/-- The same for a reader that holds another. -/
def PolledRead.map {A B : Type} (f : A → B) (p : PolledRead A) : PolledRead B :=
  ⟨p.answer, p.put, p.read, f p.reader, p.heap⟩

/-- **The trait `AsyncRead`.** -/
class AsyncRead (A : Type) where
  /-- `poll_read`, with room for `remaining` bytes. -/
  pollRead : List Round → A → Heap → ℕ → Option (PolledRead A)

namespace AsyncReadAdapter

/-- A new adapter, with a buffer at an address the allocator chooses. -/
def new (heap : Heap) (addr : ℕ) (fd : ℤ) : AsyncReadAdapter × Heap :=
  let (buffer, heap) := OwnedBuffer.new heap addr adapterBufferSize
  (⟨fd, some buffer, [], 0, none, none⟩, heap)

variable (self : AsyncReadAdapter)

/-- What was read and not delivered. -/
abbrev unread : List UInt8 := self.cachedData.drop self.cachedPos

/-- Deliver `toCopy` bytes of what was read before. -/
def serve (toCopy : ℕ) : AsyncReadAdapter :=
  let cachedPos := self.cachedPos + toCopy
  if cachedPos ≥ self.cachedData.length then { self with cachedData := [], cachedPos := 0 }
  else { self with cachedPos }

/-- Submit a read. -/
def start (heap : Heap) (round : Round) (buffer : OwnedBuffer) : AsyncReadAdapter :=
  { self with
    internalBuffer := none
    readFuture := some (round.submitted.readOwned heap self.fd buffer round.answer).1
    request := some <|
      (OwnedCall.readOwned self.fd).request heap buffer round.submitted.nextSubmissionId }

/-- **Take what a read brought**: what the caller has no room for is put behind what was read
before, which is from then on unread from its start. `none` is the panic on a count beyond
the buffer. -/
def receive (heap : Heap) (remaining bytesRead : ℕ) (buffer : OwnedBuffer) :
    Option (PolledRead AsyncReadAdapter) :=
  let self := { self with readFuture := none, internalBuffer := some buffer }
  let read : CompletedRead := ⟨self.request, (buffer.bytes heap).take bytesRead⟩
  if bytesRead > 0 then
    match buffer.tryAccess heap with
    | (some guard, heap) =>
      if bytesRead > guard.buffer.bytes.length then none
      else
        let data := guard.buffer.bytes.take bytesRead
        let toCopy := min data.length remaining
        let self :=
          if toCopy < data.length then
            { self with cachedData := self.cachedData ++ data.drop toCopy, cachedPos := 0 }
          else self
        some ⟨.ready (.ok ()), data.take toCopy, some read, self, guard.drop heap⟩
    -- a buffer that is out of reach is taken for an empty one
    | (none, heap) => some ⟨.ready (.ok ()), [], some read, self, heap⟩
  else some ⟨.ready (.ok ()), [], some read, self, heap⟩

/-- **`poll_read`**, with room for `remaining` bytes. A read that is started is polled at
once. -/
def pollRead :
    List Round → AsyncReadAdapter → Heap → ℕ → Option (PolledRead AsyncReadAdapter)
  | [], _, _, _ => none
  | round :: rounds, self, heap, remaining =>
    let toCopy := min (self.cachedData.length - self.cachedPos) remaining
    if self.cachedPos < self.cachedData.length ∧ toCopy > 0 then
      some ⟨.ready (.ok ()), self.unread.take toCopy, none, self.serve toCopy, heap⟩
    else
      match self.readFuture with
      | some future =>
        match future.poll round.polled round.waker round.fail with
        | (.ready (.ok (bytesRead, buffer)), _, _) =>
          self.receive (buffer.fill heap round.data) remaining bytesRead buffer
        | (.ready (.error e), _, _) =>
          some ⟨.ready (.error (.ofRing e)), [], none, { self with readFuture := none }, heap⟩
        | (.pending, future, _) =>
          some ⟨.pending, [], none, { self with readFuture := some future }, heap⟩
      | none =>
        match self.internalBuffer with
        | some buffer => pollRead rounds (self.start heap round buffer) heap remaining
        | none =>
          some ⟨.ready (.error (.other "AsyncReadAdapter internal buffer unavailable")), [], none,
            self, heap⟩

instance : AsyncRead AsyncReadAdapter := ⟨pollRead⟩

end AsyncReadAdapter

/-! ### Writing -/

/-- **The adapter to `AsyncWrite`.** -/
structure AsyncWriteAdapter where
  /-- The descriptor. -/
  fd : ℤ
  /-- The buffer, while no write is in flight. -/
  internalBuffer : Option OwnedBuffer
  /-- The write in flight. -/
  writeFuture : Option SafeOperationFuture
  /-- History: the request of the write in flight. -/
  request : Option Request
  /-- History: the bytes that were copied into the buffer for it. -/
  slice : List UInt8

/-- History: a write that completed. -/
structure CompletedWrite where
  /-- Its request. -/
  request : Option Request
  /-- The bytes that were copied into the buffer for it. -/
  slice : List UInt8
  /-- The bytes the kernel took. -/
  bytes : List UInt8
  deriving DecidableEq

/-- What a call of `poll_write` or `poll_flush` that returns comes to. -/
structure PolledWrite (A α : Type) where
  /-- The answer. -/
  answer : Poll (Except AdapterError α)
  /-- History: the writes that completed. -/
  writes : List CompletedWrite
  /-- The writer. -/
  writer : A
  /-- The cells of the buffers. -/
  heap : Heap

/-- The same for a writer that holds another. -/
def PolledWrite.map {A B α : Type} (f : A → B) (p : PolledWrite A α) : PolledWrite B α :=
  ⟨p.answer, p.writes, f p.writer, p.heap⟩

/-- **The trait `AsyncWrite`.** -/
class AsyncWrite (A : Type) where
  /-- `poll_write`. -/
  pollWrite : List Round → A → Heap → List UInt8 → Option (PolledWrite A ℕ)
  /-- `poll_flush`. -/
  pollFlush : A → Heap → Round → PolledWrite A Unit
  /-- `poll_shutdown`. -/
  pollShutdown : A → Heap → Round → PolledWrite A Unit

/-- Copy bytes over the first ones a guard holds. -/
def BufferAccessGuard.copyFromSlice (self : BufferAccessGuard) (data : List UInt8) :
    BufferAccessGuard :=
  { self with buffer := self.buffer.fill data }

namespace AsyncWriteAdapter

/-- A new adapter, with a buffer at an address the allocator chooses. -/
def new (heap : Heap) (addr : ℕ) (fd : ℤ) : AsyncWriteAdapter × Heap :=
  let (buffer, heap) := OwnedBuffer.new heap addr adapterBufferSize
  (⟨fd, some buffer, none, none, []⟩, heap)

variable (self : AsyncWriteAdapter) (heap : Heap)

/-- Poll the write in flight, if there is one. Its count is not looked at. -/
def pollInFlight (round : Round) : PolledWrite AsyncWriteAdapter Unit :=
  match self.writeFuture with
  | none => ⟨.ready (.ok ()), [], self, heap⟩
  | some future =>
    match future.poll round.polled round.waker round.fail with
    | (.ready (.ok (bytesWritten, buffer)), _, _) =>
      ⟨.ready (.ok ()), [⟨self.request, self.slice, (buffer.bytes heap).take bytesWritten⟩],
        { self with writeFuture := none, internalBuffer := some buffer }, heap⟩
    | (.ready (.error e), _, _) =>
      ⟨.ready (.error (.ofRing e)), [], { self with writeFuture := none }, heap⟩
    | (.pending, future, _) =>
      ⟨.pending, [], { self with writeFuture := some future }, heap⟩

/-- Submit a write of the whole buffer. -/
def start (round : Round) (buffer : OwnedBuffer) (slice : List UInt8) : AsyncWriteAdapter :=
  { self with
    internalBuffer := none
    writeFuture := some (round.submitted.writeOwned heap self.fd buffer round.answer).1
    request := some <|
      (OwnedCall.writeOwned self.fd).request heap buffer round.submitted.nextSubmissionId
    slice }

/-- **`poll_write`.** It waits for the write in flight, copies what the buffer has room for and
submits the buffer; and then it polls the write by calling itself, with nothing to write. -/
def pollWrite : List Round → AsyncWriteAdapter → Heap → List UInt8 →
    Option (PolledWrite AsyncWriteAdapter ℕ)
  | [], _, _, _ => none
  | round :: rounds, self, heap, buf =>
    match self.pollInFlight heap round with
    | ⟨.pending, writes, self, heap⟩ => some ⟨.pending, writes, self, heap⟩
    | ⟨.ready (.error e), writes, self, heap⟩ => some ⟨.ready (.error e), writes, self, heap⟩
    | ⟨.ready (.ok ()), writes, self, heap⟩ =>
      match self.internalBuffer with
      | none =>
        some ⟨.ready (.error (.other "AsyncWriteAdapter internal buffer unavailable")), writes,
          self, heap⟩
      | some buffer =>
        match buffer.tryAccess heap with
        | (none, heap) => some ⟨.pending, writes, self, heap⟩
        | (some guard, heap) =>
          let toCopy := min buf.length guard.buffer.bytes.length
          let guard := guard.copyFromSlice (buf.take toCopy)
          let heap := guard.drop heap
          match pollWrite rounds (self.start heap round buffer (buf.take toCopy)) heap [] with
          | none => none
          | some ⟨.ready (.ok _), more, self, heap⟩ =>
            some ⟨.ready (.ok toCopy), writes ++ more, self, heap⟩
          | some ⟨.ready (.error e), more, self, heap⟩ =>
            some ⟨.ready (.error e), writes ++ more, self, heap⟩
          -- the bytes are accepted
          | some ⟨.pending, more, self, heap⟩ =>
            some ⟨.ready (.ok toCopy), writes ++ more, self, heap⟩

/-- **`poll_flush`.** -/
def pollFlush (round : Round) : PolledWrite AsyncWriteAdapter Unit := self.pollInFlight heap round

/-- **`poll_shutdown`**, which flushes. -/
def pollShutdown (round : Round) : PolledWrite AsyncWriteAdapter Unit := self.pollFlush heap round

instance : AsyncWrite AsyncWriteAdapter := ⟨pollWrite, pollFlush, pollShutdown⟩

end AsyncWriteAdapter

/-! ### Files and sockets -/

/-- **A file**, with an adapter for each direction. -/
structure File where
  /-- The descriptor. -/
  fd : ℤ
  /-- The adapter to read with. -/
  readAdapter : Option AsyncReadAdapter
  /-- The adapter to write with. -/
  writeAdapter : Option AsyncWriteAdapter

namespace File

/-- A file, with two buffers at addresses the allocator chooses. -/
def new (heap : Heap) (readAddr writeAddr : ℕ) (fd : ℤ) : File × Heap :=
  let (readAdapter, heap) := AsyncReadAdapter.new heap readAddr fd
  let (writeAdapter, heap) := AsyncWriteAdapter.new heap writeAddr fd
  (⟨fd, some readAdapter, some writeAdapter⟩, heap)

instance : AsyncRead File where
  pollRead rounds self heap remaining :=
    match self.readAdapter with
    | some adapter =>
      (adapter.pollRead rounds heap remaining).map <|
        .map fun adapter => { self with readAdapter := some adapter }
    | none => some ⟨.ready (.error (.other "Read adapter not available")), [], none, self, heap⟩

instance : AsyncWrite File where
  pollWrite rounds self heap buf :=
    match self.writeAdapter with
    | some adapter =>
      (adapter.pollWrite rounds heap buf).map <|
        .map fun adapter => { self with writeAdapter := some adapter }
    | none => some ⟨.ready (.error (.other "Write adapter not available")), [], self, heap⟩
  pollFlush self heap round :=
    match self.writeAdapter with
    | some adapter =>
      (adapter.pollFlush heap round).map fun adapter => { self with writeAdapter := some adapter }
    | none => ⟨.ready (.ok ()), [], self, heap⟩
  pollShutdown self heap round :=
    match self.writeAdapter with
    | some adapter =>
      (adapter.pollShutdown heap round).map fun adapter =>
        { self with writeAdapter := some adapter }
    | none => ⟨.ready (.ok ()), [], self, heap⟩

end File

/-- **A socket**, with an adapter for each direction. -/
structure Socket where
  /-- The descriptor. -/
  fd : ℤ
  /-- The adapter to read with. -/
  readAdapter : AsyncReadAdapter
  /-- The adapter to write with. -/
  writeAdapter : AsyncWriteAdapter

namespace Socket

/-- A socket, with two buffers at addresses the allocator chooses. -/
def new (heap : Heap) (readAddr writeAddr : ℕ) (fd : ℤ) : Socket × Heap :=
  let (readAdapter, heap) := AsyncReadAdapter.new heap readAddr fd
  let (writeAdapter, heap) := AsyncWriteAdapter.new heap writeAddr fd
  (⟨fd, readAdapter, writeAdapter⟩, heap)

instance : AsyncRead Socket where
  pollRead rounds self heap remaining :=
    (self.readAdapter.pollRead rounds heap remaining).map <|
      .map fun readAdapter => { self with readAdapter }

instance : AsyncWrite Socket where
  pollWrite rounds self heap buf :=
    (self.writeAdapter.pollWrite rounds heap buf).map <|
      .map fun writeAdapter => { self with writeAdapter }
  pollFlush self heap round :=
    (self.writeAdapter.pollFlush heap round).map fun writeAdapter => { self with writeAdapter }
  pollShutdown self heap round :=
    (self.writeAdapter.pollShutdown heap round).map fun writeAdapter => { self with writeAdapter }

end Socket

/-! ### What a future gives back -/

/-- A future holds a buffer. -/
def SafeOperationFuture.Holds (self : SafeOperationFuture) (buffer : OwnedBuffer) : Prop :=
  ∃ operation, self.operation = some operation ∧ operation.buffer = some buffer

/-- **A future gives back the buffer it holds**, or an error, or goes on holding it. -/
theorem SafeOperationFuture.poll_holds {self : SafeOperationFuture} {buffer : OwnedBuffer}
    (h : self.Holds buffer) (ring : Ring) (waker : Waker) (fail : Option SaferRingError) :
    (∃ ring', self.poll ring waker fail = (.pending, self, ring')) ∨
    (∃ n done ring', self.poll ring waker fail = (.ready (.ok (n, buffer)), done, ring')) ∨
    (∃ e done ring', self.poll ring waker fail = (.ready (.error e), done, ring')) := by
  obtain ⟨operation⟩ := self
  obtain ⟨op, rfl, hb⟩ := h
  simp only [poll, pollOperation]
  split
  · exact Or.inr (Or.inr ⟨_, _, _, rfl⟩)
  · rcases ring.tryCompleteSafeOperation op.submissionId fail with ⟨_ | _ | result, ring'⟩
    · exact Or.inr (Or.inr ⟨_, _, _, rfl⟩)
    · exact Or.inl ⟨_, rfl⟩
    · rcases result with e | bytes
      · simp only [hb, settle]
        exact Or.inr (Or.inr ⟨_, _, _, rfl⟩)
      · simp only [hb, settle]
        exact Or.inr (Or.inl ⟨_, _, _, rfl⟩)

/-- A submission puts the buffer in the future. -/
theorem OwnedCall.holds_submit (call : OwnedCall) (ring : Ring) (heap : Heap)
    (buffer : OwnedBuffer) (answer : Except SaferRingError Unit) :
    (call.submit ring heap buffer answer).1.Holds buffer := by
  rcases call.submit_cases ring heap buffer answer with ⟨-, -, hsub⟩ | ⟨-, hsub⟩
  · rw [hsub]
    exact ⟨_, rfl, rfl⟩
  · rw [hsub]
    exact ⟨_, rfl, rfl⟩

/-! ### The buffer of an adapter -/

/-- **A buffer of an adapter**: userspace owns it, and it has its size. -/
def OwnedBuffer.Kept (self : OwnedBuffer) (heap : Heap) : Prop :=
  ∃ buf : BoxedSlice, heap.cell self.inner = .user buf ∧ buf.bytes.length = adapterBufferSize

namespace OwnedBuffer

variable {self : OwnedBuffer} {heap : Heap} {buf : BoxedSlice}

@[simp] theorem length_fill (data : List UInt8) :
    (buf.fill data).bytes.length = buf.bytes.length := by
  simp only [BoxedSlice.fill, List.length_take, List.length_append, List.length_drop]
  omega

/-- Bytes that fit are in front. -/
theorem prefix_fill {data : List UInt8} (h : data.length ≤ buf.bytes.length) :
    data <+: (buf.fill data).bytes := by
  rw [BoxedSlice.fill, List.prefix_take_iff]
  exact ⟨List.prefix_append _ _, h⟩

/-- A new buffer. -/
theorem kept_new (heap : Heap) (addr : ℕ) :
    (OwnedBuffer.new heap addr adapterBufferSize).1.Kept
      (OwnedBuffer.new heap addr adapterBufferSize).2 :=
  ⟨⟨addr, List.replicate adapterBufferSize 0⟩, Heap.cell_alloc_self .., List.length_replicate⟩

/-- Reading into it leaves a buffer kept. -/
theorem Kept.fill (h : self.Kept heap) (data : List UInt8) :
    self.Kept (self.fill heap data) := by
  obtain ⟨buf, hcell, hlen⟩ := h
  refine ⟨buf.fill data, ?_, by rw [length_fill, hlen]⟩
  rw [OwnedBuffer.fill, hcell, Heap.cell_set_self]

/-- **A buffer that is kept can be accessed**, and the bytes go back as the guard has them. -/
theorem tryAccess_of_user (h : heap.cell self.inner = .user buf) :
    self.tryAccess heap = (some ⟨buf, self.inner⟩, heap.set self.inner .returning) := by
  rw [tryAccess, h, BufferOwnership.tryAccess]

/-- What a request for the buffer says of it. -/
theorem asPtrAndLen_of_user (h : heap.cell self.inner = .user buf) :
    self.asPtrAndLen heap = (some buf.addr, buf.bytes.length) := by
  rw [asPtrAndLen, h, BufferOwnership.asPtrAndLen]

theorem bytes_of_user (h : heap.cell self.inner = .user buf) : self.bytes heap = buf.bytes := by
  rw [bytes, h]

end OwnedBuffer

end SaferRing
