import SaferRing.SafeOperations

/-!
# The futures of single operations

A read, a write or any other single operation of the legacy interface is built field by field,
checked by the call it is handed to, and submitted; what the caller gets is a future of the type
of the operation, that has the ring to itself from then on. `SaferRing.IoFuture` stands for the
seven types of such futures: they are polled alike, and differ in what a completion makes of them
(`SaferRing.IoFutureType.settle`).

`SaferRing.IoCall` lists the calls that make them. Whatever it checks itself, a call submits the
operation it builds (`SaferRing.IoCall.start_eq`), and its future gives back what the call was
given (`SaferRing.IoCall.settle_submitted`).
-/

namespace SaferRing

/-! ### Building an operation -/

namespace Operation

/-- `Operation::with_type`: nothing is set, and the descriptor is invalid. -/
def withType (opType : OperationType) : Operation Building := ⟨.none, .raw (-1), 0, opType, ⟨⟩⟩

variable (self : Operation Building)

/-- Set a plain descriptor. -/
def setFd (fd : ℤ) : Operation Building := { self with fd := .raw fd }

/-- `Operation::registered_fd`. -/
def registeredFd (index : ℕ) (fd : ℤ) : Operation Building :=
  { self with fd := .registered index fd }

/-- `Operation::fixed_file`. -/
def fixedFile (index : ℕ) (fd : ℤ) : Operation Building := { self with fd := .fixed index fd }

/-- Set a pinned slice. -/
def setBuffer (buffer : Slice) : Operation Building := { self with buffer := .pinned buffer }

/-- `Operation::buffers`. -/
def buffers (buffers : List Slice) : Operation Building :=
  { self with buffer := .vectored buffers }

/-- Set the offset. -/
def setOffset (offset : ℕ) : Operation Building := { self with offset := offset }

end Operation

/-! ### Completed operations -/

/-- The state of a completed operation. -/
structure Completed (T : Type) where
  /-- Its result. -/
  result : T

namespace Operation

variable {T : Type}

/-- `complete_with_result`. -/
def completeWithResult (self : Operation Submitted) (result : T) : Operation (Completed T) :=
  { self with state := ⟨result⟩ }

/-- The result, and the buffer in whatever form it has. -/
def intoResult (self : Operation (Completed T)) : T × BufferType :=
  (self.state.result, self.buffer)

/-- The result, and the buffer where it is a pinned slice. -/
def intoResultWithBuffer (self : Operation (Completed T)) : T × Option Slice :=
  let (result, buffer) := self.intoResult
  (result, match buffer with
    | .pinned buf => some buf
    | _ => none)

/-- The result, and the buffers where there are several. -/
def intoResultWithVectoredBuffers (self : Operation (Completed T)) : T × Option (List Slice) :=
  let (result, buffer) := self.intoResult
  (result, match buffer with
    | .vectored bufs => some bufs
    | _ => none)

end Operation

/-! ### The futures -/

/-- **What a future resolves to.** -/
inductive IoOutput
  /-- Bytes were transferred, and the buffer is given back. -/
  | transferred (bytes : ℕ) (buffer : Slice)
  /-- Bytes were transferred, and the buffers are given back. -/
  | scattered (bytes : ℕ) (buffers : List Slice)
  /-- A connection was accepted. -/
  | accepted (fd : ℤ)
  deriving DecidableEq

/-- The error a future resolves to. -/
inductive FutureError
  /-- Of the operation, or of its completion. -/
  | io (e : IoError)
  /-- Of looking for the completion: “Error checking … completion”, and what it prints. -/
  | checking (what : String) (e : SaferRingError)
  deriving DecidableEq

/-- The types of future. -/
inductive IoFutureType
  /-- `ReadFuture`. -/
  | read
  /-- `WriteFuture`. -/
  | write
  /-- `SendFuture`. -/
  | send
  /-- `RecvFuture`. -/
  | recv
  /-- `VectoredReadFuture`. -/
  | vectoredRead
  /-- `VectoredWriteFuture`. -/
  | vectoredWrite
  /-- `AcceptFuture`. -/
  | accept
  deriving DecidableEq

namespace IoFutureType

/-- The name of a type in its messages. -/
def futureName : IoFutureType → String
  | .read => "ReadFuture"
  | .write => "WriteFuture"
  | .send => "SendFuture"
  | .recv => "RecvFuture"
  | .vectoredRead => "VectoredReadFuture"
  | .vectoredWrite => "VectoredWriteFuture"
  | .accept => "AcceptFuture"

/-- What is said to be checked when that fails. -/
def checked : IoFutureType → String
  | .read | .write | .send | .recv => "operation"
  | .vectoredRead => "VectoredReadFuture"
  | .vectoredWrite => "VectoredWriteFuture"
  | .accept => "accept"

/-- What a byte count and a buffer make of a future: neither may be missing. -/
def settleBytes {α : Type} (bytes : ℤ) (buffer : Option α) (output : ℕ → α → IoOutput)
    (missing : String) : Except FutureError IoOutput :=
  if bytes < 0 then .error (.io (.other "Unexpected negative byte count"))
  else
    match buffer with
    | some buf => .ok (output bytes.toNat buf)
    | none => .error (.io (.other missing))

/-- `poll_io_operation`, once there is a result. -/
def settleIo (futureName : String) (operation : Operation Submitted) (result : IoResult) :
    Except FutureError IoOutput :=
  let (ioResult, buffer) := (operation.completeWithResult result).intoResultWithBuffer
  match ioResult with
  | .ok bytes =>
    settleBytes bytes buffer IoOutput.transferred (futureName ++ " completed without buffer")
  | .error e => .error (.io e)

/-- `poll_vectored_operation`, once there is a result. -/
def settleVectored (futureName : String) (operation : Operation Submitted) (result : IoResult) :
    Except FutureError IoOutput :=
  let (ioResult, buffers) := (operation.completeWithResult result).intoResultWithVectoredBuffers
  match ioResult with
  | .ok bytes =>
    settleBytes bytes buffers IoOutput.scattered (futureName ++ " completed without buffers")
  | .error e => .error (.io e)

/-- `AcceptFuture::poll`, once there is a result. -/
def settleAccept (result : IoResult) : Except FutureError IoOutput :=
  match result with
  | .ok fd =>
    if 0 ≤ fd then .ok (.accepted fd)
    else .error (.io (.other "Accept returned invalid file descriptor"))
  | .error e => .error (.io e)

/-- **What a completion makes of a future.** -/
def settle (self : IoFutureType) (operation : Operation Submitted) (result : IoResult) :
    Except FutureError IoOutput :=
  match self with
  | .accept => settleAccept result
  | .vectoredRead | .vectoredWrite => settleVectored self.futureName operation result
  | .read | .write | .send | .recv => settleIo self.futureName operation result

end IoFutureType

/-- **A future of a single operation.** -/
structure IoFuture where
  /-- Its type. -/
  type : IoFutureType
  /-- The operation, until the future is done. -/
  operation : Option (Operation Submitted)
  deriving DecidableEq

namespace IoFuture

/-- The future of an operation just submitted. -/
def new (type : IoFutureType) (operation : Operation Submitted) : IoFuture :=
  ⟨type, some operation⟩

variable (self : IoFuture)

/-- **Poll a future**, which panics once it is done. When looking for the completion fails, the
operation stays in it. -/
def poll (ring : Ring) (count : ℕ) (waker : Waker) (fail : Option SaferRingError) :
    Outcome (Poll (Except FutureError IoOutput) × IoFuture × Ring) :=
  match self.operation with
  | none => .panicked
  | some operation =>
    (ring.tryCompleteById operation.state.id count fail).map fun (answer, ring) =>
      match answer with
      | .ok (some result) =>
        (.ready (self.type.settle operation result), { self with operation := none },
          ring.removeWaker operation.state.id)
      | .ok none => (.pending, self, ring.registerWaker operation.state.id waker)
      | .error e =>
        (.ready (.error (.checking self.type.checked e)), self,
          ring.removeWaker operation.state.id)

/-- Dropping a future takes its waker back, as long as it is not done. -/
def drop (ring : Ring) : Ring :=
  match self.operation with
  | some operation => ring.removeWaker operation.state.id
  | none => ring

end IoFuture

/-! ### The calls that make futures -/

/-- What such a call answers, and what it leaves. -/
abbrev IoStart := Except SaferRingError IoFuture × Ring

namespace Ring.Futures

variable (self : Ring)

/-- Submit an operation, for a future of a type. -/
def submitFor (type : IoFutureType) (operation : Operation Building)
    (answer : Except SaferRingError Unit) : IoStart :=
  match self.submit operation answer with
  | (.error e, ring) => (.error e, ring)
  | (.ok submitted, ring) => (.ok (.new type submitted), ring)

/-- Submit an operation that must be of one type. -/
def submitTyped (opType : OperationType) (msg : String) (type : IoFutureType)
    (operation : Operation Building) (answer : Except SaferRingError Unit) : IoStart :=
  if operation.opType ≠ opType then (.error (.ioNew .invalidInput msg), self)
  else submitFor self type operation answer

/-- Submit an operation on several buffers, of which there must be one. -/
def submitVectored (msg : String) (type : IoFutureType) (buffers : List Slice)
    (operation : Operation Building) (answer : Except SaferRingError Unit) : IoStart :=
  if buffers.isEmpty then (.error (.ioNew .invalidInput msg), self)
  else submitFor self type operation answer

section Reads

variable (fd : ℤ) (index : ℕ) (buffer : Slice) (bufs : List Slice) (offset : ℕ)
  (operation : Operation Building) (answer : Except SaferRingError Unit)

/-- `submit_read`. -/
def submitRead : IoStart :=
  submitTyped self .read "Operation must be a read operation" .read operation answer

/-- `read_at`. -/
def readAt : IoStart :=
  submitRead self (((Operation.withType .read).setFd fd).setBuffer buffer |>.setOffset offset)
    answer

/-- `read`. -/
def read : IoStart := readAt self fd buffer 0 answer

/-- `read_registered`. -/
def readRegistered : IoStart :=
  submitRead self (((Operation.withType .read).registeredFd index fd).setBuffer buffer) answer

/-- `read_fixed`. -/
def readFixed : IoStart :=
  submitFor self .read (((Operation.withType .read).fixedFile index fd).setBuffer buffer) answer

/-- `read_vectored`. -/
def readVectored : IoStart :=
  submitVectored self "Vectored read requires at least one buffer" .vectoredRead bufs
    (((Operation.withType .readVectored).setFd fd).buffers bufs) answer

/-- `read_vectored_at`. -/
def readVectoredAt : IoStart :=
  submitVectored self "Vectored read requires at least one buffer" .vectoredRead bufs
    ((((Operation.withType .readVectored).setFd fd).buffers bufs).setOffset offset) answer

end Reads

section Writes

variable (fd : ℤ) (index : ℕ) (buffer : Slice) (bufs : List Slice) (offset : ℕ)
  (operation : Operation Building) (answer : Except SaferRingError Unit)

/-- `submit_write`. -/
def submitWrite : IoStart :=
  submitTyped self .write "Operation must be a write operation" .write operation answer

/-- `write_at`. -/
def writeAt : IoStart :=
  submitWrite self (((Operation.withType .write).setFd fd).setBuffer buffer |>.setOffset offset)
    answer

/-- `write`. -/
def write : IoStart := writeAt self fd buffer 0 answer

/-- `write_registered`. -/
def writeRegistered : IoStart :=
  submitWrite self (((Operation.withType .write).registeredFd index fd).setBuffer buffer) answer

/-- `write_fixed`. -/
def writeFixed : IoStart :=
  submitFor self .write (((Operation.withType .write).fixedFile index fd).setBuffer buffer)
    answer

/-- `write_vectored`. -/
def writeVectored : IoStart :=
  submitVectored self "Vectored write requires at least one buffer" .vectoredWrite bufs
    (((Operation.withType .writeVectored).setFd fd).buffers bufs) answer

/-- `write_vectored_at`. -/
def writeVectoredAt : IoStart :=
  submitVectored self "Vectored write requires at least one buffer" .vectoredWrite bufs
    ((((Operation.withType .writeVectored).setFd fd).buffers bufs).setOffset offset) answer

end Writes

section Network

variable (fd : ℤ) (buffer : Slice) (operation : Operation Building)
  (answer : Except SaferRingError Unit)

/-- `submit_accept`. -/
def submitAccept : IoStart :=
  submitTyped self .accept "Operation must be an accept operation" .accept operation answer

/-- `submit_send`. -/
def submitSend : IoStart :=
  submitTyped self .send "Operation must be a send operation" .send operation answer

/-- `submit_recv`. -/
def submitRecv : IoStart :=
  submitTyped self .recv "Operation must be a receive operation" .recv operation answer

/-- `accept`. -/
def accept : IoStart := submitAccept self ((Operation.withType .accept).setFd fd) answer

/-- `send`. -/
def send : IoStart :=
  submitSend self (((Operation.withType .send).setFd fd).setBuffer buffer) answer

/-- `recv`. -/
def recv : IoStart :=
  submitRecv self (((Operation.withType .recv).setFd fd).setBuffer buffer) answer

end Network

end Ring.Futures

/-! ### The calls as a whole -/

/-- **A call that makes a future**, with its arguments. -/
inductive IoCall
  /-- `submit_read`. -/
  | submitRead (operation : Operation Building)
  /-- `submit_write`. -/
  | submitWrite (operation : Operation Building)
  /-- `submit_accept`. -/
  | submitAccept (operation : Operation Building)
  /-- `submit_send`. -/
  | submitSend (operation : Operation Building)
  /-- `submit_recv`. -/
  | submitRecv (operation : Operation Building)
  /-- `read`. -/
  | read (fd : ℤ) (buffer : Slice)
  /-- `read_at`. -/
  | readAt (fd : ℤ) (buffer : Slice) (offset : ℕ)
  /-- `read_registered`. -/
  | readRegistered (fd : ℤ) (index : ℕ) (buffer : Slice)
  /-- `read_fixed`. -/
  | readFixed (fd : ℤ) (index : ℕ) (buffer : Slice)
  /-- `read_vectored`. -/
  | readVectored (fd : ℤ) (buffers : List Slice)
  /-- `read_vectored_at`. -/
  | readVectoredAt (fd : ℤ) (buffers : List Slice) (offset : ℕ)
  /-- `write`. -/
  | write (fd : ℤ) (buffer : Slice)
  /-- `write_at`. -/
  | writeAt (fd : ℤ) (buffer : Slice) (offset : ℕ)
  /-- `write_registered`. -/
  | writeRegistered (fd : ℤ) (index : ℕ) (buffer : Slice)
  /-- `write_fixed`. -/
  | writeFixed (fd : ℤ) (index : ℕ) (buffer : Slice)
  /-- `write_vectored`. -/
  | writeVectored (fd : ℤ) (buffers : List Slice)
  /-- `write_vectored_at`. -/
  | writeVectoredAt (fd : ℤ) (buffers : List Slice) (offset : ℕ)
  /-- `accept`. -/
  | accept (fd : ℤ)
  /-- `send`. -/
  | send (fd : ℤ) (buffer : Slice)
  /-- `recv`. -/
  | recv (fd : ℤ) (buffer : Slice)
  deriving DecidableEq

namespace IoCall

/-- Make the call. -/
def start (ring : Ring) (answer : Except SaferRingError Unit) : IoCall → IoStart
  | submitRead operation => Ring.Futures.submitRead ring operation answer
  | submitWrite operation => Ring.Futures.submitWrite ring operation answer
  | submitAccept operation => Ring.Futures.submitAccept ring operation answer
  | submitSend operation => Ring.Futures.submitSend ring operation answer
  | submitRecv operation => Ring.Futures.submitRecv ring operation answer
  | read fd buffer => Ring.Futures.read ring fd buffer answer
  | readAt fd buffer offset => Ring.Futures.readAt ring fd buffer offset answer
  | readRegistered fd index buffer => Ring.Futures.readRegistered ring fd index buffer answer
  | readFixed fd index buffer => Ring.Futures.readFixed ring fd index buffer answer
  | readVectored fd buffers => Ring.Futures.readVectored ring fd buffers answer
  | readVectoredAt fd buffers offset => Ring.Futures.readVectoredAt ring fd buffers offset answer
  | write fd buffer => Ring.Futures.write ring fd buffer answer
  | writeAt fd buffer offset => Ring.Futures.writeAt ring fd buffer offset answer
  | writeRegistered fd index buffer => Ring.Futures.writeRegistered ring fd index buffer answer
  | writeFixed fd index buffer => Ring.Futures.writeFixed ring fd index buffer answer
  | writeVectored fd buffers => Ring.Futures.writeVectored ring fd buffers answer
  | writeVectoredAt fd buffers offset => Ring.Futures.writeVectoredAt ring fd buffers offset answer
  | accept fd => Ring.Futures.accept ring fd answer
  | send fd buffer => Ring.Futures.send ring fd buffer answer
  | recv fd buffer => Ring.Futures.recv ring fd buffer answer

/-- The operation the call is about. -/
def operation : IoCall → Operation Building
  | submitRead operation | submitWrite operation | submitAccept operation
  | submitSend operation | submitRecv operation => operation
  | read fd buffer => ⟨.pinned buffer, .raw fd, 0, .read, ⟨⟩⟩
  | readAt fd buffer offset => ⟨.pinned buffer, .raw fd, offset, .read, ⟨⟩⟩
  | readRegistered fd index buffer => ⟨.pinned buffer, .registered index fd, 0, .read, ⟨⟩⟩
  | readFixed fd index buffer => ⟨.pinned buffer, .fixed index fd, 0, .read, ⟨⟩⟩
  | readVectored fd buffers => ⟨.vectored buffers, .raw fd, 0, .readVectored, ⟨⟩⟩
  | readVectoredAt fd buffers offset => ⟨.vectored buffers, .raw fd, offset, .readVectored, ⟨⟩⟩
  | write fd buffer => ⟨.pinned buffer, .raw fd, 0, .write, ⟨⟩⟩
  | writeAt fd buffer offset => ⟨.pinned buffer, .raw fd, offset, .write, ⟨⟩⟩
  | writeRegistered fd index buffer => ⟨.pinned buffer, .registered index fd, 0, .write, ⟨⟩⟩
  | writeFixed fd index buffer => ⟨.pinned buffer, .fixed index fd, 0, .write, ⟨⟩⟩
  | writeVectored fd buffers => ⟨.vectored buffers, .raw fd, 0, .writeVectored, ⟨⟩⟩
  | writeVectoredAt fd buffers offset => ⟨.vectored buffers, .raw fd, offset, .writeVectored, ⟨⟩⟩
  | accept fd => ⟨.none, .raw fd, 0, .accept, ⟨⟩⟩
  | send fd buffer => ⟨.pinned buffer, .raw fd, 0, .send, ⟨⟩⟩
  | recv fd buffer => ⟨.pinned buffer, .raw fd, 0, .recv, ⟨⟩⟩

/-- The type of the future it makes. -/
def type : IoCall → IoFutureType
  | submitRead _ | read .. | readAt .. | readRegistered .. | readFixed .. => .read
  | submitWrite _ | write .. | writeAt .. | writeRegistered .. | writeFixed .. => .write
  | submitAccept _ | accept .. => .accept
  | submitSend _ | send .. => .send
  | submitRecv _ | recv .. => .recv
  | readVectored .. | readVectoredAt .. => .vectoredRead
  | writeVectored .. | writeVectoredAt .. => .vectoredWrite

/-- What the call refuses before it submits anything. -/
def refusal : IoCall → Option String
  | submitRead operation =>
    if operation.opType = .read then none else some "Operation must be a read operation"
  | submitWrite operation =>
    if operation.opType = .write then none else some "Operation must be a write operation"
  | submitAccept operation =>
    if operation.opType = .accept then none else some "Operation must be an accept operation"
  | submitSend operation =>
    if operation.opType = .send then none else some "Operation must be a send operation"
  | submitRecv operation =>
    if operation.opType = .recv then none else some "Operation must be a receive operation"
  | readVectored _ buffers | readVectoredAt _ buffers _ =>
    if buffers = [] then some "Vectored read requires at least one buffer" else none
  | writeVectored _ buffers | writeVectoredAt _ buffers _ =>
    if buffers = [] then some "Vectored write requires at least one buffer" else none
  | _ => none

open Ring.Futures in
/-- **A call refuses, or submits its operation.** -/
theorem start_eq (call : IoCall) (ring : Ring) (answer : Except SaferRingError Unit) :
    call.start ring answer =
      match call.refusal with
      | some msg => (.error (.ioNew .invalidInput msg), ring)
      | none => submitFor ring call.type call.operation answer := by
  have htyped : ∀ opType msg type (operation : Operation Building),
      submitTyped ring opType msg type operation answer =
        match if operation.opType = opType then none else some msg with
        | some msg => (.error (.ioNew .invalidInput msg), ring)
        | none => submitFor ring type operation answer := by
    intro opType msg type operation
    rw [submitTyped]
    by_cases h : operation.opType = opType
    · rw [if_neg (not_not.mpr h), if_pos h]
    · rw [if_pos h, if_neg h]
  have hvectored : ∀ msg type (buffers : List Slice) (operation : Operation Building),
      submitVectored ring msg type buffers operation answer =
        match if buffers = [] then some msg else none with
        | some msg => (.error (.ioNew .invalidInput msg), ring)
        | none => submitFor ring type operation answer := by
    intro msg type buffers operation
    rw [submitVectored]
    cases buffers <;> rfl
  cases call with
  | submitRead | submitWrite | submitAccept | submitSend | submitRecv => exact htyped ..
  | readVectored | readVectoredAt | writeVectored | writeVectoredAt => exact hvectored ..
  | _ => rfl

/-- What a call leaves alone, whatever comes of it. -/
theorem start_frame (call : IoCall) (ring : Ring) (answer : Except SaferRingError Unit) :
    (call.start ring answer).2.wakerRegistry = ring.wakerRegistry ∧
      (call.start ring answer).2.completionCache = ring.completionCache ∧
      (call.start ring answer).2.backend.delivered = ring.backend.delivered := by
  rw [start_eq]
  rcases call.refusal with _ | msg
  · obtain ⟨hwakers, -, hcache, hdelivered⟩ := ring.submit_frame call.operation answer
    dsimp only
    rw [Ring.Futures.submitFor]
    rcases hcall : ring.submit call.operation answer with ⟨_ | _, next⟩
    all_goals
      rw [hcall] at hwakers hcache hdelivered
      exact ⟨hwakers, hcache, hdelivered⟩
  · exact ⟨rfl, rfl, rfl⟩

/-- The operation the call submits on a ring. -/
def submitted (call : IoCall) (ring : Ring) : Operation Submitted :=
  { call.operation with state := ⟨ring.operations.nextId⟩ }

/-- What a future of one buffer gives back with a count of bytes. -/
def givenBack (type : IoFutureType) (operation : Operation Building) (n : ℕ) :
    Except FutureError IoOutput :=
  match operation.buffer with
  | .pinned buffer => .ok (.transferred n buffer)
  | _ => .error (.io (.other (type.futureName ++ " completed without buffer")))

/-- **What the caller gets back** with a count of bytes, or with the descriptor of a connection. -/
def given (n : ℕ) : IoCall → Except FutureError IoOutput
  | submitRead operation => givenBack .read operation n
  | submitWrite operation => givenBack .write operation n
  | submitSend operation => givenBack .send operation n
  | submitRecv operation => givenBack .recv operation n
  | read _ buffer | readAt _ buffer _ | readRegistered _ _ buffer | readFixed _ _ buffer
  | write _ buffer | writeAt _ buffer _ | writeRegistered _ _ buffer | writeFixed _ _ buffer
  | send _ buffer | recv _ buffer => .ok (.transferred n buffer)
  | readVectored _ buffers | readVectoredAt _ buffers _ | writeVectored _ buffers
  | writeVectoredAt _ buffers _ => .ok (.scattered n buffers)
  | submitAccept _ | accept _ => .ok (.accepted n)

/-- A count of bytes needs a buffer to go with. -/
theorem settleBytes_natCast {α : Type} (n : ℕ) (buffer : Option α) (output : ℕ → α → IoOutput)
    (missing : String) :
    IoFutureType.settleBytes n buffer output missing =
      match buffer with
      | some buf => .ok (output n buf)
      | none => .error (.io (.other missing)) := by
  unfold IoFutureType.settleBytes
  rw [if_neg (Int.not_lt.mpr (Int.natCast_nonneg n))]
  rfl

/-- **Nobody's buffer is swapped**: with a count of bytes the caller gets back what the call was
given. -/
theorem settle_submitted (call : IoCall) (ring : Ring) (n : ℕ) :
    call.type.settle (call.submitted ring) (.ok n) = call.given n := by
  have hio : ∀ type, IoFutureType.settleIo (IoFutureType.futureName type)
      (call.submitted ring) (.ok n) = givenBack type call.operation n := by
    intro type
    refine (settleBytes_natCast n _ IoOutput.transferred _).trans ?_
    simp only [Operation.completeWithResult, submitted, givenBack]
    rcases call.operation.buffer with _ | _ | _ | _ <;> rfl
  have hvectored : ∀ type bufs, call.operation.buffer = .vectored bufs →
      IoFutureType.settleVectored (IoFutureType.futureName type) (call.submitted ring) (.ok n) =
        .ok (.scattered n bufs) := by
    intro type bufs hbufs
    refine (settleBytes_natCast n _ IoOutput.scattered _).trans ?_
    simp only [Operation.completeWithResult, submitted, hbufs]
  have haccept : IoFutureType.settleAccept (.ok n) = .ok (.accepted n) := by
    simp [IoFutureType.settleAccept]
  cases call with
  | submitAccept | accept => exact haccept
  | readVectored | readVectoredAt => exact hvectored .vectoredRead _ rfl
  | writeVectored | writeVectoredAt => exact hvectored .vectoredWrite _ rfl
  | submitRead | read | readAt | readRegistered | readFixed => exact hio .read
  | submitWrite | write | writeAt | writeRegistered | writeFixed => exact hio .write
  | submitSend | send => exact hio .send
  | submitRecv | recv => exact hio .recv

end IoCall

end SaferRing
