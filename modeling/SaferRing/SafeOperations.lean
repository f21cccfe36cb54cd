import SaferRing.Completion

/-!
# The owned interface

`SaferRing.Ring.readOwned`, `writeOwned`, `readAtOwned` and `writeAtOwned` take a
buffer, draw a submission id, hand the operation to the backend and return a future
that holds the buffer. They are one function (`SaferRing.Ring.ownedWith`) applied to
the way each builds its request. `SaferRing.Ring.submitAccept` is `accept_safe` up
to the point where it starts to wait: it makes a buffer of its own.

A future is polled through `SaferRing.pollOperation`, the shared body of the two
`poll` functions, which differ in the texts of their errors only. The results to
use are `SaferRing.OwnedCall.submit_cases` for the four submissions,
`SaferRing.Ring.submitAccept_cases` for the fifth, and
`SaferRing.pollOperation_cases` for what a poll of a live operation can do.
-/

namespace SaferRing

/-- The cast from `i32` to `usize`, which extends the sign. -/
def asUsize (n : ℤ) : ℕ := (n % 2 ^ 64).toNat

/-- The cast from `usize` to `RawFd`, an `i32`. -/
def asRawFd (n : ℕ) : ℤ := Int.bmod n (2 ^ 32)

/-- What a resolved owned future holds: a byte count and the buffer. -/
abbrev SafeOutput := Except SaferRingError (ℕ × OwnedBuffer)

namespace Ring

variable (self : Ring) (heap : Heap)

/-! ### Submission of a read or a write -/

/-- Submit a read at offset `0`. -/
def submitSafeRead (fd : ℤ) (buffer : OwnedBuffer) (submissionId : ℕ)
    (answer : Except SaferRingError Unit) : Except SaferRingError Unit × Ring :=
  let (bufferPtr, bufferLen) := buffer.asPtrAndLen heap
  self.submitOperation
    ⟨.read, fd, 0, bufferPtr, bufferLen, submissionId, .owned buffer.inner⟩ answer

/-- Submit a write at offset `0`. -/
def submitSafeWrite (fd : ℤ) (buffer : OwnedBuffer) (submissionId : ℕ)
    (answer : Except SaferRingError Unit) : Except SaferRingError Unit × Ring :=
  let (bufferPtr, bufferLen) := buffer.asPtrAndLen heap
  self.submitOperation
    ⟨.write, fd, 0, bufferPtr, bufferLen, submissionId, .owned buffer.inner⟩ answer

/-- Submit a read at an offset. -/
def submitSafeReadAt (fd : ℤ) (buffer : OwnedBuffer) (offset submissionId : ℕ)
    (answer : Except SaferRingError Unit) : Except SaferRingError Unit × Ring :=
  let (bufferPtr, bufferLen) := buffer.asPtrAndLen heap
  self.submitOperation
    ⟨.read, fd, offset, bufferPtr, bufferLen, submissionId, .owned buffer.inner⟩ answer

/-- Submit a write of `len` bytes at an offset, if the buffer has as many. -/
def submitSafeWriteAt (fd : ℤ) (buffer : OwnedBuffer) (offset len submissionId : ℕ)
    (answer : Except SaferRingError Unit) : Except SaferRingError Unit × Ring :=
  let (bufferPtr, bufferCapacity) := buffer.asPtrAndLen heap
  if len > bufferCapacity then
    (.error (.ioNew .invalidInput "Length to write exceeds buffer capacity"), self)
  else
    self.submitOperation
      ⟨.write, fd, offset, bufferPtr, len, submissionId, .owned buffer.inner⟩ answer

end Ring

/-! ### Futures -/

/-- **The future of a read or a write.** -/
structure SafeOperationFuture where
  /-- The operation, until the future is done. -/
  operation : Option SafeOperation
  deriving DecidableEq, Repr

/-- **The future inside `accept_safe`.** -/
structure SafeAcceptFuture where
  /-- The operation, until the future is done. -/
  operation : Option SafeOperation
  deriving DecidableEq, Repr

/-- The texts of the errors a future makes up. -/
structure FutureTexts where
  /-- The submission failed. -/
  failed : String
  /-- The operation completed without a buffer. -/
  missing : String
  /-- The future was polled after it was done. -/
  polled : String

/-- The texts of `SafeOperationFuture`. -/
def SafeOperationFuture.texts : FutureTexts where
  failed := "Operation failed during submission"
  missing := "Operation buffer missing after completion"
  polled := "Operation future polled after completion"

/-- The texts of `SafeAcceptFuture`. -/
def SafeAcceptFuture.texts : FutureTexts where
  failed := "Accept operation failed during submission"
  missing := "Accept operation buffer missing after completion"
  polled := "Accept future polled after completion"

namespace Ring

variable (self : Ring)

/-- Drop a safe operation: it may become an orphan. -/
def dropOperation (operation : SafeOperation) : Ring :=
  { self with orphanTracker := operation.drop self.orphanTracker }

/-- Register the waker of an operation. -/
def registerWaker (operationId : ℕ) (waker : Waker) : Ring :=
  { self with wakerRegistry := self.wakerRegistry.registerWaker operationId waker }

/-- Forget the waker of an operation. -/
def removeWaker (operationId : ℕ) : Ring :=
  { self with wakerRegistry := (self.wakerRegistry.removeWaker operationId).2 }

end Ring

/-- What a completion makes of a future: its byte count and the buffer, or the
error, and then the buffer is gone. -/
def settle (result : IoResult) (buffer : OwnedBuffer) : SafeOutput :=
  match result with
  | .ok bytesTransferred => .ok (asUsize bytesTransferred, buffer)
  | .error e => .error (.io e)

/-- **The body of `poll`**, with the operation the future holds before and after. A
future that gives up because the backend failed drops its operation. -/
def pollOperation (texts : FutureTexts) (operation : Option SafeOperation) (ring : Ring)
    (waker : Waker) (fail : Option SaferRingError) :
    Poll SafeOutput × Option SafeOperation × Ring :=
  match operation with
  | none => (.ready (.error (.io (.other texts.polled))), none, ring)
  | some operation =>
    -- made by `SafeOperation::failed`: there is nothing to wait for
    if operation.completed && operation.buffer.isSome then
      (.ready (.error (.io (.other texts.failed))), none, ring)
    else
      match ring.tryCompleteSafeOperation operation.submissionId fail with
      | (.ok (some completionResult), ring) =>
        match operation.buffer with
        | none => (.ready (.error (.io (.other texts.missing))), none, ring)
        | some buffer =>
          (.ready (settle completionResult buffer), none, ring.removeWaker operation.submissionId)
      | (.ok none, ring) =>
        (.pending, some operation, ring.registerWaker operation.submissionId waker)
      -- the operation is dropped uncompleted
      | (.error e, ring) =>
        (.ready (.error e), none,
          (ring.removeWaker operation.submissionId).dropOperation operation)

/-- Poll the future of a read or a write. -/
def SafeOperationFuture.poll (self : SafeOperationFuture) (ring : Ring) (waker : Waker)
    (fail : Option SaferRingError) : Poll SafeOutput × SafeOperationFuture × Ring :=
  let (answer, operation, ring) := pollOperation texts self.operation ring waker fail
  (answer, ⟨operation⟩, ring)

/-- Poll the future inside `accept_safe`. -/
def SafeAcceptFuture.poll (self : SafeAcceptFuture) (ring : Ring) (waker : Waker)
    (fail : Option SaferRingError) : Poll SafeOutput × SafeAcceptFuture × Ring :=
  let (answer, operation, ring) := pollOperation texts self.operation ring waker fail
  (answer, ⟨operation⟩, ring)

/-! ### The calls -/

namespace Ring

variable (self : Ring) (heap : Heap)

/-- **Submit an owned operation**: draw an id, submit under it, and put the buffer
in a future, which is a failed one when the submission is refused. -/
def ownedWith (submit : Ring → ℕ → Except SaferRingError Unit × Ring) (buffer : OwnedBuffer) :
    SafeOperationFuture × Ring :=
  let (submissionId, orphanTracker) := self.orphanTracker.drawSubmissionId
  match submit { self with orphanTracker } submissionId with
  | (.ok (), ring) => (⟨some (.new buffer submissionId)⟩, ring)
  | (.error _, ring) => (⟨some (.failed buffer submissionId)⟩, ring)

/-- `read_owned`. -/
def readOwned (fd : ℤ) (buffer : OwnedBuffer) (answer : Except SaferRingError Unit) :
    SafeOperationFuture × Ring :=
  self.ownedWith (fun ring id => ring.submitSafeRead heap fd buffer id answer) buffer

/-- `write_owned`. -/
def writeOwned (fd : ℤ) (buffer : OwnedBuffer) (answer : Except SaferRingError Unit) :
    SafeOperationFuture × Ring :=
  self.ownedWith (fun ring id => ring.submitSafeWrite heap fd buffer id answer) buffer

/-- `read_at_owned`. -/
def readAtOwned (fd : ℤ) (buffer : OwnedBuffer) (offset : ℕ)
    (answer : Except SaferRingError Unit) : SafeOperationFuture × Ring :=
  self.ownedWith (fun ring id => ring.submitSafeReadAt heap fd buffer offset id answer) buffer

/-- `write_at_owned`. -/
def writeAtOwned (fd : ℤ) (buffer : OwnedBuffer) (offset len : ℕ)
    (answer : Except SaferRingError Unit) : SafeOperationFuture × Ring :=
  self.ownedWith (fun ring id => ring.submitSafeWriteAt heap fd buffer offset len id answer)
    buffer

/-- **`accept_safe`, up to its first wait**: a buffer of its own, given to the
kernel, and the submission. An operation that is not submitted is dropped, and
becomes an orphan. -/
def submitAccept (fd : ℤ) (addr : ℕ) (answer : Except SaferRingError Unit) :
    Except SaferRingError SafeAcceptFuture × Ring × Heap :=
  let (submissionId, orphanTracker) := self.orphanTracker.drawSubmissionId
  let ring := { self with orphanTracker }
  let (buffer, heap) := OwnedBuffer.new heap addr 256
  let operation := SafeOperation.new buffer submissionId
  match operation.bufferInfo heap with
  | (.error e, heap) => (.error e, ring.dropOperation operation, heap)
  | (.ok (bufferPtr, bufferSize), heap) =>
    match ring.submitOperation
        ⟨.accept, fd, 0, bufferPtr, bufferSize, submissionId, .owned buffer.inner⟩ answer with
    -- the operation goes out of scope uncompleted, and so becomes an orphan
    | (.error e, ring) => (.error e, ring.dropOperation operation, heap)
    | (.ok (), ring) => (.ok ⟨some operation⟩, ring, heap)

end Ring

/-- **The four owned submissions**, with the arguments besides the buffer. -/
inductive OwnedCall
  /-- `read_owned`. -/
  | readOwned (fd : ℤ)
  /-- `write_owned`. -/
  | writeOwned (fd : ℤ)
  /-- `read_at_owned`. -/
  | readAtOwned (fd : ℤ) (offset : ℕ)
  /-- `write_at_owned`. -/
  | writeAtOwned (fd : ℤ) (offset len : ℕ)
  deriving DecidableEq, Repr

namespace OwnedCall

/-- Make the call. -/
def submit (call : OwnedCall) (ring : Ring) (heap : Heap) (buffer : OwnedBuffer)
    (answer : Except SaferRingError Unit) : SafeOperationFuture × Ring :=
  match call with
  | .readOwned fd => ring.readOwned heap fd buffer answer
  | .writeOwned fd => ring.writeOwned heap fd buffer answer
  | .readAtOwned fd offset => ring.readAtOwned heap fd buffer offset answer
  | .writeAtOwned fd offset len => ring.writeAtOwned heap fd buffer offset len answer

/-- Whether the call gets as far as the backend: a write must not ask for more bytes
than the buffer has. -/
def Fits (call : OwnedCall) (heap : Heap) (buffer : OwnedBuffer) : Prop :=
  match call with
  | .writeAtOwned _ _ len => len ≤ (buffer.asPtrAndLen heap).2
  | _ => True

instance (call : OwnedCall) (heap : Heap) (buffer : OwnedBuffer) :
    Decidable (call.Fits heap buffer) :=
  match call with
  | .readOwned _ | .writeOwned _ | .readAtOwned _ _ => inferInstanceAs (Decidable True)
  | .writeAtOwned _ _ len => inferInstanceAs (Decidable (len ≤ (buffer.asPtrAndLen heap).2))

/-- The request the call hands to the backend. -/
def request (call : OwnedCall) (heap : Heap) (buffer : OwnedBuffer) (id : ℕ) : Request :=
  let (ptr, len) := buffer.asPtrAndLen heap
  match call with
  | .readOwned fd => ⟨.read, fd, 0, ptr, len, id, .owned buffer.inner⟩
  | .writeOwned fd => ⟨.write, fd, 0, ptr, len, id, .owned buffer.inner⟩
  | .readAtOwned fd offset => ⟨.read, fd, offset, ptr, len, id, .owned buffer.inner⟩
  | .writeAtOwned fd offset n => ⟨.write, fd, offset, ptr, n, id, .owned buffer.inner⟩

variable {call : OwnedCall} {heap : Heap} {buffer : OwnedBuffer} {id : ℕ}

@[simp] theorem userData_request : (call.request heap buffer id).userData = id := by
  cases call <;> rfl

@[simp] theorem caller_request : (call.request heap buffer id).caller = .owned buffer.inner := by
  cases call <;> rfl

end OwnedCall

/-! ### What the calls can do -/

namespace Ring

variable (self : Ring)

/-- The ring once a submission id was drawn. -/
def drawn : Ring := { self with orphanTracker := self.orphanTracker.drawSubmissionId.2 }

/-- The id drawn next by an owned submission. -/
abbrev nextSubmissionId : ℕ := self.orphanTracker.nextSubmissionId

variable {self}

/-- An owned submission, once it is known how its request ends. -/
theorem ownedWith_eq (buffer : OwnedBuffer)
    {submit : Ring → ℕ → Except SaferRingError Unit × Ring} {request : Request}
    {answer : Except SaferRingError Unit}
    (h : submit self.drawn self.nextSubmissionId = self.drawn.submitOperation request answer) :
    (answer = .ok () ∧ self.ownedWith submit buffer =
      (⟨some (.new buffer self.nextSubmissionId)⟩, self.drawn.accepted request)) ∨
    (∃ e, answer = .error e ∧ self.ownedWith submit buffer =
      (⟨some (.failed buffer self.nextSubmissionId)⟩, self.drawn)) := by
  rcases answer with e | ⟨⟨⟩⟩
  · refine Or.inr ⟨e, rfl, ?_⟩
    have he : submit self.drawn self.nextSubmissionId = (.error e, self.drawn) := h
    simp only [ownedWith, OrphanTracker.drawSubmissionId]
    rw [drawn, OrphanTracker.drawSubmissionId] at he
    rw [he]
    rfl
  · refine Or.inl ⟨rfl, ?_⟩
    have he : submit self.drawn self.nextSubmissionId =
      (.ok (), self.drawn.accepted request) := h
    simp only [ownedWith, OrphanTracker.drawSubmissionId]
    rw [drawn, OrphanTracker.drawSubmissionId] at he
    rw [he]
    rfl

end Ring

/-- **What an owned submission can do**: be accepted, and be in flight under the id
drawn, with a future that holds the buffer; or not be accepted, and then it has a
failed future and nothing else happened than that an id was drawn. -/
theorem OwnedCall.submit_cases (call : OwnedCall) (ring : Ring) (heap : Heap)
    (buffer : OwnedBuffer) (answer : Except SaferRingError Unit) :
    (answer = .ok () ∧ call.Fits heap buffer ∧
      call.submit ring heap buffer answer =
        (⟨some (.new buffer ring.nextSubmissionId)⟩,
          ring.drawn.accepted (call.request heap buffer ring.nextSubmissionId))) ∨
    (¬(answer = .ok () ∧ call.Fits heap buffer) ∧
      call.submit ring heap buffer answer =
        (⟨some (.failed buffer ring.nextSubmissionId)⟩, ring.drawn)) := by
  by_cases hfit : call.Fits heap buffer
  -- the request reaches the backend: all four calls are `ownedWith` at a submission
  · have hsub : ∃ submit, call.submit ring heap buffer answer = ring.ownedWith submit buffer ∧
        submit ring.drawn ring.nextSubmissionId = ring.drawn.submitOperation
          (call.request heap buffer ring.nextSubmissionId) answer := by
      cases call with
      | readOwned fd =>
        exact ⟨fun ring id => ring.submitSafeRead heap fd buffer id answer, rfl, rfl⟩
      | writeOwned fd =>
        exact ⟨fun ring id => ring.submitSafeWrite heap fd buffer id answer, rfl, rfl⟩
      | readAtOwned fd offset =>
        exact ⟨fun ring id => ring.submitSafeReadAt heap fd buffer offset id answer, rfl, rfl⟩
      | writeAtOwned fd offset len =>
        refine ⟨fun ring id => ring.submitSafeWriteAt heap fd buffer offset len id answer,
          rfl, ?_⟩
        simp only [Ring.submitSafeWriteAt]
        rw [if_neg (Nat.not_lt.mpr hfit)]
        rfl
    obtain ⟨submit, hcall, hreq⟩ := hsub
    rw [hcall]
    rcases Ring.ownedWith_eq buffer hreq with ⟨ha, h⟩ | ⟨e, ha, h⟩
    · exact Or.inl ⟨ha, hfit, h⟩
    · exact Or.inr ⟨fun hc => by simp [ha] at hc, h⟩
  · refine Or.inr ⟨fun hc => hfit hc.2, ?_⟩
    cases call with
    | readOwned => exact absurd trivial hfit
    | writeOwned => exact absurd trivial hfit
    | readAtOwned => exact absurd trivial hfit
    | writeAtOwned fd offset len =>
      have hlen : len > (buffer.asPtrAndLen heap).2 := Nat.not_le.mp hfit
      simp only [submit, Ring.writeAtOwned, Ring.ownedWith, Ring.submitSafeWriteAt]
      rw [if_pos hlen]
      rfl

/-- The heap once `accept_safe` has given its buffer to the kernel. -/
def acceptHeap (heap : Heap) (addr id : ℕ) : Heap :=
  (heap.alloc (.user ⟨addr, List.replicate 256 0⟩)).2.set heap.next
    (.kernel ⟨addr, List.replicate 256 0⟩ id)

/-- The buffer `accept_safe` makes. -/
def acceptBuffer (heap : Heap) : OwnedBuffer := ⟨heap.next, 256, 0⟩

/-- The request of `accept_safe`. -/
def acceptRequest (heap : Heap) (fd : ℤ) (addr id : ℕ) : Request :=
  ⟨.accept, fd, 0, some addr, 256, id, .owned heap.next⟩

/-- **What the submission of `accept_safe` can do**: be accepted, or be refused, and
then an orphan is left under an id the backend never saw. -/
theorem Ring.submitAccept_cases (self : Ring) (heap : Heap) (fd : ℤ) (addr : ℕ)
    (answer : Except SaferRingError Unit) :
    (answer = .ok () ∧ self.submitAccept heap fd addr answer =
      (.ok ⟨some (.new (acceptBuffer heap) self.nextSubmissionId)⟩,
        self.drawn.accepted (acceptRequest heap fd addr self.nextSubmissionId),
        acceptHeap heap addr self.nextSubmissionId)) ∨
    (∃ e, answer = .error e ∧ self.submitAccept heap fd addr answer =
      (.error e, self.drawn.dropOperation (.new (acceptBuffer heap) self.nextSubmissionId),
        acceptHeap heap addr self.nextSubmissionId)) := by
  have hinfo : (SafeOperation.new (acceptBuffer heap) self.nextSubmissionId).bufferInfo
      (OwnedBuffer.new heap addr 256).2 =
        (.ok (some addr, 256), acceptHeap heap addr self.nextSubmissionId) := by
    have hcell : (OwnedBuffer.new heap addr 256).2.cell (acceptBuffer heap).inner =
        .user ⟨addr, List.replicate 256 0⟩ := Heap.cell_alloc_self ..
    have hgive := OwnedBuffer.giveToKernel_of_user hcell self.nextSubmissionId
    rw [List.length_replicate] at hgive
    exact hgive
  rcases answer with e | ⟨⟨⟩⟩
  · refine Or.inr ⟨e, rfl, ?_⟩
    simp only [submitAccept]
    rw [show (OwnedBuffer.new heap addr 256).1 = acceptBuffer heap from rfl,
      show self.orphanTracker.drawSubmissionId.1 = self.nextSubmissionId from rfl, hinfo]
    rfl
  · refine Or.inl ⟨rfl, ?_⟩
    simp only [submitAccept]
    rw [show (OwnedBuffer.new heap addr 256).1 = acceptBuffer heap from rfl,
      show self.orphanTracker.drawSubmissionId.1 = self.nextSubmissionId from rfl, hinfo]
    rfl

/-- **What a poll of a live operation can do**: find its result in the cache; give up
because the backend fails, and leave an orphan; find its result among the
completions it collects; or go on waiting. -/
theorem pollOperation_cases (texts : FutureTexts) {operation : SafeOperation}
    {buffer : OwnedBuffer} (hc : operation.completed = false)
    (hb : operation.buffer = some buffer) (ring : Ring) (waker : Waker)
    (fail : Option SaferRingError) :
    (∃ result, ring.cached operation.submissionId = some result ∧
      pollOperation texts (some operation) ring waker fail =
        (.ready (settle (copyResult result) buffer), none,
          { ring with completionCache := ring.completionCache.erase operation.submissionId
            }.removeWaker operation.submissionId)) ∨
    (∃ e, ring.cached operation.submissionId = none ∧ fail = some e ∧
      pollOperation texts (some operation) ring waker fail =
        (.ready (.error e), none,
          (ring.removeWaker operation.submissionId).dropOperation operation)) ∨
    (ring.cached operation.submissionId = none ∧ fail = none ∧
      ((∃ result, (ring.drainFor operation.submissionId).1 = some result ∧
        pollOperation texts (some operation) ring waker fail =
          (.ready (settle result buffer), none,
            (ring.drainFor operation.submissionId).2.removeWaker operation.submissionId)) ∨
      ((ring.drainFor operation.submissionId).1 = none ∧
        pollOperation texts (some operation) ring waker fail =
          (.pending, some operation,
            (ring.drainFor operation.submissionId).2.registerWaker
              operation.submissionId waker)))) := by
  have hlive : ¬(operation.completed && operation.buffer.isSome) = true := by simp [hc]
  rcases ring.tryCompleteSafeOperation_cases operation.submissionId fail with
    ⟨result, hcache, h⟩ | ⟨e, hcache, hfail, h⟩ | ⟨hcache, hfail, h⟩
  · refine Or.inl ⟨result, hcache, ?_⟩
    simp only [pollOperation, h, hb]
    rw [if_neg (by simp [hc])]
  · refine Or.inr (Or.inl ⟨e, hcache, hfail, ?_⟩)
    simp only [pollOperation, h]
    rw [if_neg hlive]
  · refine Or.inr (Or.inr ⟨hcache, hfail, ?_⟩)
    rcases ht : (ring.drainFor operation.submissionId).1 with _ | result
    · refine Or.inr ⟨rfl, ?_⟩
      simp only [pollOperation, h, ht]
      rw [if_neg hlive]
    · refine Or.inl ⟨result, rfl, ?_⟩
      simp only [pollOperation, h, ht, hb]
      rw [if_neg (by simp [hc])]

end SaferRing
