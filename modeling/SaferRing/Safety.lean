import SaferRing.Ownership

/-!
# Orphans and safe operations

A `SaferRing.SafeOperation` holds the handle of the buffer an operation in flight
works on. Dropped before its completion was seen, it leaves the handle to the
`SaferRing.OrphanTracker`, under its submission id (`SaferRing.SafeOperation.drop`);
the tracker lets go of it when the completion arrives
(`SaferRing.OrphanTracker.handleCompletion`). The tracker is also where submission
ids come from: a wrapping 64-bit counter that starts at `1`, as the counter of the
`SaferRing.OperationTracker` does.

A safe operation reaches its tracker through a weak reference, which is alive as
long as the ring is; here the ring is always alive, so the reference is the tracker.
-/

namespace SaferRing

/-- **The operations whose futures are gone**, with their buffers, and the counter
submission ids are drawn from. -/
structure OrphanTracker where
  /-- The buffers, by submission id. -/
  orphanedOperations : HashMap OwnedBuffer
  /-- The next submission id. -/
  nextSubmissionId : ℕ

namespace OrphanTracker

/-- A tracker without orphans; the id `0` is left out. -/
def new : OrphanTracker := ⟨∅, 1⟩

variable (self : OrphanTracker)

/-- `next_submission_id`: the id drawn, and the counter moved on. -/
def drawSubmissionId : ℕ × OrphanTracker :=
  (self.nextSubmissionId,
    { self with nextSubmissionId := wrappingAdd self.nextSubmissionId 1 })

/-- Keep the buffer of an operation whose future is gone. -/
def registerOrphan (submissionId : ℕ) (buffer : OwnedBuffer) : OrphanTracker :=
  { self with orphanedOperations := self.orphanedOperations.insert submissionId buffer }

/-- **Let go of an orphan**: its buffer and the result, or nothing when the
operation is not an orphan. -/
def handleCompletion (submissionId : ℕ) (result : IoResult) :
    Option (OwnedBuffer × IoResult) × OrphanTracker :=
  ((self.orphanedOperations.lookup submissionId).map fun buffer => (buffer, result),
    { self with orphanedOperations := self.orphanedOperations.erase submissionId })

/-- The number of orphans. -/
def orphanCount : ℕ := self.orphanedOperations.keys.length

/-- Whether an operation is an orphan. -/
def isOrphaned (submissionId : ℕ) : Bool := decide (submissionId ∈ self.orphanedOperations)

/-- Let go of every orphan, and count them. -/
def cleanupAllOrphans : ℕ × OrphanTracker :=
  (self.orphanCount, { self with orphanedOperations := ∅ })

/-- The buffer kept for an operation, if it is an orphan. -/
abbrev orphan (submissionId : ℕ) : Option OwnedBuffer :=
  self.orphanedOperations.lookup submissionId

variable {self} {id j : ℕ} {buffer : OwnedBuffer} {result : IoResult}

@[simp] theorem orphan_registerOrphan_self :
    (self.registerOrphan id buffer).orphan id = some buffer :=
  AList.lookup_insert _

theorem orphan_registerOrphan_of_ne (h : j ≠ id) :
    (self.registerOrphan id buffer).orphan j = self.orphan j :=
  AList.lookup_insert_ne h

/-- **A completion takes its orphan away, and no other.** -/
theorem orphan_handleCompletion :
    (self.handleCompletion id result).2.orphan j = if j = id then none else self.orphan j := by
  by_cases h : j = id
  · rw [if_pos h, h]
    exact AList.lookup_erase ..
  · rw [if_neg h]
    exact AList.lookup_erase_ne h

/-- Whether the completed operation was an orphan. -/
theorem isSome_handleCompletion :
    (self.handleCompletion id result).1.isSome = (self.orphan id).isSome := by
  simp [handleCompletion]

/-- No orphan is counted exactly when none is kept. -/
theorem orphanCount_eq_zero : self.orphanCount = 0 ↔ ∀ id, self.orphan id = none := by
  simp only [orphanCount, List.length_eq_zero_iff, AList.lookup_eq_none, AList.mem_keys,
    List.eq_nil_iff_forall_not_mem]

end OrphanTracker

/-! ### Safe operations -/

/-- **An operation that may be abandoned at any time.** -/
structure SafeOperation where
  /-- Its submission id. -/
  submissionId : ℕ
  /-- Its buffer, until it is taken out. -/
  buffer : Option OwnedBuffer
  /-- Whether its completion was seen, or its submission failed. -/
  completed : Bool
  deriving DecidableEq, Repr

namespace SafeOperation

/-- An operation that was submitted. -/
def new (buffer : OwnedBuffer) (submissionId : ℕ) : SafeOperation :=
  ⟨submissionId, some buffer, false⟩

/-- An operation whose submission failed. -/
def failed (buffer : OwnedBuffer) (submissionId : ℕ) : SafeOperation :=
  ⟨submissionId, some buffer, true⟩

/-- The pointer and the length of the buffer, which the kernel owns from then on. -/
def bufferInfo (self : SafeOperation) (heap : Heap) : Except SaferRingError (Ptr × ℕ) × Heap :=
  match self.buffer with
  | some buffer => buffer.giveToKernel heap self.submissionId
  | none => (.ok (none, 0), heap)

/-- **Dropping an operation** whose completion was not seen makes it an orphan. -/
def drop (self : SafeOperation) (tracker : OrphanTracker) : OrphanTracker :=
  match self.completed, self.buffer with
  | false, some buffer => tracker.registerOrphan self.submissionId buffer.cloneHandle
  | _, _ => tracker

variable {self : SafeOperation} {tracker : OrphanTracker}

@[simp] theorem drop_completed (h : self.completed = true) : self.drop tracker = tracker := by
  rw [drop, h]

@[simp] theorem nextSubmissionId_drop :
    (self.drop tracker).nextSubmissionId = tracker.nextSubmissionId := by
  unfold drop
  split <;> rfl

end SafeOperation

end SaferRing
