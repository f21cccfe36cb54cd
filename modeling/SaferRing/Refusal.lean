import SaferRing.Backend.IoUring
import SaferRing.Drop

/-!
# A legacy submission that fails

A legacy submission fails at one of three points. The check comes before the operation is
tracked. The transition of the operation comes after, and an operation that fails it is
tracked no longer; but the transition makes the same check again, and cannot fail. An operation
the backend refuses, at last, stays tracked: nothing will complete it, and a ring that is
dropped panics on account of it.

`SaferRing.Ring.TracksAs` is what a submission that fails should leave of the tracker, and
`SaferRing.Ring.atomicOnError_iff` is that it does **exactly when the backend does not refuse a
valid operation**, or refuses one that is tracked already, under the id that was drawn for it.
-/

namespace SaferRing

/-! ### Operations complete -/

namespace OperationTracker

variable (self : OperationTracker) {other : OperationTracker} {j : ℕ}

/-- Stop tracking the operations of `ids`, one after the other. -/
def completeAll (ids : List ℕ) : OperationTracker :=
  ids.foldl (fun tracker id => (tracker.completeOperation id).2) self

/-- What is tracked of the others stays. -/
theorem mem_completeAll {ids : List ℕ} :
    j ∈ (self.completeAll ids).inFlight ↔ j ∉ ids ∧ j ∈ self.inFlight := by
  induction ids generalizing self with
  | nil => exact (and_iff_right List.not_mem_nil).symm
  | cons id rest ih =>
    have hstep : j ∈ (self.completeAll (id :: rest)).inFlight ↔
        j ∉ rest ∧ j ∈ (self.completeOperation id).2.inFlight := ih _
    rw [hstep, mem_completeOperation, List.mem_cons, not_or, and_left_comm, and_assoc]

variable {self}

/-- Trackers that have the same handles track the same operations. -/
theorem mem_congr (h : ∀ id, other.inFlight.lookup id = self.inFlight.lookup id) (j : ℕ) :
    j ∈ other.inFlight ↔ j ∈ self.inFlight := by
  rw [← AList.lookup_isSome, h, AList.lookup_isSome]

/-- Trackers that have the same handles track as many operations. -/
theorem count_congr (h : ∀ id, other.inFlight.lookup id = self.inFlight.lookup id) :
    other.count = self.count := by
  have hkeys : other.inFlight.keys.Perm self.inFlight.keys :=
    (List.perm_ext_iff_of_nodup other.inFlight.keys_nodup self.inFlight.keys_nodup).mpr
      fun j => mem_congr h j
  exact hkeys.length_eq

end OperationTracker

namespace Ring

/-- The ring once the operations of `ids` have completed. -/
def completing (self : Ring) (ids : List ℕ) : Ring :=
  { self with operations := self.operations.completeAll ids }

/-- A ring drops quietly once everything it tracks has completed. -/
theorem drop_completing {self : Ring} {ids : List ℕ} :
    (self.completing ids).drop = .ok () ↔ ∀ id ∈ self.operations.inFlight, id ∈ ids := by
  rw [drop_eq_ok_iff]
  refine forall_congr' fun id => ?_
  rw [completing, OperationTracker.mem_completeAll, not_and]
  exact not_imp_not

/-! ### What a failure should leave -/

/-- **A ring tracks what another one does**: the same operations under the same ids, as many of
them, and whatever completes before it is dropped, it panics only where the other does. -/
structure TracksAs (s t : Ring) : Prop where
  lookup : ∀ id, t.operations.inFlight.lookup id = s.operations.inFlight.lookup id
  count : t.operationsInFlight = s.operationsInFlight
  drop : ∀ ids, (t.completing ids).drop = .ok () ↔ (s.completing ids).drop = .ok ()

/-- The handles say it all. -/
theorem TracksAs.of_lookup {s t : Ring}
    (h : ∀ id, t.operations.inFlight.lookup id = s.operations.inFlight.lookup id) :
    TracksAs s t := by
  refine ⟨h, OperationTracker.count_congr h, fun ids => ?_⟩
  rw [drop_completing, drop_completing]
  exact forall_congr' fun id => imp_congr_left (OperationTracker.mem_congr h id)

variable (self : Ring) (operation : Operation Building) (answer : Except SaferRingError Unit)

/-- **A submission that fails tracks what was tracked before.** -/
def AtomicOnError : Prop :=
  ∀ e ring, self.submit operation answer = (.error e, ring) → self.TracksAs ring

/-- The handle of an operation, under the id that is drawn next. -/
def nextHandle : OperationHandle :=
  ⟨self.operations.nextId, operation.opType, operation.getFd, none⟩

/-- **The backend refuses an operation that passes the check.** -/
def Refused : Prop := operation.validate = .ok () ∧ ∃ e, answer = .error e

/-- The id that is drawn next is that of an operation of the same type on the same
descriptor, which is still tracked. -/
def TracksAlready : Prop :=
  self.operations.inFlight.lookup self.operations.nextId = some (self.nextHandle operation)

variable {self operation answer}

/-- What is tracked under an id, once an operation is. -/
theorem lookup_tracking (j : ℕ) : (self.tracking operation).operations.inFlight.lookup j =
    if j = self.operations.nextId then some (self.nextHandle operation)
    else self.operations.inFlight.lookup j := by
  by_cases hj : j = self.operations.nextId
  · rw [if_pos hj, hj]
    exact AList.lookup_insert _
  · rw [if_neg hj]
    exact AList.lookup_insert_ne hj

/-- Tracking an operation changes nothing only if it is tracked already. -/
theorem tracksAs_tracking :
    self.TracksAs (self.tracking operation) ↔ self.TracksAlready operation := by
  constructor
  · intro h
    have hnext := h.lookup self.operations.nextId
    rw [lookup_tracking, if_pos rfl] at hnext
    exact hnext.symm
  · intro h
    refine .of_lookup fun j => ?_
    rw [lookup_tracking]
    split
    · rename_i hj
      rw [hj]
      exact h.symm
    · rfl

/-- **A submission that fails leaves the tracked operations as they were exactly when the
backend did not refuse a valid operation**, or refused one that is tracked already. -/
theorem atomicOnError_iff (self : Ring) (operation : Operation Building)
    (answer : Except SaferRingError Unit) : self.AtomicOnError operation answer ↔
      (Refused operation answer → self.TracksAlready operation) := by
  rcases self.submit_cases operation answer with
    ⟨msg, hbad, hcall⟩ | ⟨e, hrefused, hvalid, hcall⟩ | ⟨haccepted, -, hcall⟩
  · -- the check fails, and the ring is the one before the call
    refine iff_of_true ?_ fun ⟨hvalid, _⟩ => absurd (hbad.symm.trans hvalid) (by simp)
    intro e ring hring
    obtain ⟨-, rfl⟩ := Prod.mk.inj (hcall.symm.trans hring)
    exact .of_lookup fun _ => rfl
  · rw [← tracksAs_tracking]
    constructor
    · exact fun hatomic _ => hatomic e _ hcall
    · intro htracks e' ring hring
      obtain ⟨-, rfl⟩ := Prod.mk.inj (hcall.symm.trans hring)
      exact htracks ⟨hvalid, e, hrefused⟩
  · refine iff_of_true ?_ fun ⟨_, e, hrefused⟩ => absurd (haccepted.symm.trans hrefused) (by simp)
    intro e ring hring
    exact absurd (hcall.symm.trans hring) (by simp)

/-- A vectored read into one slice, which passes the check. -/
def vectoredRead : Operation Building := ⟨.vectored [⟨4096, 8⟩], .raw 3, 0, .readVectored, ⟨⟩⟩

/-- What the io_uring backend answers to it. -/
def notImplemented : SaferRingError :=
  .ioNew .unsupported "Operation ReadVectored not yet implemented in io_uring backend"

/-- **A new ring that was asked for a vectored read panics when it is dropped**, although it
returned the error and nothing is in flight. -/
theorem not_atomicOnError_vectoredRead : ∃ ring,
    Ring.new.submit vectoredRead (.error notImplemented) = (.error notImplemented, ring) ∧
    Ring.new.operationsInFlight = 0 ∧ ring.operationsInFlight = 1 ∧ ring.backend.inFlight = [] ∧
    Ring.new.drop = .ok () ∧
    ring.drop = .error ("Ring dropped with 1 operations in flight:\n" ++
      "  - Operation 1: ReadVectored on fd 3\n" ++
      "All operations must complete before dropping the ring.") ∧
    ¬Ring.new.AtomicOnError vectoredRead (.error notImplemented) := by
  have hcall : Ring.new.submit vectoredRead (.error notImplemented) =
      (.error notImplemented, Ring.new.tracking vectoredRead) := rfl
  refine ⟨_, hcall, rfl, rfl, rfl, rfl, by decide, fun hatomic => ?_⟩
  exact absurd (hatomic _ _ hcall).count (by decide)

end Ring

end SaferRing
