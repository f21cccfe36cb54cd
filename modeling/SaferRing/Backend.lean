import Mathlib.Data.List.Perm.Basic
import SaferRing.Operation

/-!
# The contract of a backend

The ring drives its backend through a trait object, and reads of it only what the
trait promises: a submission is accepted or refused; each accepted operation is
completed once, in an order the kernel chooses; `tryComplete` hands over every
completion that is there, and `waitForCompletion` blocks until there is one.
`SaferRing.Backend` is that promise as a state. Whether the backend accepts, and
whether a call fails, is not the ring's to decide: it comes in as an argument.

An operation is *in flight* from the moment it is accepted until its completion
has been handed over (`SaferRing.Backend.inFlight`). Two things are kept as history
only, and no function reads them: which interface an operation came from
(`SaferRing.Request.caller`), and the completions handed over so far
(`SaferRing.Backend.delivered`).
-/

namespace SaferRing

/-- The interface of the ring an operation came from. -/
inductive Caller
  /-- `Ring::submit`. -/
  | legacy
  /-- An owned submission, of the buffer in the cell `buffer`. -/
  | owned (buffer : ℕ)
  deriving DecidableEq, Repr

/-- **The arguments of `submit_operation`**, and the interface they came from. -/
structure Request where
  /-- What the operation does. -/
  opType : OperationType
  /-- Its descriptor. -/
  fd : ℤ
  /-- Its offset. -/
  offset : ℕ
  /-- The address of its buffer. -/
  bufferPtr : Ptr
  /-- The length of its buffer. -/
  bufferLen : ℕ
  /-- The id its completion will carry. -/
  userData : ℕ
  /-- History: the interface it came from. -/
  caller : Caller
  deriving DecidableEq, Repr

/-- A completion, with the operation it completes. -/
abbrev Completion := Request × IoResult

/-- **The state of a backend**, as far as its callers can tell. -/
structure Backend where
  /-- The operations the kernel is working on. -/
  pending : List Request
  /-- The completions that are there to be handed over. -/
  ready : List Completion
  /-- History: the completions handed over. -/
  delivered : List Completion
  deriving DecidableEq, Repr

namespace Backend

/-- A backend nothing was submitted to. -/
def new : Backend := ⟨[], [], []⟩

variable (self : Backend)

/-- The operations in flight. -/
def inFlight : List Request := self.pending ++ self.ready.map Prod.fst

/-- The ids of the operations in flight. -/
def inFlightIds : List ℕ := self.inFlight.map Request.userData

/-- The completions waiting, as the caller will see them. -/
def waiting : List (ℕ × IoResult) := self.ready.map fun c => (c.1.userData, c.2)

/-- The backend once it accepted an operation. -/
def accepted (request : Request) : Backend := { self with pending := self.pending ++ [request] }

/-- Submit an operation; the backend answers. -/
def submitOperation (request : Request) (answer : Except SaferRingError Unit) :
    Except SaferRingError Unit × Backend :=
  match answer with
  | .error e => (.error e, self)
  | .ok () => (.ok (), self.accepted request)

/-- The backend once every completion that is there was handed over. -/
def drained : Backend := { self with ready := [], delivered := self.delivered ++ self.ready }

/-- Hand over every completion that is there, or fail. -/
def tryComplete (fail : Option SaferRingError) :
    Except SaferRingError (List (ℕ × IoResult)) × Backend :=
  match fail with
  | some e => (.error e, self)
  | none => (.ok self.waiting, self.drained)

/-- Hand over every completion once there is one, or fail; `none` is a call that
still blocks. -/
def waitForCompletion (fail : Option SaferRingError) :
    Option (Except SaferRingError (List (ℕ × IoResult)) × Backend) :=
  match fail with
  | some e => some (.error e, self)
  | none => if self.ready.isEmpty then none else some (self.tryComplete none)

/-- **The kernel completes** the `i`-th operation it is working on. -/
def complete (i : ℕ) (result : IoResult) : Option Backend :=
  match self.pending[i]? with
  | none => none
  | some request =>
    some { self with
      pending := self.pending.eraseIdx i
      ready := self.ready ++ [(request, result)] }

/-! ### What the calls do to the operations in flight -/

variable {self} {request : Request} {fail : Option SaferRingError}

theorem mem_inFlight {r : Request} :
    r ∈ self.inFlight ↔ r ∈ self.pending ∨ ∃ res, (r, res) ∈ self.ready := by
  simp [inFlight]

theorem mem_inFlightIds {id : ℕ} :
    id ∈ self.inFlightIds ↔ ∃ r ∈ self.inFlight, r.userData = id :=
  List.mem_map

theorem mem_waiting {id : ℕ} {res : IoResult} :
    (id, res) ∈ self.waiting ↔ ∃ r, (r, res) ∈ self.ready ∧ r.userData = id := by
  simp only [waiting, List.mem_map, Prod.mk.injEq, Prod.exists]
  constructor
  · rintro ⟨r, _, hr, rfl, rfl⟩
    exact ⟨r, hr, rfl⟩
  · rintro ⟨r, hr, rfl⟩
    exact ⟨r, res, hr, rfl, rfl⟩

/-- The ids of the completions waiting are ids of operations in flight. -/
theorem waiting_keys :
    self.waiting.map Prod.fst = (self.ready.map Prod.fst).map Request.userData := by
  simp [waiting, Function.comp_def]

theorem inFlightIds_eq :
    self.inFlightIds = self.pending.map Request.userData ++ self.waiting.map Prod.fst := by
  rw [inFlightIds, inFlight, List.map_append, waiting_keys]

@[simp] theorem inFlight_drained : self.drained.inFlight = self.pending := by
  simp [inFlight, drained]

theorem inFlightIds_drained : self.drained.inFlightIds = self.pending.map Request.userData := by
  rw [inFlightIds, inFlight_drained]

@[simp] theorem delivered_drained : self.drained.delivered = self.delivered ++ self.ready := rfl

/-- An accepted operation is in flight, and nothing else changes. -/
theorem inFlight_accepted_perm :
    (self.accepted request).inFlight.Perm (request :: self.inFlight) := by
  simp only [inFlight, accepted, List.append_assoc]
  exact List.perm_middle

theorem mem_inFlight_accepted {r : Request} :
    r ∈ (self.accepted request).inFlight ↔ r = request ∨ r ∈ self.inFlight := by
  rw [inFlight_accepted_perm.mem_iff, List.mem_cons]

/-- The ids in flight once an operation was accepted are different when it has a new
one. -/
theorem nodup_inFlightIds_accepted :
    (self.accepted request).inFlightIds.Nodup ↔
      request.userData ∉ self.inFlightIds ∧ self.inFlightIds.Nodup := by
  rw [inFlightIds, (inFlight_accepted_perm.map _).nodup_iff, List.map_cons, List.nodup_cons]
  rfl

/-- **A completion moves an operation**, within those in flight. -/
theorem complete_perm {i : ℕ} {result : IoResult} {b : Backend}
    (h : self.complete i result = some b) : b.inFlight.Perm self.inFlight := by
  unfold complete at h
  split at h
  · exact absurd h (by simp)
  · rename_i r hr
    obtain rfl := Option.some.inj h
    obtain ⟨hi, rfl⟩ := List.getElem?_eq_some_iff.mp hr
    simp only [inFlight, List.map_append, List.map_cons, List.map_nil, ← List.append_assoc]
    refine List.perm_append_singleton _ _ |>.trans ?_
    rw [← List.cons_append]
    exact (List.getElem_cons_eraseIdx_perm hi).append_right _

/-- A completion hands nothing over. -/
theorem complete_delivered {i : ℕ} {result : IoResult} {b : Backend}
    (h : self.complete i result = some b) : b.delivered = self.delivered := by
  unfold complete at h
  split at h
  · exact absurd h (by simp)
  · obtain rfl := Option.some.inj h
    rfl

/-- What is waiting stays waiting when another operation completes. -/
theorem ready_subset_complete {i : ℕ} {result : IoResult} {b : Backend}
    (h : self.complete i result = some b) {c : Completion} (hc : c ∈ self.ready) : c ∈ b.ready := by
  unfold complete at h
  split at h
  · exact absurd h (by simp)
  · obtain rfl := Option.some.inj h
    exact List.mem_append_left _ hc

/-! ### Ids accepted so far -/

section Ids

variable (self)

/-- The ids of the completions handed over. -/
def deliveredIds : List ℕ := self.delivered.map fun c => c.1.userData

/-- The ids of the operations accepted so far. -/
def acceptedIds : List ℕ := self.inFlightIds ++ self.deliveredIds

variable {self}

theorem mem_deliveredIds {id : ℕ} :
    id ∈ self.deliveredIds ↔ ∃ r res, (r, res) ∈ self.delivered ∧ r.userData = id := by
  simp only [deliveredIds, List.mem_map, Prod.exists]

theorem deliveredIds_drained :
    self.drained.deliveredIds = self.deliveredIds ++ self.waiting.map Prod.fst := by
  rw [deliveredIds, delivered_drained, List.map_append, waiting_keys, List.map_map]
  rfl

/-- An operation accepted adds its id. -/
theorem acceptedIds_accepted :
    (self.accepted request).acceptedIds.Perm (request.userData :: self.acceptedIds) :=
  (inFlight_accepted_perm.map Request.userData).append_right self.deliveredIds

/-- Handing over moves ids. -/
theorem acceptedIds_drained : self.drained.acceptedIds.Perm self.acceptedIds := by
  rw [acceptedIds, acceptedIds, deliveredIds_drained, inFlightIds_drained, inFlightIds_eq,
    List.append_assoc]
  exact List.perm_append_comm.append_left _

/-- A completion adds no id. -/
theorem acceptedIds_complete {i : ℕ} {result : IoResult} {b : Backend}
    (h : self.complete i result = some b) : b.acceptedIds.Perm self.acceptedIds := by
  rw [acceptedIds, deliveredIds, complete_delivered h]
  exact ((complete_perm h).map Request.userData).append_right _

end Ids

end Backend

end SaferRing
