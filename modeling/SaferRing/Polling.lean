import SaferRing.Completion
import SaferRing.Library.RefCell

/-!
# Asking for an operation once more

`try_complete_by_id` counts its calls, in a counter the whole process shares, and from the 52nd on
it waits for a completion instead of looking for one. The wait borrows the backend from its cell,
and the closure that is to fall back on looking when the wait fails borrows it once more, while the
guard of the first borrow is alive: `SaferRing.Ring.takeCompletions` is this part of the call, with
the cell. The call comes to `SaferRing.Ring.tryCompleteById`, which knows nothing of cells
(`SaferRing.Ring.tryCompleteByIdBorrowing_eq`).

So the call panics **exactly when the operation is not cached, the call is the 52nd or a later one,
and the wait fails** (`SaferRing.Ring.borrowsFree_iff`). And what was asked before, of whatever
ring, does not matter **exactly when the operation is cached, when the counter is on the same side
of its bound, or when a completion is there and no call of the backend fails**
(`SaferRing.Ring.historyIndependent_iff`).
-/

namespace SaferRing

/-- What a fallible value becomes, nothing in place of an error. -/
def unwrapOrDefault {ε α : Type} : Except ε (List α) → List α
  | .ok values => values
  | .error _ => []

namespace Ring

/-- **What `try_complete_by_id` takes from the backend**, in its cell: the completions of a wait
from the 52nd call on, else those there are. `waitFail` is how the wait fails, if it does, and
`tryFail` how looking for completions does. -/
def takeCompletions (cell : RefCell Backend) (count : ℕ)
    (waitFail tryFail : Option SaferRingError) :
    Outcome (Except SaferRingError (List (ℕ × IoResult)) × RefCell Backend) :=
  if count > 50 then
    match cell.borrowMut with
    | none => .panicked
    | some (guard, cell) =>
      match guard.waitForCompletion waitFail with
      | none => .blocked
      | some (.ok completions, guard) => .returned (.ok completions, (cell.write guard).release)
      | some (.error _, guard) =>
        -- the guard is a temporary of the statement, and outlives the closure that falls back
        match (cell.write guard).use fun backend => backend.tryComplete tryFail with
        | none => .panicked
        | some (answer, cell) => .returned (.ok (unwrapOrDefault answer), cell)
  else
    match cell.use fun backend => backend.tryComplete tryFail with
    | none => .panicked
    | some (answer, cell) => .returned (answer, cell)

variable (self : Ring)

/-- **`try_complete_by_id`, with the cell of the backend**, after `count` calls of it in the
process. -/
def tryCompleteByIdBorrowing (operationId count : ℕ) (waitFail tryFail : Option SaferRingError) :
    Outcome (Except SaferRingError (Option IoResult) × Ring) :=
  match self.completionCache.lookup operationId with
  | some result =>
    .returned (.ok (some result), { self with
      completionCache := self.completionCache.erase operationId
      operations := (self.operations.completeOperation operationId).2
      }.wakeOperation operationId)
  | none =>
    (takeCompletions (.new self.backend) count waitFail tryFail).map fun (answer, cell) =>
      match answer with
      | .error e => (.error e, { self with backend := cell.value })
      | .ok completions =>
        let (target, ring) :=
          completions.foldl (collectCompletion operationId)
            (none, { self with backend := cell.value })
        (.ok target, ring)

/-- The value of the poll counter after so many calls; it is a `usize`, and wraps around. -/
def pollCount (calls : ℕ) : ℕ := calls % 2 ^ 64

variable {self} {id count : ℕ} {waitFail tryFail : Option SaferRingError}

/-! ### What the call comes to -/

/-- **With its cell, the call does what it does without**, the backend failing as the call it gets
fails. -/
theorem tryCompleteByIdBorrowing_eq (self : Ring) (id count : ℕ)
    (waitFail tryFail : Option SaferRingError) :
    self.tryCompleteByIdBorrowing id count waitFail tryFail =
      self.tryCompleteById id count (if count > 50 then waitFail else tryFail) := by
  rw [tryCompleteByIdBorrowing, tryCompleteById]
  rcases self.completionCache.lookup id with _ | result
  · by_cases hcount : count > 50
    · simp only [takeCompletions, if_pos hcount, RefCell.borrowMut_new]
      rcases self.backend.waitForCompletion waitFail with _ | ⟨_ | completions, backend⟩ <;> rfl
    · simp only [takeCompletions, if_neg hcount, RefCell.use_new]
      rcases self.backend.tryComplete tryFail with ⟨_ | completions, backend⟩ <;> rfl
  · rfl

/-- A call that looks for completions. -/
theorem tryCompleteById_of_le (hcached : self.cached id = none) (hcount : count ≤ 50)
    (fail : Option SaferRingError) :
    self.tryCompleteById id count fail = .returned (match fail with
      | some e => (.error e, self)
      | none => (.ok (self.collectFor id).1, (self.collectFor id).2)) := by
  have hnot : ¬count > 50 := Nat.not_lt.mpr hcount
  rw [tryCompleteById, show self.completionCache.lookup id = none from hcached]
  rcases fail with _ | e
  all_goals
    simp only [if_neg hnot]
    rfl

/-- A call that waits. -/
theorem tryCompleteById_of_gt (hcached : self.cached id = none) (hcount : count > 50)
    (fail : Option SaferRingError) :
    self.tryCompleteById id count fail = match fail with
      | some _ => .panicked
      | none =>
        if self.backend.ready = [] then .blocked
        else .returned (.ok (self.collectFor id).1, (self.collectFor id).2) := by
  rw [tryCompleteById, show self.completionCache.lookup id = none from hcached]
  rcases fail with _ | e
  · simp only [if_pos hcount, Backend.waitForCompletion, List.isEmpty_iff]
    by_cases hready : self.backend.ready = []
    · rw [if_pos hready, if_pos hready]
    · rw [if_neg hready, if_neg hready]
      rfl
  · simp only [if_pos hcount]
    rfl

/-! ### One borrow at a time -/

/-- **The backend is not borrowed while another borrow of it is alive**, so that the call does not
panic. -/
def BorrowsFree (self : Ring) (operationId count : ℕ) (waitFail tryFail : Option SaferRingError) :
    Prop :=
  self.tryCompleteByIdBorrowing operationId count waitFail tryFail ≠ .panicked

/-- **The backend is borrowed twice at a time exactly when the operation is not cached, the call is
the 52nd or a later one, and the wait fails.** -/
theorem borrowsFree_iff (self : Ring) (id count : ℕ) (waitFail tryFail : Option SaferRingError) :
    self.BorrowsFree id count waitFail tryFail ↔
      (self.cached id).isSome ∨ count ≤ 50 ∨ waitFail = none := by
  rw [BorrowsFree, tryCompleteByIdBorrowing_eq]
  rcases hcached : self.cached id with _ | res
  swap
  · rw [tryCompleteById_of_cached hcached]
    exact iff_of_true (by simp) (Or.inl rfl)
  by_cases hcount : count > 50
  · rw [if_pos hcount, tryCompleteById_of_gt hcached hcount]
    rcases waitFail with _ | e
    · refine iff_of_true ?_ (Or.inr (Or.inr rfl))
      dsimp only
      split <;> simp
    · exact iff_of_false (not_not.mpr rfl) (by simp [hcount])
  · have hle : count ≤ 50 := Nat.le_of_not_lt hcount
    rw [if_neg hcount, tryCompleteById_of_le hcached hle]
    exact iff_of_true (by simp) (Or.inr (Or.inl hle))

/-- What a wait answers when nothing is in flight. -/
def nothingToWaitFor : SaferRingError := .ioNew .invalidInput "No operations in flight to wait for"

/-- **Asked for an operation it does not know, an idle ring panics from the 52nd call on**, where
it answered before. -/
theorem not_borrowsFree_idle :
    new.tryCompleteByIdBorrowing 999 50 (some nothingToWaitFor) none =
        .returned (.ok none, new) ∧
      new.tryCompleteByIdBorrowing 999 51 (some nothingToWaitFor) none = .panicked ∧
      ¬new.BorrowsFree 999 51 (some nothingToWaitFor) none :=
  ⟨rfl, rfl, fun h => h rfl⟩

/-! ### What was asked before -/

/-- **Two runs that differ in the calls made before agree**: they answer the same and leave the same
ring, or both block or panic. -/
def HistoryIndependent (self : Ring) (operationId calls calls' : ℕ)
    (waitFail tryFail : Option SaferRingError) : Prop :=
  self.tryCompleteByIdBorrowing operationId (pollCount calls) waitFail tryFail =
    self.tryCompleteByIdBorrowing operationId (pollCount calls') waitFail tryFail

/-- **The calls on both sides of the bound agree** only where a completion is there and no call of
the backend fails. -/
theorem tryCompleteById_sides {few many : ℕ} (hcached : self.cached id = none) (hfew : few ≤ 50)
    (hmany : many > 50) :
    self.tryCompleteById id few tryFail = self.tryCompleteById id many waitFail ↔
      waitFail = none ∧ tryFail = none ∧ self.backend.ready ≠ [] := by
  rw [tryCompleteById_of_le hcached hfew, tryCompleteById_of_gt hcached hmany]
  rcases waitFail with _ | e
  swap
  · exact iff_of_false (by simp) (by simp)
  by_cases hready : self.backend.ready = []
  · simp only [if_pos hready]
    exact iff_of_false (by simp) (by simp [hready])
  · simp only [if_neg hready]
    rcases tryFail with _ | e
    · simp [hready]
    · simp

/-- **What was asked before, of whatever ring, does not matter exactly when** the operation is
cached, the counter is on the same side of its bound in both runs, or a completion is there and
neither call of the backend fails. -/
theorem historyIndependent_iff (self : Ring) (id calls calls' : ℕ)
    (waitFail tryFail : Option SaferRingError) :
    self.HistoryIndependent id calls calls' waitFail tryFail ↔
      (self.cached id).isSome ∨ (pollCount calls ≤ 50 ↔ pollCount calls' ≤ 50) ∨
        waitFail = none ∧ tryFail = none ∧ self.backend.ready ≠ [] := by
  rw [HistoryIndependent, tryCompleteByIdBorrowing_eq, tryCompleteByIdBorrowing_eq]
  rcases hcached : self.cached id with _ | res
  swap
  · rw [tryCompleteById_of_cached hcached, tryCompleteById_of_cached hcached]
    exact iff_of_true rfl (Or.inl rfl)
  rw [Option.isSome_none, or_iff_right Bool.false_ne_true]
  by_cases hcount : pollCount calls > 50
  · by_cases hcount' : pollCount calls' > 50
    · rw [if_pos hcount, if_pos hcount', tryCompleteById_of_gt hcached hcount,
        tryCompleteById_of_gt hcached hcount']
      exact iff_of_true rfl
        (Or.inl (iff_of_false (Nat.not_le.mpr hcount) (Nat.not_le.mpr hcount')))
    · have hle := Nat.le_of_not_lt hcount'
      rw [if_pos hcount, if_neg hcount', eq_comm, tryCompleteById_sides hcached hle hcount,
        or_iff_right fun h => Nat.not_le.mpr hcount (h.mpr hle)]
  · have hle := Nat.le_of_not_lt hcount
    by_cases hcount' : pollCount calls' > 50
    · rw [if_neg hcount, if_pos hcount', tryCompleteById_sides hcached hle hcount',
        or_iff_right fun h => Nat.not_le.mpr hcount' (h.mp hle)]
    · have hle' := Nat.le_of_not_lt hcount'
      rw [if_neg hcount, if_neg hcount', tryCompleteById_of_le hcached hle,
        tryCompleteById_of_le hcached hle']
      exact iff_of_true rfl (Or.inl (iff_of_true hle hle'))

/-- The error of a system call that was interrupted. -/
def interrupted : SaferRingError := .ioNew .interrupted "interrupted"

/-- A ring that a read was submitted to. -/
def reading : Ring := (new.submit ⟨.pinned ⟨4096, 8⟩, .raw 3, 0, .read, ⟨⟩⟩ (.ok ())).2

/-- **An idle ring answers the first call in the process, and panics at the 52nd; with a read in
flight, the first call answers and the 52nd blocks.** An error of the backend is passed on by the
first call only. -/
theorem not_historyIndependent_idle :
    ¬new.HistoryIndependent 999 0 51 (some nothingToWaitFor) none ∧
      reading.tryCompleteByIdBorrowing 1 (pollCount 0) none none = .returned (.ok none, reading) ∧
      reading.tryCompleteByIdBorrowing 1 (pollCount 51) none none = .blocked ∧
      reading.tryCompleteByIdBorrowing 1 (pollCount 0) none (some interrupted) =
        .returned (.error interrupted, reading) ∧
      reading.tryCompleteByIdBorrowing 1 (pollCount 51) none (some interrupted) = .blocked := by
  refine ⟨fun h => ?_, rfl, rfl, rfl, rfl⟩
  have hrun : new.tryCompleteByIdBorrowing 999 0 (some nothingToWaitFor) none = .panicked := h
  have hfirst : new.tryCompleteByIdBorrowing 999 0 (some nothingToWaitFor) none =
      .returned (.ok none, new) := rfl
  exact absurd (hfirst.symm.trans hrun) (by simp)

end Ring

end SaferRing
