import Mathlib.Tactic.TypeStar

/-!
# Cells that check borrows when they run

A cell lends what it holds to one borrower at a time. Who asks for it while it is lent is
turned away (`RefCell.borrowMut`), which is when a program panics; the borrow ends when its guard
is dropped (`RefCell.release`). One use after the other is never turned away
(`RefCell.use_new`), and a use within another always is (`RefCell.borrowMut_write`).
-/

/-- **A cell**, with the one borrow of it there may be. -/
structure RefCell (α : Type*) where
  /-- What it holds. -/
  value : α
  /-- Whether a borrow of it is alive. -/
  borrowed : Bool
  deriving DecidableEq, Repr

namespace RefCell

variable {α β : Type*}

/-- A cell nobody has borrowed. -/
def new (value : α) : RefCell α := ⟨value, false⟩

variable (self : RefCell α)

/-- **Borrow a cell**: what it holds, and the cell while the borrow is alive; `none` when another
one is. -/
def borrowMut : Option (α × RefCell α) :=
  if self.borrowed then none else some (self.value, ⟨self.value, true⟩)

/-- Write to a cell through the guard of its borrow. -/
def write (value : α) : RefCell α := ⟨value, self.borrowed⟩

/-- Drop the guard. -/
def release : RefCell α := ⟨self.value, false⟩

/-- **Borrow a cell for one call**: the guard is dropped when it returns. -/
def use (f : α → β × α) : Option (β × RefCell α) :=
  self.borrowMut.map fun (guard, cell) => ((f guard).1, (cell.write (f guard).2).release)

@[simp] theorem borrowMut_new (value : α) :
    (new value).borrowMut = some (value, ⟨value, true⟩) := rfl

/-- **What is lent is lent to nobody else**, whatever is written to it. -/
@[simp] theorem borrowMut_write (value written : α) :
    ((⟨value, true⟩ : RefCell α).write written).borrowMut = none := rfl

/-- **A call that finds the cell free leaves it free.** -/
@[simp] theorem use_new (value : α) (f : α → β × α) :
    (new value).use f = some ((f value).1, new (f value).2) := rfl

end RefCell
