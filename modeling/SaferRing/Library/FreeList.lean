import Mathlib.Data.List.Nodup
import Mathlib.Data.List.Perm.Basic

/-!
# Free lists

A free list hands out what it has, from the front, and takes it back, to the end. With it goes
who has what was handed out. The two together are all there is (`FreeList.Parted`), as long as
what is given back was handed out; and then nothing is free twice, or held twice, or free and
held (`FreeList.Exclusive`). What is given back by somebody who does not have it breaks that at
once (`FreeList.Parted.not_exclusive_stray`).
-/

/-- **A free list**, with what was handed out. -/
structure FreeList (α : Type*) where
  /-- What is free, the next one first. -/
  free : List α
  /-- What was handed out, and not given back. -/
  held : List α

namespace FreeList

variable {α : Type*} {all free held : List α} {a : α} {t : FreeList α} {h : ℕ}

/-- A holder gives back what it has. -/
def giveBack (t : FreeList α) (h : ℕ) (a : α) : FreeList α := ⟨t.free ++ [a], t.held.eraseIdx h⟩

/-- Somebody gives back what it does not have. -/
def stray (t : FreeList α) (a : α) : FreeList α := { t with free := t.free ++ [a] }

/-- **What is free and what is held are all there is.** -/
def Parted (all : List α) (t : FreeList α) : Prop := (t.free ++ t.held).Perm all

/-- **Nothing is in two places.** -/
def Exclusive (t : FreeList α) : Prop := (t.free ++ t.held).Nodup

theorem parted_new (all : List α) : Parted all ⟨all, []⟩ := by
  rw [Parted, List.append_nil]

/-- What is taken from the front is held. -/
theorem Parted.take (ht : Parted all ⟨a :: free, held⟩) : Parted all ⟨free, held ++ [a]⟩ := by
  refine List.Perm.trans ?_ ht
  rw [← List.append_assoc, List.cons_append]
  exact List.perm_append_singleton a (free ++ held)

/-- What a holder gives back is free. -/
theorem Parted.giveBack (ht : Parted all t) (ha : t.held[h]? = some a) :
    Parted all (t.giveBack h a) := by
  obtain ⟨hlt, rfl⟩ := List.getElem?_eq_some_iff.mp ha
  refine List.Perm.trans ?_ ht
  rw [FreeList.giveBack, List.append_assoc, List.singleton_append]
  exact (List.getElem_cons_eraseIdx_perm hlt).append_left t.free

/-- Nothing is in two places of what was distinct. -/
theorem Parted.exclusive (ht : Parted all t) (hall : all.Nodup) : t.Exclusive :=
  ht.nodup_iff.mpr hall

/-- There is no more free than there is. -/
theorem Parted.length_le (ht : Parted all t) : t.free.length ≤ all.length := by
  rw [← ht.length_eq, List.length_append]
  exact Nat.le_add_right _ _

/-- **What is given back and was not held is in two places**: it was free, or is held by
another. -/
theorem Parted.not_exclusive_stray (ht : Parted all t) (ha : a ∈ all) :
    ¬(t.stray a).Exclusive := by
  intro hexclusive
  have hmem : a ∈ t.free ++ t.held := ht.mem_iff.mpr ha
  rw [Exclusive, stray, List.append_assoc, List.singleton_append] at hexclusive
  exact (List.nodup_middle.mp hexclusive).notMem hmem

end FreeList
