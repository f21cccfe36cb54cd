import Mathlib.Algebra.Ring.Nat
import Mathlib.Data.Finset.Basic
import Mathlib.Data.List.Basic

/-!
# Tables of slots with marks

A table holds things in slots, which are addressed by indices of 32 bits, and a set of the
indices that are marked, as being in use. What can be done to it is a `SlotTable.Move`.

Somebody who moves only as is allowed (`SlotTable.Move.Allowed`: a marked slot is not emptied,
an empty one is not marked) keeps the table sound, in that what is marked is filled
(`SlotTable.Sound.move`). That does not yet keep a mark and what is in its slot: the moves
that do not are `SlotTable.Spoils`, and `SlotTable.keeps_iff` says that there are no others.

A table that has not run out of indices is a finite map, whose entries `SlotTable.Lists` gives as
a list: what is added goes to an index of its own (`SlotTable.Lists.add`), and what is taken out
leaves all other entries (`SlotTable.Lists.take`).
-/

/-- **A table of slots**, some of which are marked. -/
structure SlotTable (α : Type*) where
  /-- The slots, filled or not. -/
  slots : List (Option α)
  /-- The indices that are marked. -/
  inUse : Finset UInt32

namespace SlotTable

variable {α : Type*} (t : SlotTable α) (i j : UInt32) (a : α)

/-- A table without slots. -/
def empty : SlotTable α := ⟨[], ∅⟩

/-- What is in a slot; there is nothing in one that does not exist. -/
def get : Option α := t.slots[i.toNat]?.join

/-- The position of the first slot that is not filled, or, when all are, of a new one. -/
def firstFree : ℕ := t.slots.findIdx Option.isNone

/-- Its index, which is the position cut to 32 bits. -/
def nextIndex : UInt32 := UInt32.ofNat t.firstFree

/-- Fill the slot at the next index; a slot is added when all are filled. -/
def add : SlotTable α :=
  let slots := if t.firstFree < t.slots.length then t.slots else t.slots ++ [none]
  { t with slots := slots.set t.nextIndex.toNat (some a) }

/-- Empty a slot. -/
def take : SlotTable α := { t with slots := t.slots.set i.toNat none }

/-- Mark an index. -/
def mark : SlotTable α := { t with inUse := insert i t.inUse }

/-- Take the mark of an index away. -/
def unmark : SlotTable α := { t with inUse := t.inUse.erase i }

/-- Start over, with slots that are all filled. -/
def replace (as : List α) : SlotTable α := ⟨as.map some, ∅⟩

/-- Drop all slots. -/
def clear : SlotTable α := { t with slots := [] }

/-! ### Moves -/

/-- **What can be done to a table.** -/
inductive Move (α : Type*)
  /-- Fill the slot at the next index. -/
  | add (a : α)
  /-- Empty a slot. -/
  | take (i : UInt32)
  /-- Mark an index. -/
  | mark (i : UInt32)
  /-- Take a mark away. -/
  | unmark (i : UInt32)
  /-- Start over. -/
  | replace (as : List α)
  /-- Drop all slots. -/
  | clear

/-- Make a move. -/
def move : Move α → SlotTable α
  | .add a => t.add a
  | .take i => t.take i
  | .mark i => t.mark i
  | .unmark i => t.unmark i
  | .replace as => replace as
  | .clear => t.clear

/-- **The moves that are allowed**: what is marked is not emptied, and what is empty is not
marked. -/
def Move.Allowed (t : SlotTable α) : Move α → Prop
  | .take i => i ∉ t.inUse
  | .mark i => (t.get i).isSome
  | .clear => t.inUse = ∅
  | _ => True

/-- **What is marked is filled.** -/
def Sound : Prop := ∀ i ∈ t.inUse, (t.get i).isSome

/-- **A mark is kept**, and what is in its slot. -/
def Keeps (t' : SlotTable α) : Prop := i ∈ t'.inUse ∧ t'.get i = t.get i

/-- **The moves that do not keep a mark**: what was in the slot is written over, or all is, or
the mark is taken away. -/
def Spoils : Move α → Prop
  | .add a => t.nextIndex = i ∧ t.get i ≠ some a
  | .unmark j => j = i
  | .replace _ => True
  | _ => False

variable {t i j a}

theorem sound_empty : (empty : SlotTable α).Sound :=
  fun i hi => absurd hi (Finset.notMem_empty i)

/-- A slot that is added is not filled. -/
theorem join_getElem?_concat (slots : List (Option α)) (n : ℕ) :
    (slots ++ [none])[n]?.join = slots[n]?.join := by
  rcases Nat.lt_trichotomy n slots.length with hlt | rfl | hgt
  · rw [List.getElem?_append_left hlt]
  · rw [List.getElem?_concat_length, List.getElem?_eq_none (le_refl _)]
    rfl
  · rw [List.getElem?_eq_none (by rw [List.length_append]; exact hgt),
      List.getElem?_eq_none hgt.le]

/-- **What is in the slots once one was filled.** -/
theorem get_add : (t.add a).get i = if t.nextIndex = i then some a else t.get i := by
  have hindex : t.nextIndex.toNat ≤ t.firstFree := by
    rw [nextIndex, UInt32.toNat_ofNat']
    exact Nat.mod_le _ _
  have hle : t.firstFree ≤ t.slots.length := List.findIdx_le_length
  rw [get, add]
  by_cases hi : t.nextIndex = i
  · rw [if_pos hi, hi, List.getElem?_set_self]
    · rfl
    · rw [← hi]
      split
      · omega
      · rw [List.length_append, List.length_singleton]
        omega
  · have hne : t.nextIndex.toNat ≠ i.toNat := fun h => hi (UInt32.toNat_inj.mp h)
    rw [if_neg hi, List.getElem?_set_ne hne]
    split
    · rfl
    · exact join_getElem?_concat _ _

/-- What is in the slots once one was emptied. -/
theorem get_take : (t.take i).get j = if i = j then none else t.get j := by
  rw [get, take]
  by_cases hi : i = j
  · rw [if_pos hi, hi, List.getElem?_set_self']
    cases t.slots[j.toNat]? <;> rfl
  · have hne : i.toNat ≠ j.toNat := fun h => hi (UInt32.toNat_inj.mp h)
    rw [if_neg hi, List.getElem?_set_ne hne]
    rfl

/-- There is nothing at the first position that is free. -/
theorem join_getElem?_firstFree : t.slots[t.firstFree]?.join = none := by
  rw [firstFree]
  by_cases hlt : t.slots.findIdx Option.isNone < t.slots.length
  · have hnone := List.findIdx_getElem (w := hlt)
    rw [List.getElem?_eq_getElem hlt, Option.isNone_iff_eq_none.mp hnone]
    rfl
  · rw [List.getElem?_eq_none (Nat.le_of_not_lt hlt)]
    rfl

/-- A position of 32 bits is not cut. -/
theorem toNat_nextIndex (h : t.slots.length < 2 ^ 32) : t.nextIndex.toNat = t.firstFree := by
  have hle : t.firstFree ≤ t.slots.length := List.findIdx_le_length
  rw [nextIndex, UInt32.toNat_ofNat']
  exact Nat.mod_eq_of_lt (by omega)

/-- There is nothing at the next index. -/
theorem get_nextIndex (h : t.slots.length < 2 ^ 32) : t.get t.nextIndex = none := by
  rw [get, toNat_nextIndex h, join_getElem?_firstFree]

/-- **A marked slot is written over only in a table of `2 ^ 32` slots**, by a position that is
cut. -/
theorem Sound.two_pow_le (h : t.Sound) (hi : t.nextIndex ∈ t.inUse) :
    2 ^ 32 ≤ t.slots.length := by
  by_contra hlt
  have hfilled := h _ hi
  rw [get_nextIndex (Nat.lt_of_not_le hlt)] at hfilled
  exact absurd hfilled (by simp)

/-- **An allowed move keeps a table sound.** -/
theorem Sound.move (h : t.Sound) {m : Move α} (hm : m.Allowed t) : (t.move m).Sound := by
  intro i hi
  cases m with
  | add a =>
    rw [SlotTable.move, get_add]
    split
    · rfl
    · exact h i hi
  | take j =>
    have hne : j ≠ i := fun hji => hm (hji ▸ hi)
    rw [SlotTable.move, get_take, if_neg hne]
    exact h i hi
  | mark j =>
    rcases Finset.mem_insert.mp hi with rfl | hi
    · exact hm
    · exact h i hi
  | unmark j => exact h i (Finset.mem_of_mem_erase hi)
  | replace as => exact absurd hi (Finset.notMem_empty i)
  | clear => exact absurd (hm ▸ hi) (Finset.notMem_empty i)

/-- **An allowed move keeps a mark exactly when it does not spoil it.** -/
theorem keeps_iff (hi : i ∈ t.inUse) {m : Move α} (hm : m.Allowed t) :
    t.Keeps i (t.move m) ↔ ¬t.Spoils i m := by
  cases m with
  | add a =>
    simp only [Keeps, SlotTable.move, get_add, Spoils, not_and, not_not]
    have hmark : i ∈ (t.add a).inUse := hi
    by_cases hnext : t.nextIndex = i
    · rw [if_pos hnext]
      exact ⟨fun h _ => h.2.symm, fun h => ⟨hmark, (h hnext).symm⟩⟩
    · rw [if_neg hnext]
      exact ⟨fun _ h => absurd h hnext, fun _ => ⟨hmark, rfl⟩⟩
  | take j =>
    have hne : j ≠ i := fun hji => hm (hji ▸ hi)
    refine iff_of_true ⟨hi, ?_⟩ not_false
    rw [SlotTable.move, get_take, if_neg hne]
  | mark j => exact iff_of_true ⟨Finset.mem_insert_of_mem hi, rfl⟩ not_false
  | unmark j =>
    constructor
    · rintro ⟨hmark, -⟩ rfl
      exact absurd rfl (Finset.ne_of_mem_erase hmark)
    · exact fun hne => ⟨Finset.mem_erase.mpr ⟨fun h => hne h.symm, hi⟩, rfl⟩
  | replace as =>
    exact iff_of_false (fun h => absurd h.1 (Finset.notMem_empty i)) fun h => h trivial
  | clear => exact absurd (hm ▸ hi) (Finset.notMem_empty i)

/-! ### Entries -/

/-- The number of slots that are filled. -/
def count (t : SlotTable α) : ℕ := t.slots.countP Option.isSome

/-- **The entries of a table**: what is in it, each at an index of its own. -/
structure Lists (t : SlotTable α) (entries : List (UInt32 × α)) : Prop where
  /-- The indices are distinct. -/
  nodup : (entries.map Prod.fst).Nodup
  /-- Each entry is in its slot, and there is nothing in another. -/
  mem_iff : ∀ i a, (i, a) ∈ entries ↔ t.get i = some a
  /-- Each entry is counted. -/
  count_eq : t.count = entries.length

variable {entries : List (UInt32 × α)} {t' : SlotTable α}

theorem lists_empty : (empty : SlotTable α).Lists [] :=
  ⟨List.nodup_nil, fun _ _ => iff_of_false List.not_mem_nil (by simp [get, empty]), rfl⟩

/-- Marks are no entries. -/
theorem Lists.of_slots (h : t.Lists entries) (hslots : t'.slots = t.slots) :
    t'.Lists entries := by
  refine ⟨h.nodup, fun i a => ?_, ?_⟩
  · rw [get, hslots]
    exact h.mem_iff i a
  · rw [count, hslots]
    exact h.count_eq

/-- No slot goes away when one is filled. -/
theorem length_le_add : t.slots.length ≤ (t.add a).slots.length := by
  rw [add, List.length_set]
  split
  · exact le_refl _
  · rw [List.length_append]
    exact Nat.le_add_right _ _

/-- No slot goes away when one is emptied. -/
theorem length_take : (t.take i).slots.length = t.slots.length := by
  rw [take, List.length_set]

/-- A slot more is filled. -/
theorem count_add (h : t.slots.length < 2 ^ 32) : (t.add a).count = t.count + 1 := by
  -- the slots, with the one that is added
  obtain ⟨slots, hslots, hcount, hlt, hnone⟩ : ∃ slots : List (Option α),
      (t.add a).slots = slots.set t.firstFree (some a) ∧
      slots.countP Option.isSome = t.count ∧ ∃ hlt : t.firstFree < slots.length,
      slots[t.firstFree] = none := by
    rw [add, toNat_nextIndex h]
    by_cases hfree : t.firstFree < t.slots.length
    · refine ⟨t.slots, by rw [if_pos hfree], rfl, hfree, ?_⟩
      exact Option.isNone_iff_eq_none.mp (List.findIdx_getElem (w := hfree))
    · have hlast : t.firstFree = t.slots.length :=
        Nat.le_antisymm List.findIdx_le_length (Nat.le_of_not_lt hfree)
      refine ⟨t.slots ++ [none], by rw [if_neg hfree], ?_, ?_, ?_⟩
      · simp [count, List.countP_append]
      · simp [hlast]
      · simp [hlast]
  rw [count, hslots, List.countP_set hlt, hcount, hnone]
  rfl

/-- A slot less is filled. -/
theorem count_take (h : t.get i = some a) : (t.take i).count + 1 = t.count := by
  obtain ⟨hlt, hi⟩ : ∃ hlt : i.toNat < t.slots.length, t.slots[i.toNat] = some a := by
    rw [get, Option.join_eq_some_iff] at h
    exact List.getElem?_eq_some_iff.mp h
  have hpos : 0 < t.slots.countP Option.isSome :=
    List.countP_pos_iff.mpr ⟨some a, hi ▸ List.getElem_mem hlt, rfl⟩
  rw [count, take, List.countP_set hlt, hi, count]
  simp only [Option.isSome_some, Option.isSome_none, if_true, Bool.false_eq_true, if_false]
  omega

/-- **What is added goes to an index of its own.** -/
theorem Lists.add (h : t.Lists entries) (hlen : t.slots.length < 2 ^ 32) :
    (t.add a).Lists ((t.nextIndex, a) :: entries) := by
  have hfresh : t.nextIndex ∉ entries.map Prod.fst := by
    intro hmem
    obtain ⟨⟨i, b⟩, hb, rfl⟩ := List.mem_map.mp hmem
    exact absurd ((h.mem_iff _ b).mp hb) (by simp [get_nextIndex hlen])
  refine ⟨List.nodup_cons.mpr ⟨hfresh, h.nodup⟩, fun i b => ?_, ?_⟩
  · rw [get_add, List.mem_cons, Prod.mk.injEq]
    by_cases hi : t.nextIndex = i
    · rw [if_pos hi, Option.some.injEq]
      refine ⟨?_, fun hab => Or.inl ⟨hi.symm, hab.symm⟩⟩
      rintro (⟨-, rfl⟩ | hb)
      · rfl
      · exact absurd (List.mem_map_of_mem (f := Prod.fst) hb) (hi ▸ hfresh)
    · rw [if_neg hi, ← h.mem_iff]
      exact or_iff_right fun hb => hi hb.1.symm
  · rw [count_add hlen, h.count_eq, List.length_cons]

/-- **What is taken out leaves all other entries.** -/
theorem Lists.take (h : t.Lists entries) (hi : t.get i = some a) :
    (t.take i).Lists (entries.filter fun e => e.1 ≠ i) := by
  have hmem : (i, a) ∈ entries := (h.mem_iff i a).mpr hi
  refine ⟨h.nodup.sublist (List.filter_sublist.map _), fun j b => ?_, ?_⟩
  · rw [List.mem_filter, get_take, h.mem_iff]
    by_cases hj : i = j
    · simp [hj]
    · simp [hj, Ne.symm hj]
  · -- the entry at the index is the one that is left out
    have hone : entries.countP (fun e => e.1 == i) = 1 := by
      have hcount := List.count_eq_one_of_mem h.nodup (List.mem_map_of_mem (f := Prod.fst) hmem)
      rwa [List.count, List.countP_map] at hcount
    have hlen := List.length_eq_countP_add_countP (fun e : UInt32 × α => e.1 == i) (l := entries)
    have hcount := count_take hi
    rw [h.count_eq, hlen, hone] at hcount
    rw [← List.countP_eq_length_filter]
    simp only [beq_iff_eq] at hcount
    simp only [ne_eq]
    omega

end SlotTable
