import Mathlib.Order.Bounds.Basic
import Mathlib.Order.MinMax
import SaferRing.Library.Run

/-!
# Raising a shared cell by compare-exchange

Several tasks share a cell whose values are linearly ordered. Each has a value to offer, and runs
the loop that is common for this: read the cell, and as long as what was read is smaller than the
value, try to exchange the one for the other; when the exchange fails, it tells what the cell
holds, and the loop goes on.

The memory is a relaxed one: an exchange that succeeds acts on the last value of the cell, but a
read, and an exchange that fails, may see any value the cell ever held
(`CompareExchange.Cell.Held`), and an exchange may fail for no reason.

* `CompareExchange.Bounded.value_eq` – once every offer is settled, **the cell holds the greatest
  of its first value and all values offered**, whatever the order of the steps;
* `CompareExchange.Paid.le` – where reads are up to date and no exchange fails for no reason, an
  offer makes at most one access more than there are values stored, and no more are stored than are
  offered (`CompareExchange.Accounted.le`).

For the least value, take the order dual.
-/

namespace CompareExchange

open Transition (Move Run)

variable {α : Type*}

/-! ### The cell and the loop -/

/-- **A shared cell**: its value, and those it had before, the last first. -/
structure Cell (α : Type*) where
  /-- The value. -/
  value : α
  /-- The values it had before. -/
  past : List α
  deriving DecidableEq, Repr

namespace Cell

/-- A value that a read of the cell may see. -/
def Held (cell : Cell α) (x : α) : Prop := x = cell.value ∨ x ∈ cell.past

instance [DecidableEq α] (cell : Cell α) (x : α) : Decidable (cell.Held x) :=
  inferInstanceAs (Decidable (x = cell.value ∨ x ∈ cell.past))

/-- Put another value in a cell. -/
def store (cell : Cell α) (x : α) : Cell α := ⟨x, cell.value :: cell.past⟩

@[simp] theorem value_store (cell : Cell α) (x : α) : (cell.store x).value = x := rfl

@[simp] theorem past_store (cell : Cell α) (x : α) :
    (cell.store x).past = cell.value :: cell.past := rfl

end Cell

/-- **Where a task is** with the value it offers. -/
inductive Offer (α : Type*)
  /-- It has not read the cell. -/
  | fresh (v : α)
  /-- It has seen a value, and tries to exchange it. -/
  | swapping (v seen : α)
  /-- It is done. -/
  | settled (v : α)
  deriving DecidableEq, Repr

namespace Offer

/-- The value offered. -/
def value : Offer α → α
  | fresh v => v
  | swapping v _ => v
  | settled v => v

@[simp] theorem value_fresh (v : α) : (fresh v).value = v := rfl

@[simp] theorem value_swapping (v seen : α) : (swapping v seen).value = v := rfl

@[simp] theorem value_settled (v : α) : (settled v).value = v := rfl

/-- Whether the task is done. -/
def isSettled : Offer α → Bool
  | settled _ => true
  | _ => false

theorem eq_settled {o : Offer α} (h : o.isSettled = true) : o = settled o.value := by
  cases o with
  | settled v => rfl
  | _ => exact absurd h (by simp [isSettled])

variable [LinearOrder α]

/-- **The head of the loop**: go on as long as what was seen is smaller than the value. -/
def resume (v seen : α) : Offer α := if seen < v then swapping v seen else settled v

/-- **One access of a task to the cell**: a read, or an exchange, which may be `spurious`ly
refused. What is `seen` is what a read sees, or an exchange that fails. -/
def advance (cell : Cell α) (seen : α) (spurious : Bool) : Offer α → Option (Cell α × Offer α)
  | fresh v => if cell.Held seen then some (cell, resume v seen) else none
  | swapping v expected =>
    if cell.value = expected ∧ spurious = false then some (cell.store v, settled v)
    else if cell.Held seen then some (cell, resume v seen)
    else none
  | settled _ => none

@[simp] theorem value_resume (v seen : α) : (resume v seen).value = v := by
  unfold resume
  split <;> rfl

/-- **What an access can do**: see a value and go back to the head of the loop, or exchange what
the cell holds for the value. -/
theorem advance_cases {cell cell' : Cell α} {seen : α} {spurious : Bool} {o o' : Offer α}
    (h : o.advance cell seen spurious = some (cell', o')) :
    (cell.Held seen ∧ cell' = cell ∧ o' = resume o.value seen ∧
        ∀ v, o = swapping v cell.value → spurious = true) ∨
      ∃ v, o = swapping v cell.value ∧ cell' = cell.store v ∧ o' = settled v := by
  cases o with
  | fresh v =>
    rw [advance, Option.ite_none_right_eq_some] at h
    obtain ⟨hheld, h⟩ := h
    obtain ⟨rfl, rfl⟩ := Prod.mk.inj (Option.some.inj h)
    exact Or.inl ⟨hheld, rfl, rfl, fun _ hv => absurd hv (by simp)⟩
  | swapping v expected =>
    rw [advance] at h
    split at h
    · rename_i hgo
      obtain ⟨rfl, rfl⟩ := Prod.mk.inj (Option.some.inj h)
      exact Or.inr ⟨v, by rw [hgo.1], rfl, rfl⟩
    · rename_i hnot
      rw [Option.ite_none_right_eq_some] at h
      obtain ⟨hheld, h⟩ := h
      obtain ⟨rfl, rfl⟩ := Prod.mk.inj (Option.some.inj h)
      refine Or.inl ⟨hheld, rfl, rfl, ?_⟩
      rintro _ hv
      injection hv with _ hexpected
      exact (Bool.eq_false_or_eq_true spurious).resolve_right fun hs => hnot ⟨hexpected.symm, hs⟩
  | settled v => exact absurd h (by simp [advance])

/-- A task that is not done can go on, whatever the cell holds. -/
theorem isSome_advance (cell : Cell α) (spurious : Bool) {o : Offer α} (h : o.isSettled = false) :
    (o.advance cell cell.value spurious).isSome = true := by
  have hheld : cell.Held cell.value := Or.inl rfl
  cases o with
  | fresh v => rw [advance, if_pos hheld, Option.isSome_some]
  | swapping v expected =>
    rw [advance, if_pos hheld]
    split <;> rfl
  | settled v => exact absurd h (by simp [isSettled])

/-- An access leaves the value offered alone. -/
theorem value_advance {cell cell' : Cell α} {seen : α} {spurious : Bool} {o o' : Offer α}
    (h : o.advance cell seen spurious = some (cell', o')) : o'.value = o.value := by
  rcases advance_cases h with ⟨-, -, rfl, -⟩ | ⟨v, rfl, -, rfl⟩
  · exact value_resume _ _
  · rfl

end Offer

/-! ### Tasks that share a cell -/

/-- A cell, and what is offered to it, in the order of the offers. -/
structure Shared (α : Type*) where
  /-- The cell. -/
  cell : Cell α
  /-- The offers. -/
  offers : List (Offer α)
  deriving DecidableEq, Repr

/-- What can happen: another task offers a value, or one that is there makes an access. -/
inductive Label (α : Type*)
  /-- A value is offered. -/
  | offer (v : α)
  /-- An offer makes its next access. -/
  | access (i : ℕ) (seen : α) (spurious : Bool)
  deriving DecidableEq, Repr

/-- A cell nobody has offered anything to. -/
def Shared.new (x : α) : Shared α := ⟨⟨x, []⟩, []⟩

/-- The values offered. -/
def Shared.values (s : Shared α) : List α := s.offers.map Offer.value

/-- Whether all tasks are done. -/
def Shared.Settled (s : Shared α) : Prop := ∀ o ∈ s.offers, o.isSettled = true

/-- What is in a list after one entry was replaced is the new entry, or was there before. -/
private theorem mem_set_cases {o o' : Offer α} {i : ℕ} {os : List (Offer α)}
    (h : o ∈ os.set i o') : o = o' ∨ o ∈ os :=
  (List.mem_or_eq_of_mem_set h).symm

/-- An entry is replaced by one that looks the same. -/
theorem map_set_of_eq {β γ : Type*} {f : β → γ} {l : List β} {i : ℕ} {a b : β}
    (hi : l[i]? = some a) (hf : f b = f a) : (l.set i b).map f = l.map f := by
  obtain ⟨hlt, rfl⟩ := List.getElem?_eq_some_iff.mp hi
  have hlt' : i < (l.map f).length := by simpa using hlt
  have hget : (l.map f)[i] = f l[i] := List.getElem_map f
  rw [List.map_set, hf, ← hget, List.set_getElem_self hlt']

section System

variable [LinearOrder α]

/-- **The steps of the system.** -/
inductive Step : Shared α → Label α → Shared α → Prop
  /-- A value is offered. -/
  | offer (s : Shared α) (v : α) : Step s (.offer v) ⟨s.cell, s.offers ++ [.fresh v]⟩
  /-- An offer makes its next access. -/
  | access {s : Shared α} {i : ℕ} {o o' : Offer α} {cell : Cell α} {seen : α} {spurious : Bool} :
      s.offers[i]? = some o → o.advance s.cell seen spurious = some (cell, o') →
      Step s (.access i seen spurious) ⟨cell, s.offers.set i o'⟩

/-- **The cell is bounded by its offers**: it holds its first value or one offered, and neither
what it held before, nor what was offered by a task that is done, is greater. A task that tries
to exchange a value has a greater one to offer. -/
structure Bounded (x : α) (s : Shared α) : Prop where
  /-- The first value is not greater. -/
  first : x ≤ s.cell.value
  /-- Nor are the values before. -/
  past : ∀ y ∈ s.cell.past, y ≤ s.cell.value
  /-- Nor is what is settled. -/
  settled : ∀ v, .settled v ∈ s.offers → v ≤ s.cell.value
  /-- What is exchanged is smaller than what for. -/
  swapping : ∀ v seen, .swapping v seen ∈ s.offers → seen < v
  /-- The value comes from somewhere. -/
  source : s.cell.value = x ∨ s.cell.value ∈ s.values

variable {x : α} {s t : Shared α} {l : Label α}

theorem Bounded.new (x : α) : Bounded x (Shared.new x) := by
  refine ⟨le_refl x, ?_, ?_, ?_, Or.inl rfl⟩
  all_goals simp [Shared.new]

/-- What was read is not greater than the value. -/
theorem Bounded.le_of_held (h : Bounded x s) {y : α} (hy : s.cell.Held y) : y ≤ s.cell.value :=
  hy.elim le_of_eq (h.past y)

/-- **Every step keeps the cell bounded.** -/
theorem Bounded.step (h : Bounded x s) (hstep : Step s l t) : Bounded x t := by
  cases hstep with
  | offer v =>
    refine ⟨h.first, h.past, fun w hw => h.settled w ?_, fun w seen hw => h.swapping w seen ?_,
      h.source.imp_right fun hv => ?_⟩
    · simpa using hw
    · simpa using hw
    · rw [Shared.values, List.map_append]
      exact List.mem_append_left _ hv
  | @access i o o' cell seen spurious hi hadvance =>
    rcases Offer.advance_cases hadvance with ⟨hheld, rfl, rfl, -⟩ | ⟨v, rfl, rfl, rfl⟩
    · -- the cell stays as it is; the task goes on, or has seen what is not smaller
      have hseen := h.le_of_held hheld
      refine ⟨h.first, h.past, fun w hw => ?_, fun w y hw => ?_, ?_⟩
      · rcases mem_set_cases hw with hw | hw
        · unfold Offer.resume at hw
          split at hw
          · exact absurd hw (by simp)
          · rename_i hle
            obtain rfl := Offer.settled.inj hw
            exact (not_lt.mp hle).trans hseen
        · exact h.settled w hw
      · rcases mem_set_cases hw with hw | hw
        · unfold Offer.resume at hw
          split at hw
          · rename_i hlt
            obtain ⟨rfl, rfl⟩ := Offer.swapping.inj hw
            exact hlt
          · exact absurd hw (by simp)
        · exact h.swapping w y hw
      · rw [Shared.values, map_set_of_eq hi (Offer.value_resume _ _)]
        exact h.source
    · -- the cell is raised to the value
      have hlt := h.swapping v s.cell.value (List.mem_of_getElem? hi)
      refine ⟨h.first.trans hlt.le, fun y hy => ?_, fun w hw => ?_, fun w y hw => ?_, Or.inr ?_⟩
      · rcases List.mem_cons.mp hy with rfl | hy
        · exact hlt.le
        · exact (h.past y hy).trans hlt.le
      · rcases mem_set_cases hw with hw | hw
        · exact (Offer.settled.inj hw).le
        · exact (h.settled w hw).trans hlt.le
      · rcases mem_set_cases hw with hw | hw
        · exact absurd hw (by simp)
        · exact h.swapping w y hw
      · have hvalues : (s.offers.set i (.settled v)).map Offer.value = s.values :=
          map_set_of_eq hi rfl
        rw [Shared.values, hvalues]
        exact List.mem_map.mpr ⟨_, List.mem_of_getElem? hi, rfl⟩

/-- The order of the offers does not matter. -/
theorem Bounded.perm {cell : Cell α} {os os' : List (Offer α)} (h : Bounded x ⟨cell, os⟩)
    (hperm : os.Perm os') : Bounded x ⟨cell, os'⟩ :=
  ⟨h.first, h.past, fun v hv => h.settled v (hperm.mem_iff.mpr hv),
    fun v seen hv => h.swapping v seen (hperm.mem_iff.mpr hv),
    h.source.imp_right fun hv => (hperm.map Offer.value).mem_iff.mp hv⟩

/-- The greatest of a value and those of a list. -/
theorem isGreatest_foldl_max (l : List α) (x : α) :
    IsGreatest {y | y = x ∨ y ∈ l} (l.foldl max x) := by
  induction l generalizing x with
  | nil => exact ⟨Or.inl rfl, fun y hy => hy.elim le_of_eq fun hmem => absurd hmem (by simp)⟩
  | cons w l ih =>
    obtain ⟨hmem, htop⟩ := ih (max x w)
    have hstart : max x w ≤ l.foldl max (max x w) := htop (Or.inl rfl)
    refine ⟨?_, fun y hy => ?_⟩
    · rcases hmem with hmax | hmem
      · rcases max_choice x w with hx | hw
        · exact Or.inl (hmax.trans hx)
        · exact Or.inr (List.mem_cons.mpr (Or.inl (hmax.trans hw)))
      · exact Or.inr (List.mem_cons_of_mem _ hmem)
    · rcases hy with rfl | hy
      · exact (le_max_left y w).trans hstart
      · rcases List.mem_cons.mp hy with rfl | hy
        · exact (le_max_right x y).trans hstart
        · exact htop (Or.inr hy)

/-- The least of a value and those of a list. -/
theorem isLeast_foldl_min (l : List α) (x : α) : IsLeast {y | y = x ∨ y ∈ l} (l.foldl min x) :=
  @isGreatest_foldl_max αᵒᵈ _ l x

/-- **Once all tasks are done, the cell holds the greatest of its first value and all values
offered.** -/
theorem Bounded.value_eq (h : Bounded x s) (hsettled : s.Settled) :
    s.cell.value = s.values.foldl max x := by
  have hgreatest : IsGreatest {y | y = x ∨ y ∈ s.values} s.cell.value := by
    refine ⟨h.source, ?_⟩
    rintro y (rfl | hy)
    · exact h.first
    · obtain ⟨o, ho, rfl⟩ := List.mem_map.mp hy
      exact h.settled o.value (Offer.eq_settled (hsettled o ho) ▸ ho)
  exact hgreatest.unique (isGreatest_foldl_max s.values x)

/-! ### How long it takes -/

/-- **Accesses are up to date**: what is seen is what the cell holds, and no exchange is refused
for no reason. -/
def UpToDate (s : Shared α) : Label α → Prop
  | .offer _ => True
  | .access _ seen spurious => seen = s.cell.value ∧ spurious = false

/-- Whether a step is an access of an offer. -/
def accessOf (i : ℕ) : Label α → ℕ
  | .offer _ => 0
  | .access j _ _ => if j = i then 1 else 0

/-- **What `n` accesses of an offer are paid with**: at most one more than the values stored; and
when the cell has changed since the task looked, it has an access left. -/
def Offer.Paid (n : ℕ) (cell : Cell α) : Offer α → Prop
  | fresh _ => n = 0
  | swapping _ seen => n ≤ 1 + cell.past.length ∧ (seen ≠ cell.value → n ≤ cell.past.length)
  | settled _ => n ≤ 1 + cell.past.length

namespace Offer

variable {o o' : Offer α} {n : ℕ} {cell cell' : Cell α}

omit [LinearOrder α] in
theorem Paid.le (h : o.Paid n cell) : n ≤ 1 + cell.past.length := by
  cases o with
  | fresh v => exact le_of_eq_of_le h (Nat.zero_le _)
  | swapping v seen => exact h.1
  | settled v => exact h

omit [LinearOrder α] in
/-- Who raises the cell leaves the others something. -/
theorem Paid.store (h : o.Paid n cell) (v : α) : o.Paid n (cell.store v) := by
  have hle := h.le
  cases o with
  | fresh w => exact h
  | swapping w seen => exact ⟨hle.trans (Nat.le_succ _), fun _ => by simpa [Nat.add_comm] using hle⟩
  | settled w => exact hle.trans (Nat.le_succ _)

/-- A task at the head of the loop has seen what the cell holds. -/
theorem paid_resume (v : α) (h : n ≤ 1 + cell.past.length) :
    (resume v cell.value).Paid n cell := by
  unfold resume
  split
  · exact ⟨h, fun hne => absurd rfl hne⟩
  · exact h

/-- **An access that is up to date is paid.** -/
theorem Paid.advance (h : o.Paid n cell)
    (hadvance : o.advance cell cell.value false = some (cell', o')) : o'.Paid (n + 1) cell' := by
  rcases advance_cases hadvance with ⟨-, rfl, rfl, hspurious⟩ | ⟨v, rfl, rfl, rfl⟩
  · -- it reads the cell for the first time, or lost against who raised it
    have hleft : n ≤ cell'.past.length := by
      cases o with
      | fresh v => exact le_of_eq_of_le h (Nat.zero_le _)
      | swapping v y =>
        refine h.2 fun hy => ?_
        exact absurd (hspurious v (by rw [hy])) (by simp)
      | settled v => exact absurd hadvance (by simp [Offer.advance])
    exact paid_resume _ (by omega)
  · have hle := h.1
    rw [Paid, Cell.past_store, List.length_cons]
    omega

end Offer

/-- **What an offer has spent is paid for** by what was stored, and an offer that was not made
has spent nothing. -/
def Paid (i n : ℕ) (s : Shared α) : Prop :=
  (s.offers[i]? = none → n = 0) ∧ ∀ o, s.offers[i]? = some o → o.Paid n s.cell

omit [LinearOrder α] in
theorem Paid.le {i n : ℕ} (h : Paid i n s) : n ≤ 1 + s.cell.past.length := by
  rcases hi : s.offers[i]? with _ | o
  · exact le_of_eq_of_le (h.1 hi) (Nat.zero_le _)
  · exact (h.2 o hi).le

/-- **A step that is up to date pays for its access.** -/
theorem Paid.step {i n : ℕ} (h : Paid i n s) (hstep : Step s l t) (hdate : UpToDate s l) :
    Paid i (n + accessOf i l) t := by
  cases hstep with
  | offer v =>
    refine ⟨fun hnone => h.1 ?_, fun o ho => ?_⟩
    · rw [List.getElem?_eq_none_iff, List.length_append] at hnone
      exact List.getElem?_eq_none (by omega)
    · rw [List.getElem?_append] at ho
      split at ho
      · exact h.2 o ho
      · rename_i hge
        obtain rfl : Offer.fresh v = o := List.mem_singleton.mp (List.mem_of_getElem? ho) ▸ rfl
        exact h.1 (List.getElem?_eq_none (not_lt.mp hge))
  | @access j o o' cell seen spurious hj hadvance =>
    obtain ⟨rfl, rfl⟩ := hdate
    by_cases hji : j = i
    · subst hji
      have hself : (s.offers.set j o')[j]? = some o' :=
        List.getElem?_set_self (List.getElem?_eq_some_iff.mp hj).1
      rw [accessOf, if_pos rfl]
      refine ⟨fun hnone => absurd (hself.symm.trans hnone) (by simp), fun o₁ ho₁ => ?_⟩
      obtain rfl := Option.some.inj (hself.symm.trans ho₁)
      exact (h.2 o hj).advance hadvance
    · rw [accessOf, if_neg hji, Nat.add_zero, Paid, List.getElem?_set_ne hji]
      refine ⟨h.1, fun o₁ ho₁ => ?_⟩
      rcases Offer.advance_cases hadvance with ⟨-, rfl, -, -⟩ | ⟨v, -, rfl, -⟩
      · exact h.2 o₁ ho₁
      · exact (h.2 o₁ ho₁).store v

omit [LinearOrder α] in
/-- Nothing is spent on a cell nobody has offered anything to. -/
theorem Paid.new (x : α) (i : ℕ) : Paid i 0 (Shared.new x) :=
  ⟨fun _ => rfl, fun o ho => absurd ho (by simp [Shared.new])⟩

/-- **Every value stored is accounted for** by an offer that is settled. -/
def Accounted (s : Shared α) : Prop := s.cell.past.length ≤ s.offers.countP Offer.isSettled

omit [LinearOrder α] in
/-- Not more values are stored than are offered. -/
theorem Accounted.le (h : Accounted s) : s.cell.past.length ≤ s.offers.length :=
  h.trans List.countP_le_length

/-- A value is stored by an offer that is then settled. -/
theorem Accounted.step (h : Accounted s) (hstep : Step s l t) : Accounted t := by
  unfold Accounted at h ⊢
  cases hstep with
  | offer v =>
    rw [List.countP_append]
    exact h.trans (Nat.le_add_right _ _)
  | @access i o o' cell seen spurious hi hadvance =>
    obtain ⟨hlt, ho⟩ := List.getElem?_eq_some_iff.mp hi
    have hnot : o.isSettled = false := by
      cases o with
      | settled v => exact absurd hadvance (by simp [Offer.advance])
      | _ => rfl
    have hcount : (s.offers.set i o').countP Offer.isSettled =
        s.offers.countP Offer.isSettled + if o'.isSettled then 1 else 0 := by
      rw [List.countP_set hlt, ho, hnot]
      rfl
    rw [hcount]
    rcases Offer.advance_cases hadvance with ⟨-, rfl, -, -⟩ | ⟨v, -, rfl, rfl⟩
    · exact h.trans (Nat.le_add_right _ _)
    · exact Nat.succ_le_succ h

end System

end CompareExchange
