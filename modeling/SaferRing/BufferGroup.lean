import Mathlib.Algebra.Ring.Nat
import Mathlib.Data.List.Nodup
import Mathlib.Data.List.Perm.Subperm
import SaferRing.Error

/-!
# Groups of provided buffers

A `SaferRing.BufferGroup` hands out the ids of its buffers and takes them back. There are as many
buffers as a number of 32 bits says, but an id has 16: the ids are those below the number cut to
16 bits (`SaferRing.BufferGroup.availableBuffers_of_new`). So a group has the ids of all of its
buffers exactly when it has fewer than `2 ^ 16` (`SaferRing.BufferGroup.hasIds_iff`).
-/

namespace SaferRing

/-- **A group of buffers.** -/
structure BufferGroup where
  /-- The id of the group. -/
  groupId : UInt16
  /-- The number of buffers. -/
  bufferCount : UInt32
  /-- Their size. -/
  bufferSize : UInt32
  /-- The ids that are available, the next one first. -/
  availableBuffers : List UInt16
  deriving DecidableEq, Repr

namespace BufferGroup

/-- A new group, all of whose buffers are available. -/
def new (groupId : UInt16) (bufferCount bufferSize : UInt32) :
    Except SaferRingError BufferGroup :=
  if bufferCount = 0 then .error (.ioNew .invalidInput "Buffer count must be greater than 0")
  else if bufferSize = 0 then .error (.ioNew .invalidInput "Buffer size must be greater than 0")
  else
    let availableBuffers := (List.range bufferCount.toUInt16.toNat).map UInt16.ofNat
    .ok ⟨groupId, bufferCount, bufferSize, availableBuffers⟩

variable (self : BufferGroup)

/-- **Take an id**, if one is available. -/
def getBuffer : Option UInt16 × BufferGroup :=
  match self.availableBuffers with
  | [] => (none, self)
  | bufferId :: availableBuffers => (some bufferId, { self with availableBuffers })

/-- **Give an id back**; one that is no id of the group is left out, and `none` is the panic on it
in a build with debug assertions. -/
def returnBuffer (debugAssertions : Bool) (bufferId : UInt16) : Option BufferGroup :=
  if bufferId < self.bufferCount.toUInt16 then
    some { self with availableBuffers := self.availableBuffers ++ [bufferId] }
  else if debugAssertions then none
  else some self

/-- The number of ids that are available. -/
def availableCount : ℕ := self.availableBuffers.length

/-- Whether there are any. -/
def hasAvailable : Bool := !self.availableBuffers.isEmpty

/-- The number of buffers in use, of which `utilization` is the ratio; `none` is a subtraction
that goes below zero. -/
def inUse : Option ℕ :=
  if self.availableCount ≤ self.bufferCount.toNat then
    some (self.bufferCount.toNat - self.availableCount)
  else none

/-! ### The ids of a group -/

/-- Take a number of ids, one after the other; `none` when there are not as many. -/
def getBuffers : ℕ → BufferGroup → Option (List UInt16 × BufferGroup)
  | 0, self => some ([], self)
  | n + 1, self =>
    match self.getBuffer with
    | (none, _) => none
    | (some bufferId, self) => (getBuffers n self).map fun (ids, self) => (bufferId :: ids, self)

/-- Give ids back, one after the other. -/
def returnBuffers (debugAssertions : Bool) : List UInt16 → BufferGroup → Option BufferGroup
  | [], self => some self
  | bufferId :: ids, self =>
    (self.returnBuffer debugAssertions bufferId).bind (returnBuffers debugAssertions ids)

/-- **A group has `n` ids**: so many can be taken before there are none, they are distinct and
below `n`; and any of them that are given back, in whatever order, can be taken again. -/
def HasIds (n : ℕ) : Prop :=
  ∃ ids rest, self.getBuffers n = some (ids, rest) ∧ ids.Nodup ∧ (∀ id ∈ ids, id.toNat < n) ∧
    rest.getBuffer = (none, rest) ∧
    ∀ debugAssertions, ∀ back : List UInt16, back.Subperm ids →
      ∃ again, rest.returnBuffers debugAssertions back = some again ∧
        again.getBuffers back.length = some (back, rest)

variable {self} {groupId : UInt16} {bufferCount bufferSize : UInt32}

/-- **The ids of a new group** are those below the number of buffers, cut to 16 bits. -/
theorem availableBuffers_of_new (h : new groupId bufferCount bufferSize = .ok self) :
    self.bufferCount = bufferCount ∧
      self.availableBuffers = (List.range (bufferCount.toNat % 2 ^ 16)).map UInt16.ofNat := by
  rw [new] at h
  split at h
  · exact absurd h (by simp)
  split at h
  · exact absurd h (by simp)
  obtain rfl := Except.ok.inj h
  exact ⟨rfl, by rw [UInt32.toNat_toUInt16]⟩

/-- As many ids are taken as there are, from the front. -/
theorem getBuffers_eq (n : ℕ) : self.getBuffers n =
    if n ≤ self.availableBuffers.length then
      some (self.availableBuffers.take n,
        { self with availableBuffers := self.availableBuffers.drop n })
    else none := by
  induction n generalizing self with
  | zero => rfl
  | succ n ih =>
    rw [getBuffers, getBuffer]
    rcases hids : self.availableBuffers with _ | ⟨bufferId, ids⟩
    · rfl
    · simp only [ih, List.length_cons, Nat.add_le_add_iff_right, List.take_succ_cons,
        List.drop_succ_cons]
      split <;> rfl

/-- **Ids of the group are taken back**, to the end, and nothing panics. -/
theorem returnBuffers_eq (debugAssertions : Bool) {ids : List UInt16}
    (h : ∀ id ∈ ids, id < self.bufferCount.toUInt16) :
    self.returnBuffers debugAssertions ids =
      some { self with availableBuffers := self.availableBuffers ++ ids } := by
  induction ids generalizing self with
  | nil => rw [returnBuffers, List.append_nil]
  | cons id ids ih =>
    have hid : self.returnBuffer debugAssertions id =
        some { self with availableBuffers := self.availableBuffers ++ [id] } :=
      if_pos (h id List.mem_cons_self)
    have hids := @ih { self with availableBuffers := self.availableBuffers ++ [id] }
      fun id hid => h id (List.mem_cons_of_mem _ hid)
    rw [returnBuffers, hid, Option.bind_some, hids, List.append_assoc, List.singleton_append]

/-- Numbers below `2 ^ 16` are distinct as ids. -/
theorem nodup_map_ofNat {n : ℕ} (h : n ≤ 2 ^ 16) : ((List.range n).map UInt16.ofNat).Nodup := by
  refine List.Nodup.map_on (fun i hi j hj hij => ?_) List.nodup_range
  have hlt := List.mem_range.mp hi
  have hlt' := List.mem_range.mp hj
  have htoNat := congrArg UInt16.toNat hij
  rw [UInt16.toNat_ofNat', UInt16.toNat_ofNat', Nat.mod_eq_of_lt (by omega),
    Nat.mod_eq_of_lt (by omega)] at htoNat
  exact htoNat

/-- What an id is that comes from a number. -/
theorem toNat_lt_of_mem {n : ℕ} {id : UInt16} (h : id ∈ (List.range n).map UInt16.ofNat) :
    id.toNat < n := by
  obtain ⟨i, hi, rfl⟩ := List.mem_map.mp h
  rw [UInt16.toNat_ofNat']
  exact Nat.lt_of_le_of_lt (Nat.mod_le _ _) (List.mem_range.mp hi)

/-- **A new group has the ids of all of its buffers exactly when it has fewer than `2 ^ 16`.** -/
theorem hasIds_iff (hsize : 0 < bufferSize) :
    (∀ group, new groupId bufferCount bufferSize = .ok group → group.HasIds bufferCount.toNat) ↔
      bufferCount.toNat < 2 ^ 16 := by
  constructor
  · intro hall
    by_cases hzero : bufferCount = 0
    · rw [hzero]
      decide
    -- a group is made, with as many ids as the number has when it is cut
    have hnew : new groupId bufferCount bufferSize = .ok ⟨groupId, bufferCount, bufferSize,
        (List.range bufferCount.toUInt16.toNat).map UInt16.ofNat⟩ := by
      rw [new, if_neg hzero, if_neg fun h => absurd hsize (by simp [h])]
    obtain ⟨-, hids⟩ := availableBuffers_of_new hnew
    obtain ⟨ids, rest, hget, -⟩ := hall _ hnew
    rw [getBuffers_eq, Option.ite_none_right_eq_some, hids, List.length_map,
      List.length_range] at hget
    exact Nat.lt_of_le_of_lt hget.1 (Nat.mod_lt _ (by decide))
  · intro hlt group hnew
    obtain ⟨hcount, hids⟩ := availableBuffers_of_new hnew
    rw [Nat.mod_eq_of_lt hlt] at hids
    have hlen : group.availableBuffers.length = bufferCount.toNat := by
      rw [hids, List.length_map, List.length_range]
    have hbelow : ∀ id ∈ group.availableBuffers, id.toNat < bufferCount.toNat :=
      fun id hid => toNat_lt_of_mem (hids ▸ hid)
    refine ⟨group.availableBuffers, { group with availableBuffers := [] }, ?_, ?_, hbelow, rfl,
      fun debugAssertions back hback => ?_⟩
    · rw [getBuffers_eq, ← hlen, if_pos (Nat.le_refl _), List.take_length, List.drop_length]
    · rw [hids]
      exact nodup_map_ofNat (Nat.le_of_lt hlt)
    · have hvalid : ∀ id ∈ back, id < group.bufferCount.toUInt16 := by
        intro id hid
        rw [UInt16.lt_iff_toNat_lt, UInt32.toNat_toUInt16, hcount, Nat.mod_eq_of_lt hlt]
        exact hbelow id (hback.subset hid)
      refine ⟨_, returnBuffers_eq debugAssertions hvalid, ?_⟩
      rw [getBuffers_eq]
      simp

/-- A group of three. -/
theorem hasIds_three : ∃ group, new 1 3 4096 = .ok group ∧ group.HasIds 3 := by
  have hsize : 0 < (4096 : UInt32) := by decide
  have hcount : (3 : UInt32).toNat < 2 ^ 16 := by decide
  have hnew : new 1 3 4096 = .ok ⟨1, 3, 4096, [0, 1, 2]⟩ := rfl
  exact ⟨_, hnew, (hasIds_iff hsize).mpr hcount _ hnew⟩

/-- **A group of `2 ^ 16` buffers has no id at all.** -/
theorem not_hasIds_twoPow : ∃ group, new 1 65536 4096 = .ok group ∧
    group.getBuffer = (none, group) ∧ ¬group.HasIds 65536 := by
  refine ⟨⟨1, 65536, 4096, []⟩, rfl, rfl, ?_⟩
  rintro ⟨ids, rest, hget, -⟩
  rw [getBuffers_eq] at hget
  exact absurd hget (by simp)

end BufferGroup

end SaferRing
