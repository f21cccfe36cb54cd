import SaferRing.BufferGroup
import SaferRing.Library.FreeList
import SaferRing.Library.Run

/-!
# One holder for each buffer of a group

A group does not know who has its buffers (`SaferRing.Lending`), and takes back whatever id it is
given. When only holders give ids back no buffer has two of them; but an id that is given back
twice, or by somebody who never had it, is available from then on while it is available already,
or while its holder uses the buffer: `SaferRing.Lending.always_exclusive_iff`.
-/

namespace SaferRing

/-- **A group, and who has its buffers.** -/
structure Lending where
  /-- The group. -/
  group : BufferGroup
  /-- The ids of the holders that did not give them back. -/
  held : List UInt16
  deriving DecidableEq, Repr

namespace Lending

/-- A call of a group. -/
inductive Event
  /-- `get_buffer`. -/
  | getBuffer
  /-- `return_buffer`, by the holder in a place, or by nobody who holds an id. -/
  | returnBuffer (bufferId : UInt16) (holder : Option ℕ)
  deriving DecidableEq, Repr

/-- A group nobody took an id from. -/
def new (group : BufferGroup) : Lending := ⟨group, []⟩

variable (self : Lending)

/-- **What a call does**, in a build without debug assertions; a holder gives back the id it
has. -/
def step : Event → Option Lending
  | .getBuffer =>
    let (bufferId, group) := self.group.getBuffer
    some ⟨group, self.held ++ bufferId.toList⟩
  | .returnBuffer bufferId none =>
    (self.group.returnBuffer false bufferId).map fun group => { self with group }
  | .returnBuffer bufferId (some h) =>
    if self.held[h]? = some bufferId then
      (self.group.returnBuffer false bufferId).map fun group => ⟨group, self.held.eraseIdx h⟩
    else none

/-- The step relation. -/
abbrev Step (s : Lending) (e : Event) (t : Lending) : Prop := s.step e = some t

/-- **Every buffer has at most one holder**, and a buffer that has one is not available. -/
structure Exclusive (s : Lending) : Prop where
  /-- What is available is distinct. -/
  available : s.group.availableBuffers.Nodup
  /-- No id was handed out again before its holder gave it back. -/
  held : s.held.Nodup
  /-- Nor can it be. -/
  disjoint : ∀ id ∈ s.held, id ∉ s.group.availableBuffers
  /-- There are not more available than there are. -/
  count : s.group.availableCount ≤ s.group.bufferCount.toNat
  /-- The number of buffers in use is not below zero. -/
  inUse : s.group.inUse.isSome

/-- **Only holders give back** ids of the group. -/
def ByHolder (s : Lending) : Event → Prop
  | .returnBuffer bufferId none => ¬bufferId < s.group.bufferCount.toUInt16
  | _ => True

instance (s : Lending) (e : Event) : Decidable (ByHolder s e) :=
  match e with
  | .getBuffer => inferInstanceAs (Decidable True)
  | .returnBuffer _ (some _) => inferInstanceAs (Decidable True)
  | .returnBuffer bufferId none =>
    inferInstanceAs (Decidable (¬bufferId < s.group.bufferCount.toUInt16))

/-- The free list of a group. -/
def freeList : FreeList UInt16 := ⟨self.group.availableBuffers, self.held⟩

/-- **What a call keeps**: the ids of the group are available or held. -/
structure Kept (n : ℕ) (s : Lending) : Prop where
  /-- The group is as large as it was. -/
  count : s.group.bufferCount.toNat = n
  /-- The ids are those below its number of buffers. -/
  parted : s.freeList.Parted ((List.range n).map UInt16.ofNat)

variable {n : ℕ} {s t : Lending} {e : Event}

theorem Kept.exclusive (h : Kept n s) (hn : n < 2 ^ 16) : Exclusive s := by
  have hnodup := List.nodup_append.mp
    (h.parted.exclusive (BufferGroup.nodup_map_ofNat (Nat.le_of_lt hn)))
  have hlen := h.parted.length_le
  rw [List.length_map, List.length_range, ← h.count] at hlen
  refine ⟨hnodup.1, hnodup.2.1, fun id hheld hfree => hnodup.2.2 id hfree id hheld rfl, hlen, ?_⟩
  rw [BufferGroup.inUse]
  exact (if_pos hlen).symm ▸ rfl

/-- A new group has all of its ids. -/
theorem kept_new {group : BufferGroup} {groupId : UInt16} {bufferCount bufferSize : UInt32}
    (hnew : BufferGroup.new groupId bufferCount bufferSize = .ok group)
    (hcount : bufferCount.toNat < 2 ^ 16) : Kept bufferCount.toNat (new group) := by
  obtain ⟨hsame, hids⟩ := BufferGroup.availableBuffers_of_new hnew
  rw [Nat.mod_eq_of_lt hcount] at hids
  refine ⟨congrArg UInt32.toNat hsame, ?_⟩
  rw [freeList, new, hids]
  exact FreeList.parted_new _

/-- **Taking an id** keeps all of them. -/
theorem Kept.getBuffer (h : Kept n s) :
    Kept n ⟨s.group.getBuffer.2, s.held ++ s.group.getBuffer.1.toList⟩ := by
  have hparted := h.parted
  rw [freeList] at hparted
  rw [BufferGroup.getBuffer]
  rcases hids : s.group.availableBuffers with _ | ⟨bufferId, ids⟩
  · refine ⟨h.count, ?_⟩
    rw [freeList, Option.toList_none, List.append_nil]
    exact hparted
  · rw [hids] at hparted
    exact ⟨h.count, hparted.take⟩

/-- An id is one of the group if it is below its number of buffers. -/
theorem Kept.mem_iff (h : Kept n s) (hn : n < 2 ^ 16) (bufferId : UInt16) :
    bufferId < s.group.bufferCount.toUInt16 ↔ bufferId ∈ (List.range n).map UInt16.ofNat := by
  rw [UInt16.lt_iff_toNat_lt, UInt32.toNat_toUInt16, h.count, Nat.mod_eq_of_lt hn]
  refine ⟨fun hlt => ?_, BufferGroup.toNat_lt_of_mem⟩
  exact List.mem_map.mpr ⟨bufferId.toNat, List.mem_range.mpr hlt, UInt16.ofNat_toNat⟩

/-- An id of the group is taken back. -/
theorem returnBuffer_of_lt {group : BufferGroup} {bufferId : UInt16}
    (h : bufferId < group.bufferCount.toUInt16) : group.returnBuffer false bufferId =
      some { group with availableBuffers := group.availableBuffers ++ [bufferId] } :=
  if_pos h

/-- **A call by the rules keeps all ids.** -/
theorem Kept.step (h : Kept n s) (hn : n < 2 ^ 16) (hstep : Step s e t) (hholder : ByHolder s e) :
    Kept n t := by
  cases e with
  | getBuffer =>
    obtain rfl := Option.some.inj hstep
    exact h.getBuffer
  | returnBuffer bufferId holder =>
    rcases holder with _ | i
    · have hsame : s.group.returnBuffer false bufferId = some s.group := if_neg hholder
      rw [Step, Lending.step, hsame] at hstep
      obtain rfl := Option.some.inj hstep
      exact h
    · obtain ⟨hheld, hcall⟩ := Option.ite_none_right_eq_some.mp hstep
      have hmem : bufferId ∈ s.freeList.free ++ s.freeList.held :=
        List.mem_append_right _ (List.mem_of_getElem? hheld)
      have hlt := (h.mem_iff hn bufferId).mpr (h.parted.mem_iff.mp hmem)
      rw [returnBuffer_of_lt hlt] at hcall
      obtain rfl := Option.some.inj hcall
      exact ⟨h.count, FreeList.Parted.giveBack h.parted hheld⟩

/-- **An id that is given back by nobody who holds it** has two places. -/
theorem Kept.not_exclusive (h : Kept n s) (hn : n < 2 ^ 16) (hstep : Step s e t)
    (hholder : ¬ByHolder s e) : ¬Exclusive t := by
  cases e with
  | getBuffer => exact absurd trivial hholder
  | returnBuffer bufferId holder =>
    rcases holder with _ | i
    swap
    · exact absurd trivial hholder
    have hlt := not_not.mp hholder
    rw [Step, Lending.step, returnBuffer_of_lt hlt] at hstep
    obtain rfl := Option.some.inj hstep
    intro hexclusive
    refine h.parted.not_exclusive_stray ((h.mem_iff hn bufferId).mp hlt)
      (List.nodup_append.mpr ⟨hexclusive.available, hexclusive.held, ?_⟩)
    rintro id hfree _ hheld rfl
    exact hexclusive.disjoint id hheld hfree

/-- **No buffer of a group has two holders exactly when only holders give ids back**, each once
for each time it was handed one. -/
theorem always_exclusive_iff {group : BufferGroup} {groupId : UInt16}
    {bufferCount bufferSize : UInt32} {ms : List (Transition.Move Lending Event)}
    (hnew : BufferGroup.new groupId bufferCount bufferSize = .ok group)
    (hcount : bufferCount.toNat ≤ 65535) (hrun : Transition.Run Step (new group) ms s) :
    Transition.Always Exclusive (new group) ms ↔ Transition.Guarded ByHolder ms := by
  have hn : bufferCount.toNat < 2 ^ 16 := Nat.lt_succ_of_le hcount
  have hkeep : ∀ s e t, Step s e t → ByHolder s e → Kept bufferCount.toNat s → Exclusive s →
      Kept bufferCount.toNat t ∧ Exclusive t := fun s e t hstep hholder h _ =>
    ⟨h.step hn hstep hholder, (h.step hn hstep hholder).exclusive hn⟩
  have hbreak : ∀ s e t, Step s e t → ¬ByHolder s e → Kept bufferCount.toNat s → Exclusive s →
      ¬Exclusive t := fun s e t hstep hholder h _ => h.not_exclusive hn hstep hholder
  exact hrun.always_iff hkeep hbreak (kept_new hnew hn) ((kept_new hnew hn).exclusive hn)

/-- The only buffer of a group is given back by somebody who never had it, and taken twice. -/
def givenBackTwice : List Event := [.returnBuffer 0 none, .getBuffer, .getBuffer]

/-- **Two holders have it.** -/
theorem not_exclusive_givenBackTwice : ∃ group ms s, BufferGroup.new 1 1 4096 = .ok group ∧
    Transition.Run Step (new group) ms s ∧ ms.map Transition.Move.label = givenBackTwice ∧
    s.held = [0, 0] ∧ ¬Exclusive s := by
  let group : BufferGroup := ⟨1, 1, 4096, [0]⟩
  have hend : (Transition.trace step (new group) givenBackTwice).map (fun x => x.2.held) =
      some [0, 0] := by
    decide
  obtain ⟨⟨ms, s⟩, htrace, hheld⟩ := Option.map_eq_some_iff.mp hend
  obtain ⟨hrun, hlabels⟩ := Transition.run_of_trace htrace
  refine ⟨group, ms, s, rfl, hrun, hlabels, hheld, fun h => ?_⟩
  have hnodup := h.held
  rw [hheld] at hnodup
  exact absurd hnodup (by decide)

/-- Ids are taken and given back by who has them, and one that is no id of the group is left
out. -/
def inTurn : List Event :=
  [.getBuffer, .getBuffer, .returnBuffer 0 (some 0), .returnBuffer 7 none, .getBuffer]

/-- **Every id has one holder.** -/
theorem exclusive_inTurn : ∃ group ms s, BufferGroup.new 1 2 4096 = .ok group ∧
    Transition.Run Step (new group) ms s ∧ ms.map Transition.Move.label = inTurn ∧
    s.held = [1, 0] ∧ Transition.Always Exclusive (new group) ms := by
  let group : BufferGroup := ⟨1, 2, 4096, [0, 1]⟩
  have hnew : BufferGroup.new 1 2 4096 = .ok group := rfl
  have hend : (Transition.trace step (new group) inTurn).map (fun x =>
      (x.2.held, x.1.all fun m => decide (ByHolder m.before m.label))) = some ([1, 0], true) := by
    decide
  obtain ⟨⟨ms, s⟩, htrace, hend⟩ := Option.map_eq_some_iff.mp hend
  obtain ⟨hheld, hall⟩ := Prod.mk.inj hend
  obtain ⟨hrun, hlabels⟩ := Transition.run_of_trace htrace
  refine ⟨group, ms, s, hnew, hrun, hlabels, hheld,
    (always_exclusive_iff hnew (by decide) hrun).mpr fun m hm => ?_⟩
  exact of_decide_eq_true (List.all_eq_true.mp hall m hm)

end Lending

end SaferRing
