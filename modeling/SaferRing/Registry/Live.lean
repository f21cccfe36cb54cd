import SaferRing.Registry.Lookup

/-!
# The handles that are live

A handle is live from when it is given until what it names is unregistered
(`SaferRing.Registrations`). Slots are used again, in the middle of a table too, but as long as
the tables have not run out of indices a registry is to its live handles what a map is to its
keys: `SaferRing.Registrations.faithful_of_run`.
-/

namespace SaferRing

/-- **A registry, and the handles that are live**, each with what was registered. -/
structure Registrations where
  /-- The registry. -/
  registry : Registry
  /-- The handles of descriptors. -/
  fds : List (RegisteredFd × ℤ)
  /-- The handles of buffers. -/
  buffers : List (RegisteredBuffer × BoxedSlice)

namespace Registrations

/-- Nothing is registered. -/
def new : Registrations := ⟨.new, [], []⟩

/-- **What a call does to a registry and to the handles that are live.** -/
def call (self : Registrations) : Call → Registrations
  | .registerFd fd =>
    let (result, registry) := self.registry.registerFd fd
    match result with
    | .ok registeredFd => { self with registry, fds := (registeredFd, fd) :: self.fds }
    | .error _ => { self with registry }
  | .registerBuffer buffer =>
    let (result, registry) := self.registry.registerBuffer buffer
    match result with
    | .ok registeredBuffer =>
      { self with registry, buffers := (registeredBuffer, buffer) :: self.buffers }
    | .error _ => { self with registry }
  | .unregisterFd registeredFd =>
    let (result, registry) := self.registry.unregisterFd registeredFd
    match result with
    | .ok () => { self with registry, fds := self.fds.filter fun p => p.1 ≠ registeredFd }
    | .error _ => { self with registry }
  | .unregisterBuffer registeredBuffer =>
    let (result, registry) := self.registry.unregisterBuffer registeredBuffer
    match result with
    | .ok _ =>
      { self with registry, buffers := self.buffers.filter fun p => p.1 ≠ registeredBuffer }
    | .error _ => { self with registry }
  | c => { self with registry := self.registry.call c }

/-- The step relation. -/
abbrev Step (s : Registrations) (c : Call) (t : Registrations) : Prop := s.call c = t

/-- **A registry is faithful to its live handles**: each has an index of its own and names what
was registered, which can be unregistered unless it is in use; and there is nothing else. -/
structure Faithful (s : Registrations) : Prop where
  /-- Handles of descriptors have distinct indices. -/
  fds_nodup : (s.fds.map fun p => p.1.index).Nodup
  /-- Handles of buffers have distinct indices. -/
  buffers_nodup : (s.buffers.map fun p => p.1.index).Nodup
  /-- A handle names the descriptor that was registered. -/
  fd : ∀ p ∈ s.fds, s.registry.isFdRegistered p.1 ∧ s.registry.getRawFd p.1 = .ok p.2
  /-- A handle names the buffer that was registered. -/
  buffer : ∀ p ∈ s.buffers, s.registry.isBufferRegistered p.1 ∧ s.registry.getBuffer p.1 = .ok p.2
  /-- A descriptor can be unregistered unless it is in use. -/
  unregisterFd : ∀ p ∈ s.fds, (s.registry.unregisterFd p.1).1 =
    if p.1.index ∈ s.registry.registeredFds.inUse then .error .bufferInFlight else .ok ()
  /-- A buffer is given back unless it is in use. -/
  unregisterBuffer : ∀ p ∈ s.buffers, (s.registry.unregisterBuffer p.1).1 =
    if p.1.index ∈ s.registry.registeredBuffers.inUse then .error .bufferInFlight else .ok p.2
  /-- Every descriptor is counted. -/
  fdCount : s.registry.fdCount = s.fds.length
  /-- Every buffer is counted. -/
  bufferCount : s.registry.bufferCount = s.buffers.length

/-- **A call leaves the handles live that it does not unregister.** -/
def Leaves (m : Transition.Move Registrations Call) : Prop :=
  (∀ p ∈ m.before.fds, p ∈ m.after.fds ∨
    m.label = .unregisterFd p.1 ∧ (m.before.registry.unregisterFd p.1).1 = .ok ()) ∧
  ∀ p ∈ m.before.buffers, p ∈ m.after.buffers ∨
    m.label = .unregisterBuffer p.1 ∧ (m.before.registry.unregisterBuffer p.1).1 = .ok p.2

/-! ### The handles of one table -/

section Tables

variable {α H : Type} {handle : UInt32 → α → H} {table table' : SlotTable α}
  {live : List (H × α)} {p : H × α} {i : UInt32} {a : α}

/-- **The live handles are the entries of a table**, each made of the index and of what is
there. -/
def Tracks (handle : UInt32 → α → H) (table : SlotTable α) (live : List (H × α)) : Prop :=
  ∃ entries, table.Lists entries ∧ live = entries.map fun e => (handle e.1 e.2, e.2)

theorem tracks_empty : Tracks handle .empty [] := ⟨[], SlotTable.lists_empty, rfl⟩

/-- Marks change no handle. -/
theorem Tracks.of_slots (h : Tracks handle table live) (hslots : table'.slots = table.slots) :
    Tracks handle table' live := by
  obtain ⟨entries, hentries, rfl⟩ := h
  exact ⟨entries, hentries.of_slots hslots, rfl⟩

/-- What a live handle is made of is in its slot. -/
theorem Tracks.get (h : Tracks handle table live) (hp : p ∈ live) :
    ∃ i a, p = (handle i a, a) ∧ table.get i = some a := by
  obtain ⟨entries, hentries, rfl⟩ := h
  obtain ⟨⟨i, a⟩, he, rfl⟩ := List.mem_map.mp hp
  exact ⟨i, a, rfl, (hentries.mem_iff i a).mp he⟩

/-- Live handles have distinct indices. -/
theorem Tracks.nodup (h : Tracks handle table live) (index : H → UInt32)
    (hindex : ∀ i a, index (handle i a) = i) : (live.map fun p => index p.1).Nodup := by
  obtain ⟨entries, hentries, rfl⟩ := h
  have hmap : (entries.map fun e => (handle e.1 e.2, e.2)).map (fun p => index p.1) =
      entries.map Prod.fst := by
    rw [List.map_map]
    exact List.map_congr_left fun e _ => hindex e.1 e.2
  rw [hmap]
  exact hentries.nodup

/-- Every handle is counted. -/
theorem Tracks.count (h : Tracks handle table live) : table.count = live.length := by
  obtain ⟨entries, hentries, rfl⟩ := h
  rw [hentries.count_eq, List.length_map]

/-- **What is registered gets a handle.** -/
theorem Tracks.add (h : Tracks handle table live) (hlen : table.slots.length < 2 ^ 32) :
    Tracks handle (table.add a) ((handle table.nextIndex a, a) :: live) := by
  obtain ⟨entries, hentries, rfl⟩ := h
  exact ⟨_, hentries.add hlen, rfl⟩

/-- **What is unregistered takes its handle with it**, and no other. -/
theorem Tracks.take [DecidableEq H] (h : Tracks handle table live) (hi : table.get i = some a)
    (index : H → UInt32) (hindex : ∀ i a, index (handle i a) = i) :
    Tracks handle (table.take i) (live.filter fun p => p.1 ≠ handle i a) := by
  obtain ⟨entries, hentries, rfl⟩ := h
  refine ⟨_, hentries.take hi, ?_⟩
  rw [List.filter_map]
  refine congrArg _ (List.filter_congr fun e he => decide_eq_decide.mpr (not_congr ?_))
  -- the handle is told by its index, as there is one entry at each
  constructor
  · intro heq
    have hidx := congrArg index heq
    rwa [hindex, hindex] at hidx
  · intro heq
    have hget := (hentries.mem_iff e.1 e.2).mp he
    rw [heq, hi] at hget
    exact congrArg₂ handle heq (Option.some.inj hget).symm

end Tables

/-! ### The handles of a registry -/

variable {s t : Registrations} {c : Call}

/-- **The live handles are the entries of the tables.** -/
def Tracked (s : Registrations) : Prop :=
  Tracks RegisteredFd.mk s.registry.registeredFds s.fds ∧
    Tracks (fun i buffer => ⟨i, buffer.bytes.length⟩) s.registry.registeredBuffers s.buffers

/-- The tables have not run out of indices. -/
def Fits (s : Registrations) : Prop :=
  s.registry.registeredFds.slots.length < 2 ^ 32 ∧
    s.registry.registeredBuffers.slots.length < 2 ^ 32

/-- A call is one of the registry. -/
theorem registry_call (s : Registrations) (c : Call) :
    (s.call c).registry = s.registry.call c := by
  cases c with
  | registerFd fd =>
    rw [call, Registry.call]
    rcases s.registry.registerFd fd with ⟨_ | _, _⟩ <;> rfl
  | registerBuffer buffer =>
    rw [call, Registry.call]
    rcases s.registry.registerBuffer buffer with ⟨_ | _, _⟩ <;> rfl
  | unregisterFd registeredFd =>
    rw [call, Registry.call]
    rcases s.registry.unregisterFd registeredFd with ⟨_ | _, _⟩ <;> rfl
  | unregisterBuffer registeredBuffer =>
    rw [call, Registry.call]
    rcases s.registry.unregisterBuffer registeredBuffer with ⟨_ | _, _⟩ <;> rfl
  | _ => rfl

/-- A call that is not about descriptors one by one, or buffers, leaves their slots. -/
theorem tracked_of_slots (h : s.Tracked) {registry : Registry}
    (hfds : (registry.table .fd).slots = (s.registry.table .fd).slots)
    (hbuffers : (registry.table .buffer).slots = (s.registry.table .buffer).slots) :
    Tracked { s with registry } :=
  ⟨h.1.of_slots hfds, h.2.of_slots hbuffers⟩

/-- **A call keeps the live handles the entries of the tables.** -/
theorem Tracked.call (h : s.Tracked) (hlen : s.Fits) (c : Call) : (s.call c).Tracked := by
  cases c with
  | registerFd fd =>
    rw [Registrations.call, Registry.registerFd]
    by_cases hneg : fd < 0
    · rw [if_pos hneg]
      exact h
    · rw [if_neg hneg]
      exact ⟨h.1.add hlen.1, h.2⟩
  | registerBuffer buffer =>
    rw [Registrations.call, Registry.registerBuffer]
    by_cases hempty : buffer.bytes.isEmpty
    · rw [if_pos hempty]
      exact h
    · rw [if_neg hempty]
      exact ⟨h.1, h.2.add hlen.2⟩
  | unregisterFd registeredFd =>
    rw [Registrations.call, Registry.unregisterFd]
    rcases unregisterSlot_answer s.registry.registeredFds registeredFd.index
      fun storedFd => storedFd = registeredFd.fd with ⟨a, hget, rfl, hanswer⟩ | hanswer
    · rw [hanswer]
      by_cases huse : registeredFd.index ∈ s.registry.registeredFds.inUse
      · rw [if_pos huse]
        exact h
      · rw [if_neg huse]
        exact ⟨h.1.take hget RegisteredFd.index fun _ _ => rfl, h.2⟩
    · rw [hanswer]
      exact h
  | unregisterBuffer registeredBuffer =>
    rw [Registrations.call, Registry.unregisterBuffer]
    rcases unregisterSlot_answer s.registry.registeredBuffers registeredBuffer.index
      fun buffer => buffer.bytes.length = registeredBuffer.size with
      ⟨a, hget, hsize, hanswer⟩ | hanswer
    · rw [hanswer]
      by_cases huse : registeredBuffer.index ∈ s.registry.registeredBuffers.inUse
      · rw [if_pos huse]
        exact h
      · rw [if_neg huse]
        have htake := h.2.take hget RegisteredBuffer.index fun _ _ => rfl
        rw [hsize] at htake
        exact ⟨h.1, htake⟩
    · rw [hanswer]
      exact h
  | markInUse handle =>
    exact tracked_of_slots h (Registry.slots_markInUse handle .fd)
      (Registry.slots_markInUse handle .buffer)
  | markNotInUse handle =>
    exact tracked_of_slots h (Registry.slots_markNotInUse handle .fd)
      (Registry.slots_markNotInUse handle .buffer)
  | _ =>
    refine tracked_of_slots h ?_ ?_
    all_goals
      rw [Registry.table_call_of_ne]
      exact ResourceKind.noConfusion

/-- A call leaves no fewer slots. -/
theorem Fits.of_call (h : (s.call c).Fits) : s.Fits := by
  rw [Fits, registry_call] at h
  exact ⟨(Registry.length_le_call (Or.inl rfl) c).trans_lt h.1,
    (Registry.length_le_call (Or.inr rfl) c).trans_lt h.2⟩

/-- **A registry is faithful to the entries of its tables.** -/
theorem Tracked.faithful (h : s.Tracked) : s.Faithful where
  fds_nodup := h.1.nodup RegisteredFd.index fun _ _ => rfl
  buffers_nodup := h.2.nodup RegisteredBuffer.index fun _ _ => rfl
  fd := by
    intro p hp
    obtain ⟨i, fd, rfl, hget⟩ := h.1.get hp
    exact getSlot_of_get (fun stored => stored = fd) hget rfl
  buffer := by
    intro p hp
    obtain ⟨i, buffer, rfl, hget⟩ := h.2.get hp
    exact getSlot_of_get (fun stored => stored.bytes.length = buffer.bytes.length) hget rfl
  unregisterFd := by
    intro p hp
    obtain ⟨i, fd, rfl, hget⟩ := h.1.get hp
    rw [Registry.unregisterFd, unregisterSlot_of_get _ _ hget (fun stored => stored = fd) rfl]
    by_cases huse : i ∈ s.registry.registeredFds.inUse
    · simp only [if_pos huse]
      rfl
    · simp only [if_neg huse]
      rfl
  unregisterBuffer := by
    intro p hp
    obtain ⟨i, buffer, rfl, hget⟩ := h.2.get hp
    rw [Registry.unregisterBuffer, unregisterSlot_of_get _ _ hget
      (fun stored => stored.bytes.length = buffer.bytes.length) rfl]
    by_cases huse : i ∈ s.registry.registeredBuffers.inUse
    · simp only [if_pos huse]
    · simp only [if_neg huse]
  fdCount := h.1.count
  bufferCount := h.2.count

/-- **A call leaves the live handles that it does not unregister.** -/
theorem Faithful.leaves (h : s.Faithful) (c : Call) : Leaves ⟨s, c, s.call c⟩ := by
  cases c with
  | registerFd fd =>
    refine ⟨fun p hp => Or.inl ?_, fun p hp => Or.inl ?_⟩ <;> simp only [call]
    · rcases s.registry.registerFd fd with ⟨_ | registeredFd, registry⟩
      · exact hp
      · exact List.mem_cons_of_mem _ hp
    · rcases s.registry.registerFd fd with ⟨_ | registeredFd, registry⟩ <;> exact hp
  | registerBuffer buffer =>
    refine ⟨fun p hp => Or.inl ?_, fun p hp => Or.inl ?_⟩ <;> simp only [call]
    · rcases s.registry.registerBuffer buffer with ⟨_ | registeredBuffer, registry⟩ <;> exact hp
    · rcases s.registry.registerBuffer buffer with ⟨_ | registeredBuffer, registry⟩
      · exact hp
      · exact List.mem_cons_of_mem _ hp
  | unregisterFd registeredFd =>
    simp only [Leaves, call]
    rcases hanswer : s.registry.unregisterFd registeredFd with ⟨_ | ⟨⟩, registry⟩
    · exact ⟨fun p hp => Or.inl hp, fun p hp => Or.inl hp⟩
    refine ⟨fun p hp => ?_, fun p hp => Or.inl hp⟩
    by_cases heq : p.1 = registeredFd
    · exact Or.inr ⟨by rw [heq], by rw [heq, hanswer]⟩
    · exact Or.inl (List.mem_filter.mpr ⟨hp, decide_eq_true heq⟩)
  | unregisterBuffer registeredBuffer =>
    simp only [Leaves, call]
    rcases hanswer : s.registry.unregisterBuffer registeredBuffer with ⟨_ | buffer, registry⟩
    · exact ⟨fun p hp => Or.inl hp, fun p hp => Or.inl hp⟩
    refine ⟨fun p hp => Or.inl hp, fun p hp => ?_⟩
    by_cases heq : p.1 = registeredBuffer
    · -- what is given back is what was registered under the handle
      have hown := h.unregisterBuffer p hp
      rw [heq, hanswer] at hown
      refine Or.inr ⟨by rw [heq], ?_⟩
      rw [heq, hanswer]
      split at hown
      · exact absurd hown (by simp)
      · exact hown
    · exact Or.inl (List.mem_filter.mpr ⟨hp, decide_eq_true heq⟩)
  | _ => exact ⟨fun p hp => Or.inl hp, fun p hp => Or.inl hp⟩

/-- **A registry that has not run out of indices is faithful to its live handles**, and each is
live until it is unregistered. -/
theorem faithful_of_run {ms : List (Transition.Move Registrations Call)}
    (hrun : Transition.Run Step new ms s)
    (hfds : s.registry.registeredFds.slots.length < 2 ^ 32)
    (hbuffers : s.registry.registeredBuffers.slots.length < 2 ^ 32) :
    Transition.Always Faithful new ms ∧ ∀ m ∈ ms, Leaves m := by
  let Inv : Registrations → Prop := fun s => s.Fits → s.Tracked
  have hstep : ∀ s c t, Step s c t → True → Inv s → Inv t := by
    rintro s c _ rfl - hinv hfits
    exact (hinv hfits.of_call).call hfits.of_call c
  have hback : ∀ s c t, Step s c t → t.Fits → s.Fits := by
    rintro s c _ rfl hfits
    exact hfits.of_call
  have hnew : Inv new := fun _ => ⟨tracks_empty, tracks_empty⟩
  have halways : Transition.Always Faithful new ms :=
    hrun.always_of_end Inv Fits hstep hback (fun s hinv hfits => (hinv hfits).faithful)
      (fun _ _ => trivial) hnew ⟨hfds, hbuffers⟩
  refine ⟨halways, fun m hm => ?_⟩
  have hleaves := (hrun.before_of_always halways hm).leaves m.label
  rwa [hrun.step_of_mem hm] at hleaves

/-- The first of two descriptors is unregistered, and a third registered; and a buffer. -/
def reuse : List Call :=
  [.registerFd 3, .registerFd 4, .unregisterFd ⟨0, 3⟩, .registerFd 5, .registerBuffer ⟨64, [1, 2]⟩]

/-- **The third takes the slot of the first.** -/
theorem faithful_reuse : ∃ ms s, Transition.Run Step new ms s ∧
    ms.map Transition.Move.label = reuse ∧ s.fds = [(⟨0, 5⟩, 5), (⟨1, 4⟩, 4)] ∧
    s.buffers = [(⟨0, 2⟩, ⟨64, [1, 2]⟩)] ∧
    Transition.Always Faithful new ms ∧ ∀ m ∈ ms, Leaves m := by
  have hrun : Transition.Run Step new _ _ :=
    ((((Transition.Run.single (a := .registerFd 3) rfl).snoc (a := .registerFd 4) rfl).snoc
      (a := .unregisterFd ⟨0, 3⟩) rfl).snoc (a := .registerFd 5) rfl).snoc
      (a := .registerBuffer ⟨64, [1, 2]⟩) rfl
  exact ⟨_, _, hrun, rfl, rfl, rfl, faithful_of_run hrun (by decide) (by decide)⟩

end Registrations

end SaferRing
