import SaferRing.Registry.Lookup

/-!
# Handles that are stale

Fixed files and buffer slots are registered all at once. When others are registered in their
place, or they are unregistered, the handles to them are stale (`SaferRing.Generations`), and
should no longer be taken for handles to anything (`SaferRing.Generations.StaleRejected`).

But a handle keeps no more than an index, and a descriptor or a size. Looking it up compares
these with what is registered at the index now, and marking it in use does not even do that. So
a stale handle is taken for one to whatever has its index, and `SaferRing.Generations.rejected_iff`
says that stale handles are rejected only until something is registered a second time.
-/

namespace SaferRing

section Tables

variable {α : Type} {table : SlotTable α} {index : UInt32}

/-- **A handle is rejected exactly when there is nothing at its index**, if it is looked up and
marked. -/
theorem rejected_iff_get (isOfHandle : α → Prop) [DecidablePred isOfHandle] :
    getSlot table index isOfHandle = .error .notRegistered ∧
      markSlotInUse table index = (.error .notRegistered, table) ↔ table.get index = none := by
  rw [getSlot_eq_error_iff]
  rcases markSlotInUse_cases table index with ⟨hsome, hmark⟩ | ⟨hnone, hmark⟩
  · rw [hmark]
    obtain ⟨a, ha⟩ := Option.isSome_iff_exists.mp hsome
    exact iff_of_false (fun h => absurd (congrArg Prod.fst h.2) (by simp)) (by simp [ha])
  · have hget := Option.not_isSome_iff_eq_none.mp hnone
    exact iff_of_true ⟨fun a ha => absurd (hget.symm.trans ha) (by simp), hmark⟩ hget

end Tables

namespace Registry

variable (self : Registry)

/-- A handle of a fixed file is rejected, looked up or marked in use. -/
def RejectsFixedFile (fixedFile : FixedFile) : Prop :=
  self.getFixedFileFd fixedFile = .error .notRegistered ∧
    self.markFixedFileInUse fixedFile = (.error .notRegistered, self)

/-- A handle of a buffer slot is rejected, looked up or marked in use. -/
def RejectsBufferSlot (bufferSlot : RegisteredBufferSlot) : Prop :=
  self.getBufferSlot bufferSlot = .error .notRegistered ∧
    self.markBufferSlotInUse bufferSlot = (.error .notRegistered, self)

variable {self}

/-- A fixed file is rejected exactly when there is nothing at its index. -/
theorem rejectsFixedFile_iff {fixedFile : FixedFile} :
    self.RejectsFixedFile fixedFile ↔ self.fixedFiles.get fixedFile.index = none := by
  rw [← rejected_iff_get fun fd => fd = fixedFile.fd]
  refine and_congr_right fun _ => ⟨fun h => ?_, fun h => ?_⟩
  · have hresult := congrArg Prod.fst h
    have htable := congrArg (fun answer => answer.2.fixedFiles) h
    exact Prod.ext hresult htable
  · rw [markFixedFileInUse, h]

/-- A buffer slot is rejected exactly when there is nothing at its index. -/
theorem rejectsBufferSlot_iff {bufferSlot : RegisteredBufferSlot} :
    self.RejectsBufferSlot bufferSlot ↔
      self.registeredBufferSlots.get bufferSlot.index = none := by
  rw [← rejected_iff_get fun buffer => buffer.size = bufferSlot.size]
  refine and_congr_right fun _ => ⟨fun h => ?_, fun h => ?_⟩
  · have hresult := congrArg Prod.fst h
    have htable := congrArg (fun answer => answer.2.registeredBufferSlots) h
    exact Prod.ext hresult htable
  · rw [markBufferSlotInUse, h]

end Registry

/-- **A registry, and the handles that registering all at once gave**: those of what is
registered, and those that are stale. -/
structure Generations where
  /-- The registry. -/
  registry : Registry
  /-- The handles of the fixed files that are registered. -/
  fixedFiles : List FixedFile
  /-- The handles of those that were. -/
  staleFiles : List FixedFile
  /-- The handles of the buffer slots that are registered. -/
  bufferSlots : List RegisteredBufferSlot
  /-- The handles of those that were. -/
  staleSlots : List RegisteredBufferSlot

namespace Generations

/-- Nothing is registered. -/
def new : Generations := ⟨.new, [], [], [], []⟩

/-- **What a call does to a registry and to the handles.** Registering nothing leaves what is
registered. -/
def call (self : Generations) : Call → Generations
  | .registerFixedFiles fds =>
    let (result, registry) := self.registry.registerFixedFiles fds
    match result with
    | .ok [] | .error _ => { self with registry }
    | .ok fixedFiles =>
      { self with registry, fixedFiles, staleFiles := self.staleFiles ++ self.fixedFiles }
  | .unregisterFixedFiles =>
    let (result, registry) := self.registry.unregisterFixedFiles
    match result with
    | .ok () =>
      { self with registry, fixedFiles := [], staleFiles := self.staleFiles ++ self.fixedFiles }
    | .error _ => { self with registry }
  | .registerBufferSlots buffers =>
    let (result, registry) := self.registry.registerBufferSlots buffers
    match result with
    | .ok [] | .error _ => { self with registry }
    | .ok bufferSlots =>
      { self with registry, bufferSlots, staleSlots := self.staleSlots ++ self.bufferSlots }
  | .unregisterBufferSlots =>
    let (result, registry) := self.registry.unregisterBufferSlots
    match result with
    | .ok _ =>
      { self with registry, bufferSlots := [], staleSlots := self.staleSlots ++ self.bufferSlots }
    | .error _ => { self with registry }
  | c => { self with registry := self.registry.call c }

/-- The step relation. -/
abbrev Step (s : Generations) (c : Call) (t : Generations) : Prop := s.call c = t

/-- **Stale handles are rejected.** -/
def StaleRejected (s : Generations) : Prop :=
  (∀ fixedFile ∈ s.staleFiles, s.registry.RejectsFixedFile fixedFile) ∧
    ∀ bufferSlot ∈ s.staleSlots, s.registry.RejectsBufferSlot bufferSlot

/-- **A call registers nothing of a kind of which something was registered before.** -/
def First (s : Generations) : Call → Prop
  | .registerFixedFiles fds => fds ≠ [] → (∀ fd ∈ fds, 0 ≤ fd) →
    s.fixedFiles = [] ∧ s.staleFiles = []
  | .registerBufferSlots buffers => buffers ≠ [] → s.bufferSlots = [] ∧ s.staleSlots = []
  | _ => True

/-! ### The handles of one table -/

section Tables

variable {α H : Type} {index : H → UInt32} {table table' : SlotTable α} {as : List α}
  {handles handles' : List H}

/-- There is nothing at the index of any handle. -/
def NoneAt (index : H → UInt32) (table : SlotTable α) (handles : List H) : Prop :=
  ∀ h ∈ handles, table.get (index h) = none

/-- Handles are given from the first index on. -/
def FromFirst (index : H → UInt32) (handles : List H) : Prop :=
  handles ≠ [] → ∃ h ∈ handles, index h = 0

theorem FromFirst.append (h : FromFirst index handles) (h' : FromFirst index handles') :
    FromFirst index (handles ++ handles') := by
  intro hne
  by_cases hnil : handles = []
  · obtain ⟨x, hx, hindex⟩ := h' fun hnil' => hne (by rw [hnil, hnil', List.append_nil])
    exact ⟨x, List.mem_append_right _ hx, hindex⟩
  · obtain ⟨x, hx, hindex⟩ := h hnil
    exact ⟨x, List.mem_append_left _ hx, hindex⟩

/-- What keeps the slots keeps there being nothing in them. -/
theorem noneAt_of_slots (hslots : table'.slots = table.slots) :
    NoneAt index table' handles ↔ NoneAt index table handles := by
  simp only [NoneAt, SlotTable.get, hslots]

/-- There is nothing in a table that is dropped. -/
theorem noneAt_clear : NoneAt index table.clear handles := fun _ _ => rfl

/-- **Something is at the first index of a table that is new**, for which a stale handle is
taken. -/
theorem noneAt_replace_iff (h : FromFirst index handles) (has : as ≠ []) :
    NoneAt index (.replace as) handles ↔ handles = [] := by
  constructor
  · intro hnone
    by_contra hne
    obtain ⟨x, hx, hindex⟩ := h hne
    obtain ⟨a, as, rfl⟩ := List.exists_cons_of_ne_nil has
    have hget := hnone x hx
    rw [hindex] at hget
    exact absurd hget (by simp [SlotTable.get, SlotTable.replace])
  · rintro rfl
    exact fun _ hx => absurd hx List.not_mem_nil

end Tables

/-! ### The handles of a registry -/

variable {s t : Generations} {c : Call}

/-- All handles were given from the first index on. -/
structure Indexed (s : Generations) : Prop where
  fixedFiles : FromFirst FixedFile.index s.fixedFiles
  staleFiles : FromFirst FixedFile.index s.staleFiles
  bufferSlots : FromFirst RegisteredBufferSlot.index s.bufferSlots
  staleSlots : FromFirst RegisteredBufferSlot.index s.staleSlots

/-- **Stale handles are rejected exactly when there is nothing at their indices.** -/
theorem staleRejected_iff_noneAt : s.StaleRejected ↔
    NoneAt FixedFile.index s.registry.fixedFiles s.staleFiles ∧
      NoneAt RegisteredBufferSlot.index s.registry.registeredBufferSlots s.staleSlots :=
  and_congr (forall₂_congr fun _ _ => Registry.rejectsFixedFile_iff)
    (forall₂_congr fun _ _ => Registry.rejectsBufferSlot_iff)

/-- **Registering fixed files keeps stale handles rejected exactly when it is the first time.** -/
theorem step_registerFixedFiles (h : s.Indexed) (hs : s.StaleRejected) (fds : List ℤ) :
    (s.call (.registerFixedFiles fds)).Indexed ∧
      ((s.call (.registerFixedFiles fds)).StaleRejected ↔ First s (.registerFixedFiles fds)) := by
  rw [call, Registry.registerFixedFiles]
  rcases fds with _ | ⟨fd, fds⟩
  · exact ⟨h, iff_of_true hs fun hne => absurd rfl hne⟩
  rw [if_neg (by simp)]
  rcases hneg : (fd :: fds).find? fun fd => decide (fd < 0) with _ | negative
  · have hvalid : ∀ x ∈ fd :: fds, 0 ≤ x := fun x hx => by
      simpa using List.find?_eq_none.mp hneg x hx
    have hstale := h.staleFiles.append h.fixedFiles
    refine ⟨⟨fun _ => ⟨⟨0, fd⟩, List.mem_cons_self, rfl⟩, hstale, h.bufferSlots, h.staleSlots⟩, ?_⟩
    have hslots := (staleRejected_iff_noneAt.mp hs).2
    refine staleRejected_iff_noneAt.trans ((and_iff_left hslots).trans ?_)
    refine (noneAt_replace_iff hstale (List.cons_ne_nil fd fds)).trans ?_
    rw [List.append_eq_nil_iff, and_comm]
    exact ⟨fun hnil _ _ => hnil, fun hfirst => hfirst (List.cons_ne_nil _ _) hvalid⟩
  · have hlt := of_decide_eq_true (List.find?_some (p := fun fd : ℤ => decide (fd < 0)) hneg)
    refine ⟨h, iff_of_true hs fun _ hvalid => absurd hlt ?_⟩
    exact Int.not_lt.mpr (hvalid negative (List.mem_of_find?_eq_some hneg))

/-- **Registering buffer slots does too.** -/
theorem step_registerBufferSlots (h : s.Indexed) (hs : s.StaleRejected)
    (buffers : List OwnedBuffer) :
    (s.call (.registerBufferSlots buffers)).Indexed ∧
      ((s.call (.registerBufferSlots buffers)).StaleRejected ↔
        First s (.registerBufferSlots buffers)) := by
  rw [call, Registry.registerBufferSlots]
  rcases buffers with _ | ⟨buffer, buffers⟩
  · exact ⟨h, iff_of_true hs fun hne => absurd rfl hne⟩
  rw [if_neg (by simp)]
  have hstale := h.staleSlots.append h.bufferSlots
  refine ⟨⟨h.fixedFiles, h.staleFiles, fun _ => ⟨⟨0, buffer.size, false⟩, List.mem_cons_self, rfl⟩,
    hstale⟩, ?_⟩
  have hfiles := (staleRejected_iff_noneAt.mp hs).1
  refine staleRejected_iff_noneAt.trans ((and_iff_right hfiles).trans ?_)
  refine (noneAt_replace_iff hstale (List.cons_ne_nil buffer buffers)).trans ?_
  rw [List.append_eq_nil_iff, and_comm]
  exact ⟨fun hnil _ => hnil, fun hfirst => hfirst (List.cons_ne_nil _ _)⟩

/-- What keeps the slots keeps stale handles rejected. -/
theorem kept_of_slots (h : s.Indexed) (hs : s.StaleRejected) {registry : Registry}
    (hfiles : (registry.table .fixedFile).slots = (s.registry.table .fixedFile).slots)
    (hslots : (registry.table .bufferSlot).slots = (s.registry.table .bufferSlot).slots) :
    Indexed { s with registry } ∧ (StaleRejected { s with registry } ↔ True) := by
  obtain ⟨hnone, hnone'⟩ := staleRejected_iff_noneAt.mp hs
  refine ⟨⟨h.fixedFiles, h.staleFiles, h.bufferSlots, h.staleSlots⟩, iff_of_true ?_ trivial⟩
  exact staleRejected_iff_noneAt.mpr
    ⟨(noneAt_of_slots hfiles).mpr hnone, (noneAt_of_slots hslots).mpr hnone'⟩

/-- **A call keeps stale handles rejected exactly when it does not register again.** -/
theorem staleRejected_call (h : s.Indexed) (hs : s.StaleRejected) (c : Call) :
    (s.call c).Indexed ∧ ((s.call c).StaleRejected ↔ First s c) := by
  obtain ⟨hfiles, hslots⟩ := staleRejected_iff_noneAt.mp hs
  cases c with
  | registerFixedFiles fds => exact step_registerFixedFiles h hs fds
  | registerBufferSlots buffers => exact step_registerBufferSlots h hs buffers
  | unregisterFixedFiles =>
    rw [call, Registry.unregisterFixedFiles, unregisterSlots]
    by_cases huse : s.registry.fixedFiles.inUse ≠ ∅
    · rw [if_pos huse]
      exact ⟨h, iff_of_true hs trivial⟩
    · rw [if_neg huse]
      refine ⟨⟨absurd rfl, h.staleFiles.append h.fixedFiles, h.bufferSlots, h.staleSlots⟩, ?_⟩
      exact iff_of_true (staleRejected_iff_noneAt.mpr ⟨noneAt_clear, hslots⟩) trivial
  | unregisterBufferSlots =>
    rw [call, Registry.unregisterBufferSlots, unregisterSlots]
    by_cases huse : s.registry.registeredBufferSlots.inUse ≠ ∅
    · rw [if_pos huse]
      exact ⟨h, iff_of_true hs trivial⟩
    · rw [if_neg huse]
      refine ⟨⟨h.fixedFiles, h.staleFiles, absurd rfl, h.staleSlots.append h.bufferSlots⟩, ?_⟩
      exact iff_of_true (staleRejected_iff_noneAt.mpr ⟨hfiles, noneAt_clear⟩) trivial
  | markInUse handle =>
    exact kept_of_slots h hs (Registry.slots_markInUse handle .fixedFile)
      (Registry.slots_markInUse handle .bufferSlot)
  | markNotInUse handle =>
    exact kept_of_slots h hs (Registry.slots_markNotInUse handle .fixedFile)
      (Registry.slots_markNotInUse handle .bufferSlot)
  | _ =>
    refine kept_of_slots h hs ?_ ?_
    all_goals
      rw [Registry.table_call_of_ne]
      exact ResourceKind.noConfusion

/-- **Stale handles are rejected all along exactly when nothing is registered a second time.** -/
theorem rejected_iff {ms : List (Transition.Move Generations Call)}
    (hrun : Transition.Run Step new ms s) :
    Transition.Always StaleRejected new ms ↔ Transition.Guarded First ms := by
  have hexact : ∀ s c t, Step s c t → s.Indexed → s.StaleRejected →
      t.Indexed ∧ (t.StaleRejected ↔ First s c) := by
    rintro s c _ rfl h hs
    exact staleRejected_call h hs c
  have hnew : new.Indexed := ⟨absurd rfl, absurd rfl, absurd rfl, absurd rfl⟩
  exact hrun.always_iff_step hexact hnew
    ⟨fun _ hmem => absurd hmem List.not_mem_nil, fun _ hmem => absurd hmem List.not_mem_nil⟩

/-- A fixed file is registered and unregistered. -/
def unregistered : List Call := [.registerFixedFiles [3], .unregisterFixedFiles]

/-- **Its handle is rejected.** -/
theorem rejected_unregistered : ∃ ms s, Transition.Run Step new ms s ∧
    ms.map Transition.Move.label = unregistered ∧ s.staleFiles = [⟨0, 3⟩] ∧
    Transition.Always StaleRejected new ms := by
  have hrun : Transition.Run Step new _ _ :=
    (Transition.Run.single (a := .registerFixedFiles [3]) rfl).snoc
      (a := .unregisterFixedFiles) rfl
  refine ⟨_, _, hrun, rfl, rfl, (rejected_iff hrun).mpr ?_⟩
  exact Transition.guarded_snoc.mpr
    ⟨Transition.guarded_snoc.mpr ⟨Transition.guarded_nil, fun _ _ => ⟨rfl, rfl⟩⟩, trivial⟩

/-- The same file is registered once more. -/
def registeredAgain : List Call := unregistered ++ [.registerFixedFiles [3]]

/-- **Its first handle is taken for the second**, and marks it in use. -/
theorem not_rejected_registeredAgain : ∃ ms s, Transition.Run Step new ms s ∧
    ms.map Transition.Move.label = registeredAgain ∧ s.staleFiles = [⟨0, 3⟩] ∧
    (s.registry.getFixedFileFd ⟨0, 3⟩).toOption = some 3 ∧
    0 ∈ (s.registry.markFixedFileInUse ⟨0, 3⟩).2.fixedFiles.inUse ∧ ¬s.StaleRejected := by
  have hrun : Transition.Run Step new _ _ :=
    ((Transition.Run.single (a := .registerFixedFiles [3]) rfl).snoc
      (a := .unregisterFixedFiles) rfl).snoc (a := .registerFixedFiles [3]) rfl
  refine ⟨_, _, hrun, rfl, rfl, rfl, by decide, fun h => ?_⟩
  have hget := Registry.rejectsFixedFile_iff.mp (h.1 ⟨0, 3⟩ (by decide))
  exact absurd hget (by decide)

end Generations

end SaferRing
