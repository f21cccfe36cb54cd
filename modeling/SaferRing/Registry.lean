import SaferRing.Error
import SaferRing.Library.SlotTable
import SaferRing.Library.Run
import SaferRing.Ownership

/-!
# The registry of descriptors and buffers

A `SaferRing.Registry` has four tables of what can be registered: descriptors, pinned buffers,
fixed files and buffer slots. Each is a `SlotTable`, with the set of the indices that are in
use. What a handle names (`SaferRing.Handle`) is marked in use when an operation on it is
submitted, and no longer when the operation completes.

The functions that change a registry are the calls (`SaferRing.Call`); the others look
something up. What a call does to each table is `SaferRing.Registry.table_call`, so that what
is in use is always registered (`SaferRing.Registry.Sound`).
-/

namespace SaferRing

/-! ### Handles -/

/-- A handle to a registered descriptor. -/
structure RegisteredFd where
  /-- The index in the table. -/
  index : UInt32
  /-- The descriptor. -/
  fd : ℤ
  deriving DecidableEq, Repr

/-- A handle to a registered buffer. -/
structure RegisteredBuffer where
  /-- The index in the table. -/
  index : UInt32
  /-- The size of the buffer. -/
  size : ℕ
  deriving DecidableEq, Repr

/-- A handle to a fixed file. -/
structure FixedFile where
  /-- The index in the table. -/
  index : UInt32
  /-- The descriptor. -/
  fd : ℤ
  deriving DecidableEq, Repr

/-- A handle to a buffer slot. -/
structure RegisteredBufferSlot where
  /-- The index in the table. -/
  index : UInt32
  /-- The size of the buffer. -/
  size : ℕ
  /-- Whether it is in use: `false` in every handle. -/
  inUse : Bool
  deriving DecidableEq, Repr

/-! ### What the tables share -/

section Tables

variable {α : Type} (table : SlotTable α) (index : UInt32)

/-- Unregister what is at an index, if it is what the handle is of and is not in use. -/
def unregisterSlot (isOfHandle : α → Prop) [DecidablePred isOfHandle] :
    Except SaferRingError α × SlotTable α :=
  match table.get index with
  | none => (.error .notRegistered, table)
  | some stored =>
    if ¬isOfHandle stored then (.error .notRegistered, table)
    else if index ∈ table.inUse then (.error .bufferInFlight, table)
    else (.ok stored, table.take index)

/-- Unregister everything, if nothing is in use. -/
def unregisterSlots : Except SaferRingError (List α) × SlotTable α :=
  if table.inUse ≠ ∅ then (.error .bufferInFlight, table)
  else (.ok table.slots.reduceOption, table.clear)

/-- Mark an index in use. What is registered there is not compared with the handle. -/
def markSlotInUse : Except SaferRingError Unit × SlotTable α :=
  match table.get index with
  | none => (.error .notRegistered, table)
  | some _ => (.ok (), table.mark index)

/-- **What is unregistered** was registered, and is not in use. -/
theorem unregisterSlot_cases (isOfHandle : α → Prop) [DecidablePred isOfHandle] :
    ((∃ a, table.get index = some a ∧ isOfHandle a) ∧ index ∉ table.inUse ∧
      (unregisterSlot table index isOfHandle).2 = table.take index) ∨
    (¬((∃ a, table.get index = some a ∧ isOfHandle a) ∧ index ∉ table.inUse) ∧
      (unregisterSlot table index isOfHandle).2 = table) := by
  rw [unregisterSlot]
  rcases table.get index with _ | stored
  · exact Or.inr ⟨by simp, rfl⟩
  by_cases hmatch : isOfHandle stored
  swap
  · refine Or.inr ⟨fun h => ?_, by simp only [if_pos hmatch]⟩
    obtain ⟨⟨a, ha, hmatch'⟩, -⟩ := h
    exact hmatch (Option.some.inj ha ▸ hmatch')
  by_cases huse : index ∈ table.inUse
  · refine Or.inr ⟨fun h => h.2 huse, ?_⟩
    simp only [if_neg (not_not.mpr hmatch), if_pos huse]
  · refine Or.inl ⟨⟨stored, rfl, hmatch⟩, huse, ?_⟩
    simp only [if_neg (not_not.mpr hmatch), if_neg huse]

/-- What is registered is unregistered, unless it is in use. -/
theorem unregisterSlot_of_get {a : α} (h : table.get index = some a) (isOfHandle : α → Prop)
    [DecidablePred isOfHandle] (ha : isOfHandle a) :
    unregisterSlot table index isOfHandle =
      if index ∈ table.inUse then (.error .bufferInFlight, table)
      else (.ok a, table.take index) := by
  rw [unregisterSlot, h]
  exact if_neg (not_not.mpr ha)

/-- What unregistering answers. -/
theorem unregisterSlot_answer (isOfHandle : α → Prop) [DecidablePred isOfHandle] :
    (∃ a, table.get index = some a ∧ isOfHandle a ∧ unregisterSlot table index isOfHandle =
      if index ∈ table.inUse then (.error .bufferInFlight, table)
      else (.ok a, table.take index)) ∨
    unregisterSlot table index isOfHandle = (.error .notRegistered, table) := by
  rcases hget : table.get index with _ | a
  · refine Or.inr ?_
    rw [unregisterSlot, hget]
  by_cases ha : isOfHandle a
  · exact Or.inl ⟨a, rfl, ha, unregisterSlot_of_get table index hget isOfHandle ha⟩
  · refine Or.inr ?_
    rw [unregisterSlot, hget]
    exact if_pos ha

/-- All is unregistered when nothing is in use. -/
theorem unregisterSlots_cases :
    (table.inUse = ∅ ∧ (unregisterSlots table).2 = table.clear) ∨
    (table.inUse ≠ ∅ ∧ (unregisterSlots table).2 = table) := by
  rw [unregisterSlots]
  by_cases huse : table.inUse = ∅
  · exact Or.inl ⟨huse, by rw [if_neg (not_not.mpr huse)]⟩
  · exact Or.inr ⟨huse, by rw [if_pos huse]⟩

/-- What is marked in use is registered. -/
theorem markSlotInUse_cases :
    ((table.get index).isSome ∧ markSlotInUse table index = (.ok (), table.mark index)) ∨
    (¬(table.get index).isSome ∧
      markSlotInUse table index = (.error .notRegistered, table)) := by
  rw [markSlotInUse]
  rcases table.get index with _ | stored
  · exact Or.inr ⟨by simp, rfl⟩
  · exact Or.inl ⟨rfl, rfl⟩

end Tables

/-! ### The registry -/

/-- **The registry**, with its tables and what is in use of each. -/
structure Registry where
  /-- The descriptors. -/
  registeredFds : SlotTable ℤ
  /-- The pinned buffers. -/
  registeredBuffers : SlotTable BoxedSlice
  /-- The fixed files. -/
  fixedFiles : SlotTable ℤ
  /-- The buffer slots. -/
  registeredBufferSlots : SlotTable OwnedBuffer

namespace Registry

/-- A new registry. -/
def new : Registry := ⟨.empty, .empty, .empty, .empty⟩

variable (self : Registry)

/-- Register a descriptor. -/
def registerFd (fd : ℤ) : Except SaferRingError RegisteredFd × Registry :=
  if fd < 0 then (.error (.ioNew .invalidInput "File descriptor must be non-negative"), self)
  else (.ok ⟨self.registeredFds.nextIndex, fd⟩,
    { self with registeredFds := self.registeredFds.add fd })

/-- Register a buffer. -/
def registerBuffer (buffer : BoxedSlice) : Except SaferRingError RegisteredBuffer × Registry :=
  if buffer.bytes.isEmpty then (.error (.ioNew .invalidInput "Buffer cannot be empty"), self)
  else (.ok ⟨self.registeredBuffers.nextIndex, buffer.bytes.length⟩,
    { self with registeredBuffers := self.registeredBuffers.add buffer })

/-- Unregister a descriptor. -/
def unregisterFd (registeredFd : RegisteredFd) : Except SaferRingError Unit × Registry :=
  let (result, registeredFds) := unregisterSlot self.registeredFds registeredFd.index
    fun storedFd => storedFd = registeredFd.fd
  (result.map fun _ => (), { self with registeredFds })

/-- Unregister a buffer, which is given back. -/
def unregisterBuffer (registeredBuffer : RegisteredBuffer) :
    Except SaferRingError BoxedSlice × Registry :=
  let (result, registeredBuffers) := unregisterSlot self.registeredBuffers registeredBuffer.index
    fun buffer => buffer.bytes.length = registeredBuffer.size
  (result, { self with registeredBuffers })

/-- Mark a descriptor in use. -/
def markFdInUse (registeredFd : RegisteredFd) : Except SaferRingError Unit × Registry :=
  let (result, registeredFds) := markSlotInUse self.registeredFds registeredFd.index
  (result, { self with registeredFds })

/-- Mark a descriptor no longer in use. -/
def markFdNotInUse (registeredFd : RegisteredFd) : Registry :=
  { self with registeredFds := self.registeredFds.unmark registeredFd.index }

/-- Mark a buffer in use. -/
def markBufferInUse (registeredBuffer : RegisteredBuffer) :
    Except SaferRingError Unit × Registry :=
  let (result, registeredBuffers) := markSlotInUse self.registeredBuffers registeredBuffer.index
  (result, { self with registeredBuffers })

/-- Mark a buffer no longer in use. -/
def markBufferNotInUse (registeredBuffer : RegisteredBuffer) : Registry :=
  { self with registeredBuffers := self.registeredBuffers.unmark registeredBuffer.index }

/-- Register fixed files, in place of those there are. The first descriptor that is negative is
refused. -/
def registerFixedFiles (fds : List ℤ) : Except SaferRingError (List FixedFile) × Registry :=
  if fds.isEmpty then (.ok [], self)
  else
    match fds.find? fun fd => decide (fd < 0) with
    | some fd => (.error (.ioNew .invalidInput s!"Invalid file descriptor: {fd}"), self)
    | none => (.ok (fds.zipIdx.map fun (fd, index) => ⟨UInt32.ofNat index, fd⟩),
        { self with fixedFiles := .replace fds })

/-- Unregister all fixed files. -/
def unregisterFixedFiles : Except SaferRingError Unit × Registry :=
  let (result, fixedFiles) := unregisterSlots self.fixedFiles
  (result.map fun _ => (), { self with fixedFiles })

/-- Register buffer slots, in place of those there are. -/
def registerBufferSlots (buffers : List OwnedBuffer) :
    Except SaferRingError (List RegisteredBufferSlot) × Registry :=
  if buffers.isEmpty then (.ok [], self)
  else (.ok (buffers.zipIdx.map fun (buffer, index) => ⟨UInt32.ofNat index, buffer.size, false⟩),
    { self with registeredBufferSlots := .replace buffers })

/-- Unregister all buffer slots, which are given back. -/
def unregisterBufferSlots : Except SaferRingError (List OwnedBuffer) × Registry :=
  let (result, registeredBufferSlots) := unregisterSlots self.registeredBufferSlots
  (result, { self with registeredBufferSlots })

/-- Mark a fixed file in use. -/
def markFixedFileInUse (fixedFile : FixedFile) : Except SaferRingError Unit × Registry :=
  let (result, fixedFiles) := markSlotInUse self.fixedFiles fixedFile.index
  (result, { self with fixedFiles })

/-- Mark a fixed file no longer in use. -/
def markFixedFileNotInUse (fixedFile : FixedFile) : Registry :=
  { self with fixedFiles := self.fixedFiles.unmark fixedFile.index }

/-- Mark a buffer slot in use. -/
def markBufferSlotInUse (bufferSlot : RegisteredBufferSlot) :
    Except SaferRingError Unit × Registry :=
  let (result, registeredBufferSlots) := markSlotInUse self.registeredBufferSlots bufferSlot.index
  (result, { self with registeredBufferSlots })

/-- Mark a buffer slot no longer in use. -/
def markBufferSlotNotInUse (bufferSlot : RegisteredBufferSlot) : Registry :=
  { self with registeredBufferSlots := self.registeredBufferSlots.unmark bufferSlot.index }

end Registry

/-! ### Calls -/

/-- The kinds of what is registered. -/
inductive ResourceKind
  | fd | buffer | fixedFile | bufferSlot
  deriving DecidableEq, Repr

/-- What is registered of a kind. -/
abbrev ResourceKind.Content : ResourceKind → Type
  | .fd => ℤ
  | .buffer => BoxedSlice
  | .fixedFile => ℤ
  | .bufferSlot => OwnedBuffer

/-- **A handle**, of any kind. -/
inductive Handle
  /-- To a descriptor. -/
  | fd (registeredFd : RegisteredFd)
  /-- To a buffer. -/
  | buffer (registeredBuffer : RegisteredBuffer)
  /-- To a fixed file. -/
  | fixedFile (fixedFile : FixedFile)
  /-- To a buffer slot. -/
  | bufferSlot (bufferSlot : RegisteredBufferSlot)
  deriving DecidableEq, Repr

/-- The kind of a handle. -/
def Handle.kind : Handle → ResourceKind
  | .fd _ => .fd
  | .buffer _ => .buffer
  | .fixedFile _ => .fixedFile
  | .bufferSlot _ => .bufferSlot

/-- The index of a handle. -/
def Handle.index : Handle → UInt32
  | .fd h => h.index
  | .buffer h => h.index
  | .fixedFile h => h.index
  | .bufferSlot h => h.index

/-- **The calls that can change a registry.** -/
inductive Call
  /-- `register_fd`. -/
  | registerFd (fd : ℤ)
  /-- `register_buffer`. -/
  | registerBuffer (buffer : BoxedSlice)
  /-- `unregister_fd`. -/
  | unregisterFd (registeredFd : RegisteredFd)
  /-- `unregister_buffer`. -/
  | unregisterBuffer (registeredBuffer : RegisteredBuffer)
  /-- `register_fixed_files`. -/
  | registerFixedFiles (fds : List ℤ)
  /-- `unregister_fixed_files`. -/
  | unregisterFixedFiles
  /-- `register_buffer_slots`. -/
  | registerBufferSlots (buffers : List OwnedBuffer)
  /-- `unregister_buffer_slots`. -/
  | unregisterBufferSlots
  /-- One of the functions that mark something in use. -/
  | markInUse (handle : Handle)
  /-- One of the functions that mark something no longer in use. -/
  | markNotInUse (handle : Handle)
  deriving DecidableEq, Repr

namespace Call

/-- The kind of what a call is about. -/
def kind : Call → ResourceKind
  | .registerFd _ | .unregisterFd _ => .fd
  | .registerBuffer _ | .unregisterBuffer _ => .buffer
  | .registerFixedFiles _ | .unregisterFixedFiles => .fixedFile
  | .registerBufferSlots _ | .unregisterBufferSlots => .bufferSlot
  | .markInUse handle | .markNotInUse handle => handle.kind

/-- What a call does to the table of its kind, if it does something. -/
def move : (c : Call) → SlotTable.Move c.kind.Content
  | .registerFd fd => .add fd
  | .registerBuffer buffer => .add buffer
  | .unregisterFd registeredFd => .take registeredFd.index
  | .unregisterBuffer registeredBuffer => .take registeredBuffer.index
  | .registerFixedFiles fds => .replace fds
  | .unregisterFixedFiles => .clear
  | .registerBufferSlots buffers => .replace buffers
  | .unregisterBufferSlots => .clear
  | .markInUse handle => .mark handle.index
  | .markNotInUse handle => .unmark handle.index

end Call

namespace Registry

variable (self : Registry)

/-- Mark what a handle names in use. -/
def markInUse : Handle → Except SaferRingError Unit × Registry
  | .fd registeredFd => self.markFdInUse registeredFd
  | .buffer registeredBuffer => self.markBufferInUse registeredBuffer
  | .fixedFile fixedFile => self.markFixedFileInUse fixedFile
  | .bufferSlot bufferSlot => self.markBufferSlotInUse bufferSlot

/-- Mark it no longer in use. -/
def markNotInUse : Handle → Registry
  | .fd registeredFd => self.markFdNotInUse registeredFd
  | .buffer registeredBuffer => self.markBufferNotInUse registeredBuffer
  | .fixedFile fixedFile => self.markFixedFileNotInUse fixedFile
  | .bufferSlot bufferSlot => self.markBufferSlotNotInUse bufferSlot

/-- **What a call leaves of a registry.** -/
def call : Call → Registry
  | .registerFd fd => (self.registerFd fd).2
  | .registerBuffer buffer => (self.registerBuffer buffer).2
  | .unregisterFd registeredFd => (self.unregisterFd registeredFd).2
  | .unregisterBuffer registeredBuffer => (self.unregisterBuffer registeredBuffer).2
  | .registerFixedFiles fds => (self.registerFixedFiles fds).2
  | .unregisterFixedFiles => self.unregisterFixedFiles.2
  | .registerBufferSlots buffers => (self.registerBufferSlots buffers).2
  | .unregisterBufferSlots => self.unregisterBufferSlots.2
  | .markInUse handle => (self.markInUse handle).2
  | .markNotInUse handle => self.markNotInUse handle

/-- The step relation. -/
abbrev Step (s : Registry) (call : Call) (t : Registry) : Prop := s.call call = t

/-- The table of a kind. -/
def table : (kind : ResourceKind) → SlotTable kind.Content
  | .fd => self.registeredFds
  | .buffer => self.registeredBuffers
  | .fixedFile => self.fixedFiles
  | .bufferSlot => self.registeredBufferSlots

/-- **What a call has to be given** to do something: what can be registered, or a handle of
what is. -/
def Valid : Call → Prop
  | .registerFd fd => 0 ≤ fd
  | .registerBuffer buffer => buffer.bytes ≠ []
  | .unregisterFd registeredFd =>
    ∃ fd, self.registeredFds.get registeredFd.index = some fd ∧ fd = registeredFd.fd
  | .unregisterBuffer registeredBuffer =>
    ∃ buffer, self.registeredBuffers.get registeredBuffer.index = some buffer ∧
      buffer.bytes.length = registeredBuffer.size
  | .registerFixedFiles fds => fds ≠ [] ∧ ∀ fd ∈ fds, 0 ≤ fd
  | .registerBufferSlots buffers => buffers ≠ []
  | _ => True

/-- **A call does something** when it is given what it has to be, and the table allows it. -/
def Effective (c : Call) : Prop := self.Valid c ∧ c.move.Allowed (self.table c.kind)

variable {self}

/-- **A call leaves the other tables alone.** -/
theorem table_call_of_ne {c : Call} {kind : ResourceKind} (h : c.kind ≠ kind) :
    (self.call c).table kind = self.table kind := by
  cases c with
  | registerFd fd =>
    rw [call, registerFd]
    split <;> cases kind <;> first | rfl | exact absurd rfl h
  | registerBuffer buffer =>
    rw [call, registerBuffer]
    split <;> cases kind <;> first | rfl | exact absurd rfl h
  | registerFixedFiles fds =>
    rw [call, registerFixedFiles]
    split
    · rfl
    · split <;> cases kind <;> first | rfl | exact absurd rfl h
  | registerBufferSlots buffers =>
    rw [call, registerBufferSlots]
    split <;> cases kind <;> first | rfl | exact absurd rfl h
  | markInUse handle | markNotInUse handle =>
    cases handle <;> cases kind <;> first | rfl | exact absurd rfl h
  | _ => cases kind <;> first | rfl | exact absurd rfl h

/-- What is marked in use is registered, whatever it is. -/
theorem markInUse_cases (handle : Handle) :
    (self.Effective (.markInUse handle) ∧ (self.markInUse handle).1 = .ok () ∧
      (self.markInUse handle).2.table handle.kind = (self.table handle.kind).mark handle.index) ∨
    (¬self.Effective (.markInUse handle) ∧ (self.markInUse handle).1 = .error .notRegistered ∧
      (self.markInUse handle).2.table handle.kind = self.table handle.kind) := by
  have hslot := markSlotInUse_cases (self.table handle.kind) handle.index
  cases handle
  all_goals
    rcases hslot with ⟨hsome, hmark⟩ | ⟨hnone, hmark⟩
    · exact Or.inl ⟨⟨trivial, hsome⟩, congrArg Prod.fst hmark, congrArg Prod.snd hmark⟩
    · exact Or.inr ⟨fun h => hnone h.2, congrArg Prod.fst hmark, congrArg Prod.snd hmark⟩

/-- A mark leaves the slots as they are. -/
theorem slots_markInUse (handle : Handle) (kind : ResourceKind) :
    ((self.markInUse handle).2.table kind).slots = (self.table kind).slots := by
  by_cases hk : handle.kind = kind
  · subst hk
    rcases self.markInUse_cases handle with ⟨-, -, ht⟩ | ⟨-, -, ht⟩
    · rw [ht]
      rfl
    · rw [ht]
  · exact congrArg SlotTable.slots (table_call_of_ne (c := .markInUse handle) hk)

/-- A mark that is taken away does too. -/
theorem slots_markNotInUse (handle : Handle) (kind : ResourceKind) :
    ((self.markNotInUse handle).table kind).slots = (self.table kind).slots := by
  cases handle <;> cases kind <;> rfl

/-- **What a call does to the table of its kind**: its move, if it is effective. -/
theorem table_call (c : Call) :
    (self.Effective c ∧ (self.call c).table c.kind = (self.table c.kind).move c.move) ∨
    (¬self.Effective c ∧ (self.call c).table c.kind = self.table c.kind) := by
  cases c with
  | registerFd fd =>
    rw [call, registerFd]
    by_cases hneg : fd < 0
    · rw [if_pos hneg]
      exact Or.inr ⟨fun h => absurd h.1 (Int.not_le.mpr hneg), rfl⟩
    · rw [if_neg hneg]
      exact Or.inl ⟨⟨Int.not_lt.mp hneg, trivial⟩, rfl⟩
  | registerBuffer buffer =>
    rw [call, registerBuffer]
    by_cases hempty : buffer.bytes.isEmpty
    · rw [if_pos hempty]
      exact Or.inr ⟨fun h => h.1 (List.isEmpty_iff.mp hempty), rfl⟩
    · rw [if_neg hempty]
      exact Or.inl ⟨⟨fun h => hempty (List.isEmpty_iff.mpr h), trivial⟩, rfl⟩
  | unregisterFd h =>
    rcases unregisterSlot_cases self.registeredFds h.index fun storedFd => storedFd = h.fd with
      ⟨hvalid, huse, ht⟩ | ⟨hnot, ht⟩
    · exact Or.inl ⟨⟨hvalid, huse⟩, ht⟩
    · exact Or.inr ⟨hnot, ht⟩
  | unregisterBuffer h =>
    rcases unregisterSlot_cases self.registeredBuffers h.index fun buffer =>
      buffer.bytes.length = h.size with ⟨hvalid, huse, ht⟩ | ⟨hnot, ht⟩
    · exact Or.inl ⟨⟨hvalid, huse⟩, ht⟩
    · exact Or.inr ⟨hnot, ht⟩
  | registerFixedFiles fds =>
    rw [call, registerFixedFiles]
    by_cases hempty : fds.isEmpty
    · rw [if_pos hempty]
      exact Or.inr ⟨fun h => h.1.1 (List.isEmpty_iff.mp hempty), rfl⟩
    rw [if_neg hempty]
    rcases hneg : fds.find? fun fd => decide (fd < 0) with _ | fd
    · have hvalid := List.find?_eq_none.mp hneg
      refine Or.inl ⟨⟨⟨fun h => hempty (List.isEmpty_iff.mpr h), fun fd hfd => ?_⟩, trivial⟩, rfl⟩
      simpa using hvalid fd hfd
    · have hlt := List.find?_some (p := fun fd : ℤ => decide (fd < 0)) hneg
      refine Or.inr ⟨fun h => ?_, rfl⟩
      have hfd := h.1.2 fd (List.mem_of_find?_eq_some hneg)
      exact absurd (of_decide_eq_true hlt) (Int.not_lt.mpr hfd)
  | unregisterFixedFiles =>
    rcases unregisterSlots_cases self.fixedFiles with ⟨huse, ht⟩ | ⟨huse, ht⟩
    · exact Or.inl ⟨⟨trivial, huse⟩, ht⟩
    · exact Or.inr ⟨fun h => huse h.2, ht⟩
  | registerBufferSlots buffers =>
    rw [call, registerBufferSlots]
    by_cases hempty : buffers.isEmpty
    · rw [if_pos hempty]
      exact Or.inr ⟨fun h => h.1 (List.isEmpty_iff.mp hempty), rfl⟩
    · rw [if_neg hempty]
      exact Or.inl ⟨⟨fun h => hempty (List.isEmpty_iff.mpr h), trivial⟩, rfl⟩
  | unregisterBufferSlots =>
    rcases unregisterSlots_cases self.registeredBufferSlots with ⟨huse, ht⟩ | ⟨huse, ht⟩
    · exact Or.inl ⟨⟨trivial, huse⟩, ht⟩
    · exact Or.inr ⟨fun h => huse h.2, ht⟩
  | markInUse handle =>
    exact (markInUse_cases handle).imp (fun h => ⟨h.1, h.2.2⟩) fun h => ⟨h.1, h.2.2⟩
  | markNotInUse handle =>
    cases handle
    all_goals exact Or.inl ⟨⟨trivial, trivial⟩, rfl⟩

/-- Descriptors and buffers that are registered one by one lose no slot. -/
theorem length_le_call {kind : ResourceKind} (hkind : kind = .fd ∨ kind = .buffer) (c : Call) :
    (self.table kind).slots.length ≤ ((self.call c).table kind).slots.length := by
  by_cases hk : c.kind = kind
  swap
  · rw [table_call_of_ne hk]
  subst hk
  rcases self.table_call c with ⟨-, ht⟩ | ⟨-, ht⟩
  swap
  · rw [ht]
  rw [ht]
  cases c with
  | registerFd fd => exact SlotTable.length_le_add
  | registerBuffer buffer => exact SlotTable.length_le_add
  | unregisterFd registeredFd => exact SlotTable.length_take.ge
  | unregisterBuffer registeredBuffer => exact SlotTable.length_take.ge
  | markInUse handle => exact le_refl _
  | markNotInUse handle => exact le_refl _
  | _ => rcases hkind with hkind | hkind <;> exact ResourceKind.noConfusion hkind

/-! ### What holds of every registry -/

/-- **What is in use is registered.** -/
def Sound (self : Registry) : Prop := ∀ kind, (self.table kind).Sound

theorem sound_new : new.Sound := by
  intro kind
  cases kind
  all_goals exact SlotTable.sound_empty

/-- **A call keeps a registry sound.** -/
theorem Sound.call (h : self.Sound) (c : Call) : (self.call c).Sound := by
  intro kind
  by_cases hk : c.kind = kind
  · subst hk
    rcases self.table_call c with ⟨heff, ht⟩ | ⟨-, ht⟩
    · rw [ht]
      exact (h c.kind).move heff.2
    · rw [ht]
      exact h c.kind
  · rw [table_call_of_ne hk]
    exact h kind

/-- **A registry that can be reached is sound.** -/
theorem sound_of_run {ms : List (Transition.Move Registry Call)}
    (hrun : Transition.Run Step new ms self) : self.Sound := by
  refine hrun.preserves Sound (fun s c t hstep h => ?_) sound_new
  obtain rfl := hstep
  exact h.call c

/-- **What is in use is an index of its table**, at which something is registered. -/
theorem isSome_of_mem_inUse {ms : List (Transition.Move Registry Call)}
    (hrun : Transition.Run Step new ms self) {kind : ResourceKind} {i : UInt32}
    (hi : i ∈ (self.table kind).inUse) :
    ∃ hlt : i.toNat < (self.table kind).slots.length,
      (self.table kind).slots[i.toNat].isSome := by
  obtain ⟨a, ha⟩ := Option.isSome_iff_exists.mp (sound_of_run hrun kind i hi)
  rw [SlotTable.get, Option.join_eq_some_iff] at ha
  obtain ⟨hlt, hslot⟩ := List.getElem?_eq_some_iff.mp ha
  exact ⟨hlt, by rw [hslot, Option.isSome_some]⟩

/-- A descriptor that is registered and marked in use is at the first index. -/
theorem isSome_markInUse : ∃ ms registry, Transition.Run Step new ms registry ∧
    0 ∈ (registry.table .fd).inUse ∧
    ∃ hlt : (0 : UInt32).toNat < (registry.table .fd).slots.length,
      (registry.table .fd).slots[(0 : UInt32).toNat].isSome := by
  have hrun : Transition.Run Step new _ _ :=
    ((Transition.Run.nil new).snoc (a := .registerFd 3) rfl).snoc
      (a := .markInUse (.fd ⟨0, 3⟩)) rfl
  have huse :
      0 ∈ (((new.call (.registerFd 3)).call (.markInUse (.fd ⟨0, 3⟩))).table .fd).inUse := by
    decide
  exact ⟨_, _, hrun, huse, isSome_of_mem_inUse hrun huse⟩

end Registry

end SaferRing
