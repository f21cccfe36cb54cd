import SaferRing.Library.Fallible
import SaferRing.Registry

/-!
# Registering leaves no trace when it fails

Here the functions of the registry are written statement by statement, as programs that can
fail (`SaferRing.Registry.Stepwise`): what one of them has written when it returns an error
stays written. They do what the functions of `SaferRing.Registry` say
(`SaferRing.Registry.exec_program`), and since each makes all of its checks before its first
write, an error leaves the registry as it was (`SaferRing.Registry.atomic_program`).
-/

namespace SaferRing

open Fallible (failIf zoom)

/-! ### Programs on a table -/

section Tables

variable {α : Type}

/-- Add a slot that is not filled, if all are filled. -/
def growSlots : Fallible SaferRingError (SlotTable α) PUnit := do
  let table ← get
  if table.firstFree < table.slots.length then pure ⟨⟩
  else modify fun table => { table with slots := table.slots ++ [none] }

/-- **Fill the first slot that is free**, or a new one. -/
def fillSlot (a : α) : Fallible SaferRingError (SlotTable α) UInt32 := do
  let index := (← get).nextIndex
  growSlots
  modify fun table => { table with slots := table.slots.set index.toNat (some a) }
  return index

/-- **Empty a slot**, if it has what the handle is of and is not in use. -/
def emptySlot (index : UInt32) (isOfHandle : α → Prop) [DecidablePred isOfHandle] :
    Fallible SaferRingError (SlotTable α) α := do
  let table ← get
  match table.get index with
  | none => throw .notRegistered
  | some stored => do
    failIf (¬isOfHandle stored) .notRegistered
    failIf (index ∈ table.inUse) .bufferInFlight
    modify fun table => table.take index
    return stored

/-- **Drop all slots**, if none is in use. -/
def dropSlots : Fallible SaferRingError (SlotTable α) (List α) := do
  let table ← get
  failIf (table.inUse ≠ ∅) .bufferInFlight
  modify SlotTable.clear
  return table.slots.reduceOption

/-- **Put others in place of all slots**, which are dropped first, one after the other. -/
def putSlots (as : List α) : Fallible SaferRingError (SlotTable α) PUnit := do
  modify SlotTable.clear
  modify fun table => { table with inUse := ∅ }
  as.forM fun a => modify fun table => { table with slots := table.slots ++ [some a] }

/-- **Mark a slot**, if something is registered there. -/
def markSlot (index : UInt32) : Fallible SaferRingError (SlotTable α) PUnit := do
  let table ← get
  failIf ((table.get index).isNone = true) .notRegistered
  modify fun table => table.mark index

variable (table : SlotTable α)

theorem exec_fillSlot (a : α) : (fillSlot a).exec table = (.ok table.nextIndex, table.add a) := by
  by_cases hfree : table.firstFree < table.slots.length
  · simp [fillSlot, growSlots, Fallible.exec_bind, SlotTable.add, Except.map, hfree]
  · simp [fillSlot, growSlots, Fallible.exec_bind, SlotTable.add, Except.map, hfree]

theorem exec_emptySlot (index : UInt32) (isOfHandle : α → Prop) [DecidablePred isOfHandle] :
    (emptySlot index isOfHandle).exec table = unregisterSlot table index isOfHandle := by
  rw [emptySlot, Fallible.exec_bind_of_ok (Fallible.exec_get table), unregisterSlot]
  rcases table.get index with _ | stored
  · rfl
  by_cases hmatch : isOfHandle stored
  swap
  · simp [failIf, hmatch]
  by_cases huse : index ∈ table.inUse
  · simp [failIf, hmatch, huse]
  · simp [failIf, Except.map, hmatch, huse]

theorem exec_dropSlots : (dropSlots : Fallible _ (SlotTable α) _).exec table =
    unregisterSlots table := by
  rw [dropSlots, Fallible.exec_bind_of_ok (Fallible.exec_get table), unregisterSlots]
  by_cases huse : table.inUse = ∅
  · simp [failIf, Except.map, huse]
  · simp [failIf, huse]

theorem exec_markSlot (index : UInt32) :
    (markSlot index).exec table = markSlotInUse table index := by
  rw [markSlot, Fallible.exec_bind_of_ok (Fallible.exec_get table), markSlotInUse]
  rcases table.get index with _ | stored
  · simp [failIf]
  · simp [failIf]

/-- Slots that are added one after the other. -/
theorem exec_forM_push (as : List α) : (as.forM fun a => (modify fun table =>
    { table with slots := table.slots ++ [some a] } :
      Fallible SaferRingError (SlotTable α) PUnit)).exec table =
    (.ok ⟨⟩, { table with slots := table.slots ++ as.map some }) := by
  induction as generalizing table with
  | nil => simp [List.forM]
  | cons a as ih =>
    rw [List.forM, Fallible.exec_bind_of_ok (Fallible.exec_modify table _), ih]
    simp

theorem exec_putSlots (as : List α) : (putSlots as).exec table = (.ok ⟨⟩, .replace as) := by
  rw [putSlots, Fallible.exec_bind_of_ok (Fallible.exec_modify table _),
    Fallible.exec_bind_of_ok (Fallible.exec_modify _ _), exec_forM_push]
  rfl

theorem succeeds_fillSlot (a : α) : (fillSlot a).Succeeds := by
  intro table e
  rw [exec_fillSlot]
  simp

theorem succeeds_putSlots (as : List α) : (putSlots as).Succeeds := by
  refine (Fallible.succeeds_modify _).bind fun _ => (Fallible.succeeds_modify _).bind fun _ => ?_
  exact Fallible.Succeeds.forM (fun _ => Fallible.succeeds_modify _) as

/-- **Emptying a slot is atomic**: what is checked is checked before. -/
theorem atomic_emptySlot (index : UInt32) (isOfHandle : α → Prop) [DecidablePred isOfHandle] :
    (emptySlot index isOfHandle).Atomic := by
  refine Fallible.reads_get.bind_atomic fun table => ?_
  rcases table.get index with _ | stored
  · exact (Fallible.reads_throw _).atomic
  · refine (Fallible.reads_failIf _ _).bind_atomic fun _ =>
      (Fallible.reads_failIf _ _).bind_atomic fun _ => ?_
    exact ((Fallible.succeeds_modify _).bind fun _ => Fallible.succeeds_pure _).atomic

/-- Dropping all slots is, too. -/
theorem atomic_dropSlots : (dropSlots : Fallible _ (SlotTable α) _).Atomic := by
  refine Fallible.reads_get.bind_atomic fun table =>
    (Fallible.reads_failIf _ _).bind_atomic fun _ => ?_
  exact ((Fallible.succeeds_modify _).bind fun _ => Fallible.succeeds_pure _).atomic

/-- And so is marking one. -/
theorem atomic_markSlot (index : UInt32) :
    (markSlot index : Fallible _ (SlotTable α) _).Atomic := by
  refine Fallible.reads_get.bind_atomic fun table =>
    (Fallible.reads_failIf _ _).bind_atomic fun _ => ?_
  exact (Fallible.succeeds_modify _).atomic

end Tables

/-! ### Programs on a registry -/

namespace Registry

/-- The table of a kind, as a part of a registry. -/
def part : (kind : ResourceKind) → Fallible.Part Registry (SlotTable kind.Content)
  | .fd => ⟨registeredFds, fun registeredFds self => { self with registeredFds }, fun _ => rfl⟩
  | .buffer =>
    ⟨registeredBuffers, fun registeredBuffers self => { self with registeredBuffers },
      fun _ => rfl⟩
  | .fixedFile => ⟨fixedFiles, fun fixedFiles self => { self with fixedFiles }, fun _ => rfl⟩
  | .bufferSlot =>
    ⟨registeredBufferSlots, fun registeredBufferSlots self => { self with registeredBufferSlots },
      fun _ => rfl⟩

/-- A program on a registry. -/
abbrev Program (α : Type) : Type := Fallible SaferRingError Registry α

namespace Stepwise

/-- `register_fd`. -/
def registerFd (fd : ℤ) : Program RegisteredFd := do
  failIf (fd < 0) (.ioNew .invalidInput "File descriptor must be non-negative")
  let index ← zoom (part .fd) (fillSlot fd)
  return ⟨index, fd⟩

/-- `register_buffer`. -/
def registerBuffer (buffer : BoxedSlice) : Program RegisteredBuffer := do
  failIf (buffer.bytes.isEmpty = true) (.ioNew .invalidInput "Buffer cannot be empty")
  let size := buffer.bytes.length
  let index ← zoom (part .buffer) (fillSlot buffer)
  return ⟨index, size⟩

/-- `unregister_fd`. -/
def unregisterFd (registeredFd : RegisteredFd) : Program Unit := do
  let _ ← zoom (part .fd) <|
    emptySlot registeredFd.index fun storedFd => storedFd = registeredFd.fd
  return ()

/-- `unregister_buffer`. -/
def unregisterBuffer (registeredBuffer : RegisteredBuffer) : Program BoxedSlice :=
  zoom (part .buffer) <|
    emptySlot registeredBuffer.index fun buffer => buffer.bytes.length = registeredBuffer.size

/-- `register_fixed_files`: all descriptors are looked at before anything is dropped. -/
def registerFixedFiles (fds : List ℤ) : Program (List FixedFile) :=
  if fds.isEmpty then return []
  else do
    fds.forM fun fd =>
      failIf (fd < 0) (.ioNew .invalidInput s!"Invalid file descriptor: {fd}")
    zoom (part .fixedFile) (putSlots fds)
    return fds.zipIdx.map fun (fd, index) => ⟨UInt32.ofNat index, fd⟩

/-- `unregister_fixed_files`. -/
def unregisterFixedFiles : Program Unit := do
  let _ ← zoom (part .fixedFile) dropSlots
  return ()

/-- `register_buffer_slots`. -/
def registerBufferSlots (buffers : List OwnedBuffer) : Program (List RegisteredBufferSlot) :=
  if buffers.isEmpty then return []
  else do
    zoom (part .bufferSlot) (putSlots buffers)
    return buffers.zipIdx.map fun (buffer, index) => ⟨UInt32.ofNat index, buffer.size, false⟩

/-- `unregister_buffer_slots`. -/
def unregisterBufferSlots : Program (List OwnedBuffer) := zoom (part .bufferSlot) dropSlots

/-- `mark_fd_in_use` and its siblings. -/
def markInUse : Handle → Program Unit
  | .fd registeredFd => zoom (part .fd) (markSlot registeredFd.index)
  | .buffer registeredBuffer => zoom (part .buffer) (markSlot registeredBuffer.index)
  | .fixedFile fixedFile => zoom (part .fixedFile) (markSlot fixedFile.index)
  | .bufferSlot bufferSlot => zoom (part .bufferSlot) (markSlot bufferSlot.index)

/-- `mark_fd_not_in_use` and its siblings. -/
def markNotInUse (handle : Handle) : Program Unit := modify fun self => self.markNotInUse handle

variable (self : Registry)

theorem exec_registerFd (fd : ℤ) : (registerFd fd).exec self = self.registerFd fd := by
  rw [registerFd, Registry.registerFd]
  by_cases hneg : fd < 0
  · rw [if_pos hneg, Fallible.exec_bind_of_error (Fallible.exec_failIf_pos self hneg _)]
  · rw [if_neg hneg, Fallible.exec_bind_of_ok (Fallible.exec_failIf_neg self hneg _),
      Fallible.exec_bind, Fallible.exec_zoom, exec_fillSlot]
    rfl

theorem exec_registerBuffer (buffer : BoxedSlice) :
    (registerBuffer buffer).exec self = self.registerBuffer buffer := by
  rw [registerBuffer, Registry.registerBuffer]
  by_cases hempty : buffer.bytes.isEmpty = true
  · rw [if_pos hempty, Fallible.exec_bind_of_error (Fallible.exec_failIf_pos self hempty _)]
  · rw [if_neg hempty, Fallible.exec_bind_of_ok (Fallible.exec_failIf_neg self hempty _)]
    simp only [Fallible.exec_bind, Fallible.exec_zoom, exec_fillSlot]
    rfl

theorem exec_unregisterFd (registeredFd : RegisteredFd) :
    (unregisterFd registeredFd).exec self = self.unregisterFd registeredFd := by
  rw [unregisterFd, bind_pure_comp, Fallible.exec_map, Fallible.exec_zoom, exec_emptySlot]
  rfl

theorem exec_unregisterBuffer (registeredBuffer : RegisteredBuffer) :
    (unregisterBuffer registeredBuffer).exec self = self.unregisterBuffer registeredBuffer := by
  rw [unregisterBuffer, Fallible.exec_zoom, exec_emptySlot]
  rfl

/-- The first descriptor that is negative is the one that is refused. -/
theorem exec_registerFixedFiles (fds : List ℤ) :
    (registerFixedFiles fds).exec self = self.registerFixedFiles fds := by
  rw [registerFixedFiles, Registry.registerFixedFiles]
  by_cases hempty : fds.isEmpty = true
  · rw [if_pos hempty, if_pos hempty]
    rfl
  rw [if_neg hempty, if_neg hempty, Fallible.exec_bind, Fallible.exec_forM_failIf]
  rcases fds.find? fun fd => decide (fd < 0) with _ | fd
  · simp only [Fallible.exec_bind, Fallible.exec_zoom, exec_putSlots]
    rfl
  · rfl

theorem exec_unregisterFixedFiles :
    unregisterFixedFiles.exec self = self.unregisterFixedFiles := by
  rw [unregisterFixedFiles, bind_pure_comp, Fallible.exec_map, Fallible.exec_zoom, exec_dropSlots]
  rfl

theorem exec_registerBufferSlots (buffers : List OwnedBuffer) :
    (registerBufferSlots buffers).exec self = self.registerBufferSlots buffers := by
  rw [registerBufferSlots, Registry.registerBufferSlots]
  by_cases hempty : buffers.isEmpty = true
  · rw [if_pos hempty, if_pos hempty]
    rfl
  · rw [if_neg hempty, if_neg hempty, Fallible.exec_bind, Fallible.exec_zoom, exec_putSlots]
    rfl

theorem exec_unregisterBufferSlots :
    unregisterBufferSlots.exec self = self.unregisterBufferSlots := by
  rw [unregisterBufferSlots, Fallible.exec_zoom, exec_dropSlots]
  rfl

theorem exec_markInUse (handle : Handle) :
    (markInUse handle).exec self = self.markInUse handle := by
  cases handle
  all_goals
    rw [markInUse, Fallible.exec_zoom, exec_markSlot]
    rfl

end Stepwise

/-- **The program of a call**, whose result is left out. -/
def program : Call → Program Unit
  | .registerFd fd => (fun _ => ()) <$> Stepwise.registerFd fd
  | .registerBuffer buffer => (fun _ => ()) <$> Stepwise.registerBuffer buffer
  | .unregisterFd registeredFd => Stepwise.unregisterFd registeredFd
  | .unregisterBuffer registeredBuffer =>
    (fun _ => ()) <$> Stepwise.unregisterBuffer registeredBuffer
  | .registerFixedFiles fds => (fun _ => ()) <$> Stepwise.registerFixedFiles fds
  | .unregisterFixedFiles => Stepwise.unregisterFixedFiles
  | .registerBufferSlots buffers => (fun _ => ()) <$> Stepwise.registerBufferSlots buffers
  | .unregisterBufferSlots => (fun _ => ()) <$> Stepwise.unregisterBufferSlots
  | .markInUse handle => Stepwise.markInUse handle
  | .markNotInUse handle => Stepwise.markNotInUse handle

/-- **A program leaves of a registry what the call does.** -/
theorem exec_program (self : Registry) (c : Call) : ((program c).exec self).2 = self.call c := by
  cases c with
  | registerFd fd =>
    rw [program, Fallible.exec_map, Stepwise.exec_registerFd]
    rfl
  | registerBuffer buffer =>
    rw [program, Fallible.exec_map, Stepwise.exec_registerBuffer]
    rfl
  | unregisterFd registeredFd =>
    rw [program, Stepwise.exec_unregisterFd]
    rfl
  | unregisterBuffer registeredBuffer =>
    rw [program, Fallible.exec_map, Stepwise.exec_unregisterBuffer]
    rfl
  | registerFixedFiles fds =>
    rw [program, Fallible.exec_map, Stepwise.exec_registerFixedFiles]
    rfl
  | unregisterFixedFiles =>
    rw [program, Stepwise.exec_unregisterFixedFiles]
    rfl
  | registerBufferSlots buffers =>
    rw [program, Fallible.exec_map, Stepwise.exec_registerBufferSlots]
    rfl
  | unregisterBufferSlots =>
    rw [program, Fallible.exec_map, Stepwise.exec_unregisterBufferSlots]
    rfl
  | markInUse handle =>
    rw [program, Stepwise.exec_markInUse]
    rfl
  | markNotInUse handle => rfl

/-- **A function of the registry that returns an error leaves it as it was**: all its tables, and
what is in use of each. -/
theorem atomic_program (c : Call) : (program c).Atomic := by
  cases c with
  | registerFd fd =>
    refine Fallible.Atomic.map ((Fallible.reads_failIf _ _).bind_atomic fun _ => ?_) _
    exact ((succeeds_fillSlot fd).atomic.zoom _).bind_succeeds fun _ => Fallible.succeeds_pure _
  | registerBuffer buffer =>
    refine Fallible.Atomic.map ((Fallible.reads_failIf _ _).bind_atomic fun _ => ?_) _
    exact ((succeeds_fillSlot buffer).atomic.zoom _).bind_succeeds fun _ => Fallible.succeeds_pure _
  | unregisterFd registeredFd =>
    exact ((atomic_emptySlot _ _).zoom _).bind_succeeds fun _ => Fallible.succeeds_pure _
  | unregisterBuffer registeredBuffer => exact ((atomic_emptySlot _ _).zoom _).map _
  | registerFixedFiles fds =>
    refine Fallible.Atomic.map (Fallible.Atomic.ite _ (Fallible.succeeds_pure _).atomic ?_) _
    -- all of the list is checked before the table is cleared
    refine (Fallible.Reads.forM (fun fd => Fallible.reads_failIf _ _) fds).bind_atomic fun _ => ?_
    exact ((succeeds_putSlots fds).atomic.zoom _).bind_succeeds fun _ => Fallible.succeeds_pure _
  | unregisterFixedFiles =>
    exact (atomic_dropSlots.zoom _).bind_succeeds fun _ => Fallible.succeeds_pure _
  | registerBufferSlots buffers =>
    refine Fallible.Atomic.map (Fallible.Atomic.ite _ (Fallible.succeeds_pure _).atomic ?_) _
    exact ((succeeds_putSlots buffers).atomic.zoom _).bind_succeeds fun _ =>
      Fallible.succeeds_pure _
  | unregisterBufferSlots => exact (atomic_dropSlots.zoom _).map _
  | markInUse handle =>
    cases handle
    all_goals exact (atomic_markSlot _).zoom _
  | markNotInUse handle => exact (Fallible.succeeds_modify _).atomic

/-- A fixed file, in use. -/
def fileInUse : Registry :=
  (new.call (.registerFixedFiles [3])).call (.markInUse (.fixedFile ⟨0, 3⟩))

/-- **A list with a descriptor that is negative at its end is refused**, and the file stays. -/
theorem atomic_program_fileInUse :
    ((program (.registerFixedFiles [4, -1])).exec fileInUse).1 =
      .error (.ioNew .invalidInput "Invalid file descriptor: -1") ∧
    ((program (.registerFixedFiles [4, -1])).exec fileInUse).2 = fileInUse :=
  ⟨rfl, atomic_program (.registerFixedFiles [4, -1]) fileInUse
    (.ioNew .invalidInput "Invalid file descriptor: -1") rfl⟩

end Registry

end SaferRing
