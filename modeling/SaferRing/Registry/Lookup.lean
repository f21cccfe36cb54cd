import SaferRing.Registry

/-!
# Looking something up in a registry

What a handle names is looked up at its index, and is compared with what the handle keeps of
what was registered: the descriptor, or the size of the buffer. Anything else is not registered.
-/

namespace SaferRing

section Tables

variable {α : Type} (table : SlotTable α) (index : UInt32)
  (isOfHandle : α → Prop) [DecidablePred isOfHandle]

/-- Whether what is at an index is what the handle is of. -/
def isSlotRegistered : Bool :=
  ((table.get index).map fun stored => decide (isOfHandle stored)).getD false

/-- What is at an index, if it is what the handle is of. -/
def getSlot : Except SaferRingError α :=
  match table.get index with
  | some stored => if isOfHandle stored then .ok stored else .error .notRegistered
  | none => .error .notRegistered

variable {table index} {a : α}

/-- **What is registered is looked up.** -/
theorem getSlot_of_get (h : table.get index = some a) (ha : isOfHandle a) :
    isSlotRegistered table index isOfHandle ∧ getSlot table index isOfHandle = .ok a := by
  rw [getSlot, isSlotRegistered, h]
  exact ⟨decide_eq_true ha, if_pos ha⟩

/-- **What is not registered** is at no index, or is not what the handle is of. -/
theorem getSlot_eq_error_iff : getSlot table index isOfHandle = .error .notRegistered ↔
    ∀ a, table.get index = some a → ¬isOfHandle a := by
  rw [getSlot]
  rcases table.get index with _ | stored
  · simp
  · by_cases hstored : isOfHandle stored
    · simp [hstored]
    · simp [hstored]

end Tables

namespace Registry

variable (self : Registry)

/-- The number of descriptors. -/
def fdCount : ℕ := self.registeredFds.count

/-- The number of buffers. -/
def bufferCount : ℕ := self.registeredBuffers.count

/-- Whether a handle is of a descriptor that is registered. -/
def isFdRegistered (registeredFd : RegisteredFd) : Bool :=
  isSlotRegistered self.registeredFds registeredFd.index fun fd => fd = registeredFd.fd

/-- Whether a handle is of a buffer that is registered. -/
def isBufferRegistered (registeredBuffer : RegisteredBuffer) : Bool :=
  isSlotRegistered self.registeredBuffers registeredBuffer.index
    fun buffer => buffer.bytes.length = registeredBuffer.size

/-- The descriptor a handle is of. -/
def getRawFd (registeredFd : RegisteredFd) : Except SaferRingError ℤ :=
  getSlot self.registeredFds registeredFd.index fun fd => fd = registeredFd.fd

/-- The buffer a handle is of. -/
def getBuffer (registeredBuffer : RegisteredBuffer) : Except SaferRingError BoxedSlice :=
  getSlot self.registeredBuffers registeredBuffer.index
    fun buffer => buffer.bytes.length = registeredBuffer.size

/-- The descriptor of a fixed file. -/
def getFixedFileFd (fixedFile : FixedFile) : Except SaferRingError ℤ :=
  getSlot self.fixedFiles fixedFile.index fun fd => fd = fixedFile.fd

/-- The buffer in a slot. -/
def getBufferSlot (bufferSlot : RegisteredBufferSlot) : Except SaferRingError OwnedBuffer :=
  getSlot self.registeredBufferSlots bufferSlot.index fun buffer => buffer.size = bufferSlot.size

end Registry

end SaferRing
