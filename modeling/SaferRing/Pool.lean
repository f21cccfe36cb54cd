import SaferRing.Ownership

/-!
# The pool of buffers

A `SaferRing.BufferPool` is built with all of its buffers, which are handed out to holders
(`SaferRing.PooledBuffer`) and come back when a holder is dropped. What is shared is behind a
lock (`SaferRing.Mutex`), and each function here is one section under the lock, or, as
`SaferRing.BufferPool.tryGetFast`, is made of such sections.
-/

namespace SaferRing

/-- A pinned buffer. -/
structure PinnedBuffer where
  /-- The bytes. -/
  inner : BoxedSlice
  /-- How often it was marked. -/
  generation : UInt64
  deriving DecidableEq, Repr

namespace PinnedBuffer

/-- A buffer of zeros, at an address the allocator chooses. -/
def withCapacity (addr size : ℕ) : PinnedBuffer := ⟨⟨addr, List.replicate size 0⟩, 0⟩

/-- The number of bytes. -/
def len (self : PinnedBuffer) : ℕ := self.inner.bytes.length

end PinnedBuffer

/-- A lock, and what is behind it. -/
structure Mutex (α : Type) where
  /-- What is behind the lock. -/
  value : α
  /-- Whether a holder of the lock panicked. -/
  poisoned : Bool
  deriving DecidableEq, Repr

/-- What the handles to a pool share. -/
structure PoolInner where
  /-- The buffers that are available, the next one first. -/
  available : List PinnedBuffer
  /-- The number of buffers in use. -/
  inUse : ℕ
  /-- How often there was a buffer. -/
  totalAllocations : UInt64
  /-- How often there was none. -/
  failedAllocations : UInt64
  deriving DecidableEq, Repr

/-- Take the lock. -/
def PoolInner.lock (inner : Mutex PoolInner) : Except SaferRingError PoolInner :=
  if inner.poisoned then .error .poolPoisoned else .ok inner.value

/-- **A pool of buffers.** -/
structure BufferPool where
  /-- What is shared. -/
  inner : Mutex PoolInner
  /-- The number of buffers it was built with. -/
  capacity : ℕ
  /-- Their size. -/
  bufferSize : ℕ
  deriving DecidableEq, Repr

/-- **A buffer out of a pool**, until it is detached. -/
structure PooledBuffer where
  /-- The buffer. -/
  buffer : Option PinnedBuffer
  deriving DecidableEq, Repr

/-- **What a pool says of itself**, without the ratio of the buffers in use. -/
structure PoolStats where
  /-- The number of buffers it was built with. -/
  capacity : ℕ
  /-- The number of buffers that are available. -/
  available : ℕ
  /-- The number of buffers in use. -/
  inUse : ℕ
  /-- The size of a buffer. -/
  bufferSize : ℕ
  /-- How often there was a buffer. -/
  totalAllocations : UInt64
  /-- How often there was none. -/
  failedAllocations : UInt64
  /-- The same as `capacity`. -/
  totalBuffers : ℕ
  /-- The same as `available`. -/
  availableBuffers : ℕ
  /-- The same as `inUse`. -/
  inUseBuffers : ℕ
  deriving DecidableEq, Repr

namespace BufferPool

/-- A pool of zeroed buffers, at addresses the allocator chooses; `none` is the panic on a pool
that would be empty. -/
def new (addrs : ℕ → ℕ) (capacity bufferSize : ℕ) : Option BufferPool :=
  if capacity = 0 then none
  else if bufferSize = 0 then none
  else
    let available := (List.range capacity).map fun i => .withCapacity (addrs i) bufferSize
    some ⟨⟨⟨available, 0, 0, 0⟩, false⟩, capacity, bufferSize⟩

/-- A pool of buffers that are made for it; `none` is the panic on buffers of different
sizes. -/
def withFactory (capacity : ℕ) (bufferFactory : ℕ → PinnedBuffer) : Option BufferPool :=
  if capacity = 0 then none
  else
    let available := (List.range capacity).map bufferFactory
    let bufferSize := (bufferFactory 0).len
    if available.all fun buffer => buffer.len = bufferSize then
      some ⟨⟨⟨available, 0, 0, 0⟩, false⟩, capacity, bufferSize⟩
    else none

/-- **A pool that is new** has all of its buffers, of its size, and has counted nothing. -/
theorem eq_of_built {pool : BufferPool} {capacity : ℕ}
    (hbuilt : (∃ addrs bufferSize, new addrs capacity bufferSize = some pool) ∨
      ∃ bufferFactory, withFactory capacity bufferFactory = some pool) :
    ∃ available bufferSize, available.length = capacity ∧
      (∀ buffer ∈ available, buffer.len = bufferSize) ∧
      pool = ⟨⟨⟨available, 0, 0, 0⟩, false⟩, capacity, bufferSize⟩ := by
  obtain ⟨addrs, bufferSize, hnew⟩ | ⟨bufferFactory, hnew⟩ := hbuilt
  · simp only [new, Option.ite_none_left_eq_some, Option.some.injEq] at hnew
    obtain ⟨-, -, rfl⟩ := hnew
    refine ⟨_, _, by rw [List.length_map, List.length_range], fun buffer hmem => ?_, rfl⟩
    obtain ⟨i, -, rfl⟩ := List.mem_map.mp hmem
    exact List.length_replicate ..
  · simp only [withFactory, Option.ite_none_left_eq_some, Option.ite_none_right_eq_some,
      Option.some.injEq] at hnew
    obtain ⟨-, hall, rfl⟩ := hnew
    exact ⟨_, _, by rw [List.length_map, List.length_range],
      fun buffer hmem => of_decide_eq_true (List.all_eq_true.mp hall buffer hmem), rfl⟩

variable (self : BufferPool)

/-- Write what is behind the lock. -/
def update (inner : PoolInner) : BufferPool :=
  { self with inner := { self.inner with value := inner } }

/-- **Take a buffer**, if one is available. -/
def tryGet : Except SaferRingError (Option PooledBuffer) × BufferPool :=
  match PoolInner.lock self.inner with
  | .error e => (.error e, self)
  | .ok inner =>
    match inner.available with
    | buffer :: available =>
      (.ok (some ⟨some buffer⟩), self.update { inner with
        available
        inUse := inner.inUse + 1
        totalAllocations := inner.totalAllocations + 1 })
    | [] => (.ok none, self.update { inner with
        failedAllocations := inner.failedAllocations + 1 })

variable {self} in
/-- **A buffer is taken from the front**, if there is one. -/
theorem tryGet_cases (h : self.inner.poisoned = false) :
    (∃ buffer available, self.inner.value.available = buffer :: available ∧
      self.tryGet = (.ok (some ⟨some buffer⟩), self.update { self.inner.value with
        available
        inUse := self.inner.value.inUse + 1
        totalAllocations := self.inner.value.totalAllocations + 1 })) ∨
    (self.inner.value.available = [] ∧ self.tryGet = (.ok none, self.update { self.inner.value with
      failedAllocations := self.inner.value.failedAllocations + 1 })) := by
  rw [tryGet, PoolInner.lock, h]
  rcases hinner : self.inner.value.available with _ | ⟨buffer, available⟩
  · exact Or.inr ⟨rfl, by simp [hinner]⟩
  · exact Or.inl ⟨buffer, available, rfl, by simp [hinner]⟩

/-- Look whether there is no buffer, for the fast path. -/
def isEmpty : Except SaferRingError Bool :=
  (PoolInner.lock self.inner).map fun inner => inner.available.isEmpty

/-- **Take a buffer, on the fast path**: look for one first, under a lock of its own. -/
def tryGetFast : Except SaferRingError (Option PooledBuffer) × BufferPool :=
  match self.isEmpty with
  | .error e => (.error e, self)
  | .ok true => (.ok none, self)
  | .ok false => self.tryGet

variable {self} in
/-- **The fast path is `try_get`** unless it finds no buffer when it looks. -/
theorem tryGetFast_eq (h : self.isEmpty ≠ .ok true) : self.tryGetFast = self.tryGet := by
  rw [tryGetFast]
  split
  · rename_i e herror
    rw [isEmpty] at herror
    rw [tryGet]
    rcases hlock : PoolInner.lock self.inner with e' | inner
    · rw [hlock] at herror
      obtain rfl := Except.error.inj herror
      rfl
    · rw [hlock] at herror
      cases herror
  · exact absurd ‹_› h
  · rfl

/-- Take a buffer; an error is like none. -/
def get : Option PooledBuffer × BufferPool :=
  match self.tryGet with
  | (.ok buffer, pool) => (buffer, pool)
  | (.error _, pool) => (none, pool)

theorem get_eq : self.get = (self.tryGet.1.toOption.getD none, self.tryGet.2) := by
  rw [get]
  rcases self.tryGet with ⟨_ | buffer, pool⟩ <;> rfl

/-- `get_blocking`, one turn of its loop; with `none` it sleeps, and takes another turn. -/
def getBlockingTurn : Option (Except SaferRingError PooledBuffer) × BufferPool :=
  match self.tryGet with
  | (.error e, pool) => (some (.error e), pool)
  | (.ok (some buffer), pool) => (some (.ok buffer), pool)
  | (.ok none, pool) => (none, pool)

/-- How many buffers are in use. -/
def inUse : Except SaferRingError ℕ := (PoolInner.lock self.inner).map PoolInner.inUse

/-- What the pool says of itself; `none` is the panic on a lock that is poisoned. -/
def stats : Option PoolStats :=
  match PoolInner.lock self.inner with
  | .error _ => none
  | .ok inner => some
      { capacity := self.capacity
        available := inner.available.length
        inUse := inner.inUse
        bufferSize := self.bufferSize
        totalAllocations := inner.totalAllocations
        failedAllocations := inner.failedAllocations
        totalBuffers := self.capacity
        availableBuffers := inner.available.length
        inUseBuffers := inner.inUse }

end BufferPool

namespace PooledBuffer

/-- **Dropping a holder gives the buffer back**, if it has one and the lock is not poisoned. -/
def drop (self : PooledBuffer) (pool : BufferPool) : BufferPool :=
  match self.buffer with
  | none => pool
  | some buffer =>
    match PoolInner.lock pool.inner with
    | .error _ => pool
    | .ok inner => pool.update { inner with
        available := inner.available ++ [buffer]
        inUse := inner.inUse - 1 }

/-- A holder gives its buffer back at the end. -/
theorem drop_eq {buffer : PinnedBuffer} {pool : BufferPool} (h : pool.inner.poisoned = false) :
    drop ⟨some buffer⟩ pool = pool.update { pool.inner.value with
      available := pool.inner.value.available ++ [buffer]
      inUse := pool.inner.value.inUse - 1 } := by
  simp [drop, PoolInner.lock, h]

/-- **Detach the buffer**, which does not come back when the holder, empty now, is dropped;
`none` is the panic. -/
def detach (self : PooledBuffer) (pool : BufferPool) : Option (PinnedBuffer × BufferPool) :=
  self.buffer.map fun buffer => (buffer, drop ⟨none⟩ pool)

end PooledBuffer

end SaferRing
