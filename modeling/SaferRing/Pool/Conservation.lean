import Mathlib.Data.List.Perm.Basic
import SaferRing.Library.Run
import SaferRing.Pool

/-!
# No buffer of a pool is lost

A buffer is available, or has a holder, or was detached (`SaferRing.Pooling`). Whatever order
the sections under the lock come in, a call on the fast path included that has looked for a
buffer and not taken one yet, each buffer is in exactly one of these places, and the pool counts
right: `SaferRing.Pooling.conserved_of_run`.
-/

namespace SaferRing

/-- **A pool, and who has its buffers.** -/
structure Pooling where
  /-- The pool. -/
  pool : BufferPool
  /-- The holders that are live. -/
  held : List PooledBuffer
  /-- The buffers that were detached. -/
  detached : List PinnedBuffer
  /-- The calls on the fast path that have seen a buffer, and not taken one yet. -/
  fast : ℕ

namespace Pooling

/-- What is done with a pool, one section under the lock at a time. -/
inductive Event
  /-- `try_get`. -/
  | tryGet
  /-- `get`. -/
  | get
  /-- `try_get_fast` looks for a buffer. -/
  | look
  /-- `try_get_fast` goes on, to take one. -/
  | take
  /-- A holder is dropped. -/
  | drop (h : ℕ)
  /-- `detach`. -/
  | detach (h : ℕ)
  /-- A holder writes to its buffer, or marks it. -/
  | write (h : ℕ) (bytes : List UInt8) (generation : UInt64)
  deriving DecidableEq, Repr

/-- A pool that is new. -/
def new (pool : BufferPool) : Pooling := ⟨pool, [], [], 0⟩

variable (self : Pooling)

/-- Somebody may have taken a buffer. -/
def holding (taken : Option PooledBuffer) (pool : BufferPool) : Pooling :=
  { self with pool, held := self.held ++ taken.toList }

/-- **What a section does**; `none` when it cannot happen. -/
def step : Event → Option Pooling
  | .tryGet =>
    let (result, pool) := self.pool.tryGet
    some (self.holding (result.toOption.getD none) pool)
  | .get =>
    let (taken, pool) := self.pool.get
    some (self.holding taken pool)
  | .look =>
    match self.pool.isEmpty with
    | .ok false => some { self with fast := self.fast + 1 }
    | _ => some self
  | .take =>
    if self.fast = 0 then none
    else
      let (result, pool) := self.pool.tryGet
      some { self.holding (result.toOption.getD none) pool with fast := self.fast - 1 }
  | .drop h =>
    self.held[h]?.map fun pooled =>
      { self with pool := pooled.drop self.pool, held := self.held.eraseIdx h }
  | .detach h =>
    self.held[h]?.bind fun pooled =>
      (pooled.detach self.pool).map fun (buffer, pool) =>
        { self with pool, held := self.held.eraseIdx h, detached := self.detached ++ [buffer] }
  | .write h bytes generation =>
    self.held[h]?.bind fun pooled =>
      pooled.buffer.bind fun buffer =>
        if bytes.length = buffer.len then
          some { self with
            held := self.held.set h ⟨some ⟨{ buffer.inner with bytes }, generation⟩⟩ }
        else none

/-- The step relation. -/
abbrev Step (s : Pooling) (e : Event) (t : Pooling) : Prop := s.step e = some t

/-- **All buffers**: those that are available, those that are held, and those detached. -/
def buffers : List PinnedBuffer :=
  self.pool.inner.value.available ++ self.held.filterMap PooledBuffer.buffer ++ self.detached

end Pooling

/-- What of a buffer does not change: where it is, and its size. -/
def PinnedBuffer.place (self : PinnedBuffer) : ℕ × ℕ := (self.inner.addr, self.len)

namespace Pooling

/-- **No buffer is lost**, and none is in two places. -/
structure Conserved (pool : BufferPool) (s : Pooling) : Prop where
  /-- What is not available is in use. -/
  count : s.pool.inner.value.available.length + s.pool.inner.value.inUse = pool.capacity
  /-- The buffers are those the pool was built with. -/
  places : (s.buffers.map PinnedBuffer.place).Perm
    (pool.inner.value.available.map PinnedBuffer.place)
  /-- No two of them are one, as those are not. -/
  nodup : (pool.inner.value.available.map PinnedBuffer.place).Nodup →
    (s.buffers.map PinnedBuffer.place).Nodup
  /-- Every holder has a buffer. -/
  held : ∀ pooled ∈ s.held, pooled.buffer.isSome
  /-- What is in use is held or detached. -/
  inUse : s.pool.inner.value.inUse = s.held.length + s.detached.length

/-- **What a section keeps.** -/
structure Kept (pool : BufferPool) (s : Pooling) : Prop where
  /-- The lock is not poisoned. -/
  poisoned : s.pool.inner.poisoned = false
  /-- Every holder has a buffer. -/
  held : ∀ pooled ∈ s.held, pooled.buffer.isSome
  /-- What is in use is held or detached. -/
  inUse : s.pool.inner.value.inUse = s.held.length + s.detached.length
  /-- The buffers are those the pool was built with. -/
  places : (s.buffers.map PinnedBuffer.place).Perm
    (pool.inner.value.available.map PinnedBuffer.place)

variable {pool : BufferPool} {s t : Pooling} {e : Event}

/-- **Nothing is lost of what is kept.** -/
theorem Kept.conserved (h : Kept pool s)
    (hcapacity : pool.inner.value.available.length = pool.capacity) : Conserved pool s where
  count := by
    have hlen := h.places.length_eq
    have hheld : (s.held.filterMap PooledBuffer.buffer).length = s.held.length :=
      List.filterMap_length_eq_length.mpr h.held
    simp only [buffers, List.length_map, List.length_append, hheld] at hlen
    have hinUse := h.inUse
    omega
  places := h.places
  nodup := h.places.nodup_iff.mpr
  held := h.held
  inUse := h.inUse

/-- What is taken from the front goes behind what is held. -/
theorem perm_take {α : Type} (a : α) (available held detached : List α) :
    (available ++ (held ++ [a]) ++ detached).Perm (a :: available ++ held ++ detached) := by
  rw [← List.append_assoc, List.cons_append, List.cons_append]
  exact (List.perm_append_singleton a (available ++ held)).append_right detached

/-- **Taking a buffer keeps all of them.** -/
theorem Kept.tryGet (h : Kept pool s) :
    Kept pool (s.holding (s.pool.tryGet.1.toOption.getD none) s.pool.tryGet.2) := by
  rcases BufferPool.tryGet_cases h.poisoned with ⟨buffer, available, havailable, hcall⟩ | ⟨-, hcall⟩
  · rw [hcall]
    refine ⟨h.poisoned, fun pooled hmem => ?_, ?_, List.Perm.trans ?_ h.places⟩
    · rcases List.mem_append.mp hmem with hmem | hmem
      · exact h.held pooled hmem
      · obtain rfl := List.mem_singleton.mp hmem
        rfl
    · have hinUse := h.inUse
      simp only [holding, BufferPool.update, Except.toOption, Option.getD_some, Option.toList_some,
        List.length_append, List.length_singleton]
      omega
    · refine List.Perm.map _ ?_
      have hperm := perm_take buffer available (s.held.filterMap PooledBuffer.buffer) s.detached
      simpa only [buffers, havailable, holding, BufferPool.update, Except.toOption,
        Option.getD_some, Option.toList_some, List.filterMap_append, List.filterMap_cons,
        List.filterMap_nil] using hperm
  · rw [hcall]
    refine (?_ : Kept pool (s.holding none _))
    rw [holding, Option.toList_none, List.append_nil]
    exact ⟨h.poisoned, h.held, h.inUse, h.places⟩

/-- A holder goes away, with its buffer. -/
theorem perm_buffers_eraseIdx {i : ℕ} {buffer : PinnedBuffer}
    (hi : s.held[i]? = some ⟨some buffer⟩) :
    (s.held.filterMap PooledBuffer.buffer).Perm
      (buffer :: (s.held.eraseIdx i).filterMap PooledBuffer.buffer) := by
  obtain ⟨hlt, hpooled⟩ := List.getElem?_eq_some_iff.mp hi
  have hperm := (List.getElem_cons_eraseIdx_perm hlt).symm
  rw [hpooled] at hperm
  simpa using hperm.filterMap PooledBuffer.buffer

/-- **A holder that is dropped gives its buffer back**, and is counted no longer. -/
theorem Kept.drop (h : Kept pool s) {i : ℕ} {buffer : PinnedBuffer}
    (hi : s.held[i]? = some ⟨some buffer⟩) :
    Kept pool { s with
      pool := PooledBuffer.drop ⟨some buffer⟩ s.pool, held := s.held.eraseIdx i } ∧
    (PooledBuffer.drop ⟨some buffer⟩ s.pool).inner.value.inUse + 1 = s.pool.inner.value.inUse := by
  have hlt : i < s.held.length := (List.getElem?_eq_some_iff.mp hi).1
  have hinUse := h.inUse
  rw [PooledBuffer.drop_eq h.poisoned]
  refine ⟨⟨h.poisoned, fun pooled hmem => h.held pooled (List.mem_of_mem_eraseIdx hmem), ?_,
    List.Perm.trans ?_ h.places⟩, ?_⟩
  · simp only [BufferPool.update, List.length_eraseIdx_of_lt hlt]
    omega
  · refine List.Perm.map _ ?_
    simp only [buffers, BufferPool.update]
    rw [List.append_assoc _ [buffer], List.singleton_append]
    exact ((perm_buffers_eraseIdx hi).symm.append_left _).append_right _
  · simp only [BufferPool.update]
    omega

/-- **A buffer that is detached stays with its caller**, and is counted all the same. -/
theorem Kept.detach (h : Kept pool s) {i : ℕ} {buffer : PinnedBuffer}
    (hi : s.held[i]? = some ⟨some buffer⟩) :
    Kept pool { s with held := s.held.eraseIdx i, detached := s.detached ++ [buffer] } := by
  have hlt : i < s.held.length := (List.getElem?_eq_some_iff.mp hi).1
  have hinUse := h.inUse
  refine ⟨h.poisoned, fun pooled hmem => h.held pooled (List.mem_of_mem_eraseIdx hmem), ?_,
    List.Perm.trans ?_ h.places⟩
  · simp only [List.length_eraseIdx_of_lt hlt, List.length_append, List.length_singleton]
    omega
  · refine List.Perm.map _ ?_
    have hlast := List.perm_append_singleton buffer
      ((s.held.eraseIdx i).filterMap PooledBuffer.buffer ++ s.detached)
    simp only [buffers, List.append_assoc] at hlast ⊢
    refine (hlast.trans ?_).append_left _
    exact (perm_buffers_eraseIdx hi).symm.append_right s.detached

/-- A holder that writes has the same place of a buffer. -/
theorem map_place_set {i : ℕ} {pooled pooled' : PooledBuffer} (hi : s.held[i]? = some pooled)
    (hsame : pooled'.buffer.map PinnedBuffer.place = pooled.buffer.map PinnedBuffer.place) :
    ((s.held.set i pooled').filterMap PooledBuffer.buffer).map PinnedBuffer.place =
      (s.held.filterMap PooledBuffer.buffer).map PinnedBuffer.place := by
  let place : PooledBuffer → Option (ℕ × ℕ) := fun pooled => pooled.buffer.map PinnedBuffer.place
  have hplaces : ∀ held : List PooledBuffer,
      (held.filterMap PooledBuffer.buffer).map PinnedBuffer.place =
        (held.map place).filterMap id := fun held => by
    rw [List.map_filterMap, List.filterMap_map]
    rfl
  obtain ⟨hlt, rfl⟩ := List.getElem?_eq_some_iff.mp hi
  have hset : (s.held.set i pooled').map place = s.held.map place := by
    have hplace : place pooled' = place s.held[i] := hsame
    rw [List.map_set, hplace, ← List.map_set, List.set_getElem_self]
  rw [hplaces, hplaces, hset]

/-- **A holder that writes keeps its buffer.** -/
theorem Kept.write (h : Kept pool s) {i : ℕ} {buffer : PinnedBuffer} {bytes : List UInt8}
    (hi : s.held[i]? = some ⟨some buffer⟩) (hlen : bytes.length = buffer.len)
    (generation : UInt64) :
    Kept pool { s with
      held := s.held.set i ⟨some ⟨{ buffer.inner with bytes }, generation⟩⟩ } := by
  obtain ⟨hlt, hpooled⟩ := List.getElem?_eq_some_iff.mp hi
  refine ⟨h.poisoned, fun pooled hmem => ?_, ?_, ?_⟩
  · rcases List.mem_or_eq_of_mem_set hmem with hmem | rfl
    · exact h.held pooled hmem
    · rfl
  · rw [List.length_set]
    exact h.inUse
  · have hplaces := h.places
    simp only [buffers, List.map_append] at hplaces ⊢
    rwa [map_place_set hi]
    rw [Option.map_some, Option.map_some, PinnedBuffer.place, PinnedBuffer.len, hlen]
    rfl

/-- **Whatever a section does, all buffers are kept.** -/
theorem Kept.step (h : Kept pool s) (hstep : Step s e t) : Kept pool t := by
  cases e with
  | tryGet =>
    obtain rfl := Option.some.inj hstep
    exact h.tryGet
  | get =>
    rw [Step, Pooling.step, BufferPool.get_eq] at hstep
    obtain rfl := Option.some.inj hstep
    exact h.tryGet
  | look =>
    rw [Step, Pooling.step] at hstep
    split at hstep
    · obtain rfl := Option.some.inj hstep
      exact ⟨h.poisoned, h.held, h.inUse, h.places⟩
    · obtain rfl := Option.some.inj hstep
      exact h
  | take =>
    rw [Step, Pooling.step, Option.ite_none_left_eq_some] at hstep
    obtain rfl := Option.some.inj hstep.2
    exact ⟨h.tryGet.poisoned, h.tryGet.held, h.tryGet.inUse, h.tryGet.places⟩
  | drop i =>
    obtain ⟨⟨_ | buffer⟩, hi, rfl⟩ := Option.map_eq_some_iff.mp hstep
    · exact absurd (h.held _ (List.mem_of_getElem? hi)) (by simp)
    · exact (h.drop hi).1
  | detach i =>
    obtain ⟨⟨_ | buffer⟩, hi, hcall⟩ := Option.bind_eq_some_iff.mp hstep
    · exact absurd (h.held _ (List.mem_of_getElem? hi)) (by simp)
    · obtain rfl := Option.some.inj hcall
      exact h.detach hi
  | write i bytes generation =>
    obtain ⟨⟨_ | buffer⟩, hi, hcall⟩ := Option.bind_eq_some_iff.mp hstep
    · exact absurd (h.held _ (List.mem_of_getElem? hi)) (by simp)
    · obtain ⟨hlen, ht⟩ := Option.ite_none_right_eq_some.mp hcall
      obtain rfl := Option.some.inj ht
      exact h.write hi hlen generation

/-- **A pool that is new has all of its buffers.** -/
theorem kept_new {capacity : ℕ}
    (hbuilt : (∃ addrs bufferSize, BufferPool.new addrs capacity bufferSize = some pool) ∨
      ∃ bufferFactory, BufferPool.withFactory capacity bufferFactory = some pool) :
    pool.capacity = capacity ∧ pool.inner.value.available.length = capacity ∧
      Kept pool (new pool) := by
  obtain ⟨available, bufferSize, hlen, -, rfl⟩ := BufferPool.eq_of_built hbuilt
  refine ⟨rfl, hlen, rfl, fun _ hmem => absurd hmem List.not_mem_nil, rfl, ?_⟩
  rw [buffers, new, List.filterMap_nil, List.append_nil, List.append_nil]

/-- **The two sections of the fast path**, one right after the other. -/
theorem step_look (s : Pooling) :
    (s.pool.isEmpty = .ok false → (s.step .look).bind (fun s => s.step .take) =
      some (s.holding (s.pool.tryGetFast.1.toOption.getD none) s.pool.tryGetFast.2)) ∧
    (s.pool.isEmpty ≠ .ok false → s.step .look =
      some (s.holding (s.pool.tryGetFast.1.toOption.getD none) s.pool.tryGetFast.2)) := by
  rw [step, BufferPool.tryGetFast]
  rcases s.pool.isEmpty with e | _ | _
  · exact ⟨fun h => absurd h (by simp), fun _ => by simp [holding, Except.toOption]⟩
  · exact ⟨fun _ => rfl, fun h => absurd rfl h⟩
  · exact ⟨fun h => absurd h (by simp), fun _ => by simp [holding, Except.toOption]⟩

/-- **No buffer of a pool is lost or given to two holders**, and the count of those in use is
right; so that it is never decreased from zero. -/
theorem conserved_of_run {capacity : ℕ} {ms : List (Transition.Move Pooling Event)}
    (hbuilt : (∃ addrs bufferSize, BufferPool.new addrs capacity bufferSize = some pool) ∨
      ∃ bufferFactory, BufferPool.withFactory capacity bufferFactory = some pool)
    (hrun : Transition.Run Step (new pool) ms s) :
    Transition.Always (Conserved pool) (new pool) ms ∧
      ∀ m ∈ ms, ∀ i, m.label = .drop i →
        m.after.pool.inner.value.inUse + 1 = m.before.pool.inner.value.inUse := by
  obtain ⟨rfl, hlen, hnew⟩ := kept_new hbuilt
  have hstep : ∀ s e t, Step s e t → True → Kept pool s → Kept pool t :=
    fun s e t hstep _ h => h.step hstep
  have halways : Transition.Always (Kept pool) (new pool) ms :=
    hrun.always hstep (fun _ _ => trivial) hnew
  refine ⟨⟨halways.1.conserved hlen, fun m hm => (halways.2 m hm).conserved hlen⟩,
    fun m hm i hlabel => ?_⟩
  have hkept := hrun.before_of_always halways hm
  have hdrop := hrun.step_of_mem hm
  rw [hlabel] at hdrop
  obtain ⟨⟨_ | buffer⟩, hi, hafter⟩ := Option.map_eq_some_iff.mp hdrop
  · exact absurd (hkept.held _ (List.mem_of_getElem? hi)) (by simp)
  · rw [← hafter]
    exact (hkept.drop hi).2

/-- Of two callers on the fast path that see the same buffer one takes it, and writes to it; it
is given back, and the other takes it. -/
def seenTwice : List Event := [.look, .look, .take, .write 0 [7] 1, .drop 0, .take, .detach 0]

/-- **The second detaches it**, with what the first wrote. -/
theorem conserved_seenTwice : ∃ pool ms s, BufferPool.new (fun i => 4096 + i) 1 1 = some pool ∧
    Transition.Run Step (new pool) ms s ∧ ms.map Transition.Move.label = seenTwice ∧
    s.pool.inner.value.available = [] ∧ s.held = [] ∧ s.detached = [⟨⟨4096, [7]⟩, 1⟩] ∧
    s.pool.inner.value.inUse = 1 ∧ Transition.Always (Conserved pool) (new pool) ms ∧
    ∀ m ∈ ms, ∀ i, m.label = .drop i →
      m.after.pool.inner.value.inUse + 1 = m.before.pool.inner.value.inUse := by
  let pool : BufferPool := ⟨⟨⟨[.withCapacity 4096 1], 0, 0, 0⟩, false⟩, 1, 1⟩
  have hpool : BufferPool.new (fun i => 4096 + i) 1 1 = some pool := rfl
  have hend : (Transition.trace step (new pool) seenTwice).map (fun x =>
      (x.2.pool.inner.value.available, x.2.held, x.2.detached, x.2.pool.inner.value.inUse)) =
        some ([], [], [⟨⟨4096, [7]⟩, 1⟩], 1) := by
    decide
  obtain ⟨⟨ms, s⟩, htrace, hend⟩ := Option.map_eq_some_iff.mp hend
  simp only [Prod.mk.injEq] at hend
  obtain ⟨havailable, hheld, hdetached, hinUse⟩ := hend
  obtain ⟨hrun, hlabels⟩ := Transition.run_of_trace htrace
  exact ⟨pool, ms, s, hpool, hrun, hlabels, havailable, hheld, hdetached, hinUse,
    conserved_of_run (Or.inl ⟨_, _, hpool⟩) hrun⟩

end Pooling

end SaferRing
