import SaferRing.Pool.Conservation

/-!
# How many buffers of a pool are in use

Whoever has a buffer of a pool can do more with it than write to it: `buffer_mut` gives it away,
so that another buffer can be put in its place, of whatever size. And a buffer can be waited for
(`SaferRing.Pooling.Use`). None of this changes what is counted (`SaferRing.Pooling.Counted`):
a pool has as many buffers in use as are held or were detached. So it says how many are held as
long as none was detached: `SaferRing.Pooling.reportsHeld_iff`.
-/

namespace SaferRing

namespace Pooling

/-- **What is done with a pool**, all of it. -/
inductive Use
  /-- A section under the lock, or a holder that writes. -/
  | event (e : Event)
  /-- A turn of `get_blocking`. -/
  | getBlocking
  /-- A holder puts another buffer in the place of its own, through `buffer_mut`. -/
  | replace (h : ℕ) (buffer : PinnedBuffer)
  deriving DecidableEq, Repr

variable (self : Pooling)

/-- **What a use does**; `none` when it cannot happen. -/
def use : Use → Option Pooling
  | .event e => self.step e
  | .getBlocking =>
    match self.pool.getBlockingTurn with
    | (some (.ok buffer), pool) => some (self.holding (some buffer) pool)
    | (_, pool) => some (self.holding none pool)
  | .replace h buffer =>
    self.held[h]?.bind fun pooled =>
      pooled.buffer.map fun _ => { self with held := self.held.set h ⟨some buffer⟩ }

/-- The step relation. -/
abbrev Used (s : Pooling) (u : Use) (t : Pooling) : Prop := s.use u = some t

/-- A turn of `get_blocking` does what `try_get` does. -/
theorem use_getBlocking : self.use .getBlocking = self.step .tryGet := by
  rw [use, step, BufferPool.getBlockingTurn]
  rcases self.pool.tryGet with ⟨_ | _ | buffer, pool⟩ <;> rfl

/-- **What an attempt to take a buffer comes to**, if it ends here. -/
def outcome : Use → Option (Option PooledBuffer)
  | .event .tryGet | .event .get | .event .take | .getBlocking =>
    some (self.pool.tryGet.1.toOption.getD none)
  | .event .look => if self.pool.isEmpty = .ok true then some none else none
  | _ => none

/-- **What is counted**: the buffers in use are those held and those detached. -/
structure Counted (s : Pooling) : Prop where
  /-- The lock is not poisoned. -/
  poisoned : s.pool.inner.poisoned = false
  /-- Every holder has a buffer. -/
  held : ∀ pooled ∈ s.held, pooled.buffer.isSome
  /-- What is in use is held or detached. -/
  inUse : s.pool.inner.value.inUse = s.held.length + s.detached.length

variable {self} {pool : BufferPool} {s t : Pooling} {u : Use}

/-- What keeps its buffers counts them. -/
theorem Kept.counted (h : Kept pool s) : Counted s := ⟨h.poisoned, h.held, h.inUse⟩

/-- What is counted keeps the buffers that it has. -/
theorem Counted.kept (h : Counted s) :
    Kept { s.pool with inner := ⟨{ s.pool.inner.value with available := s.buffers }, false⟩ } s :=
  ⟨h.poisoned, h.held, h.inUse, List.Perm.refl _⟩

/-- **Every use counts.** -/
theorem Counted.use (h : Counted s) (huse : Used s u t) : Counted t := by
  cases u with
  | event e => exact (h.kept.step huse).counted
  | getBlocking =>
    rw [Used, use_getBlocking] at huse
    exact (h.kept.step huse).counted
  | replace i buffer =>
    obtain ⟨pooled, hi, hset⟩ := Option.bind_eq_some_iff.mp huse
    obtain ⟨old, -, rfl⟩ := Option.map_eq_some_iff.mp hset
    refine ⟨h.poisoned, fun pooled hmem => ?_, ?_⟩
    · rcases List.mem_or_eq_of_mem_set hmem with hmem | rfl
      · exact h.held pooled hmem
      · rfl
    · rw [List.length_set]
      exact h.inUse

/-- The uses that take a buffer, if there is one. -/
inductive Takes : Use → Prop
  | tryGet : Takes (.event .tryGet)
  | get : Takes (.event .get)
  | take : Takes (.event .take)
  | getBlocking : Takes .getBlocking

/-- The uses that change a buffer which is held. -/
inductive Changes : Use → Prop
  | write (h : ℕ) (bytes : List UInt8) (generation : UInt64) :
    Changes (.event (.write h bytes generation))
  | replace (h : ℕ) (buffer : PinnedBuffer) : Changes (.replace h buffer)

/-- **What a use can do.** -/
inductive Effect (s : Pooling) : Use → Pooling → Prop
  /-- A buffer is taken, if there is one. -/
  | took {u : Use} (htakes : Takes u) (fast : ℕ) : Effect s u
    { s.holding (s.pool.tryGet.1.toOption.getD none) s.pool.tryGet.2 with fast }
  /-- A call on the fast path has looked for a buffer. -/
  | looked (fast : ℕ) : Effect s (.event .look) { s with fast }
  /-- A holder was dropped. -/
  | dropped (i : ℕ) (buffer : PinnedBuffer) (hi : s.held[i]? = some ⟨some buffer⟩) :
    Effect s (.event (.drop i))
      { s with pool := PooledBuffer.drop ⟨some buffer⟩ s.pool, held := s.held.eraseIdx i }
  /-- A buffer was detached. -/
  | detached (i : ℕ) (buffer : PinnedBuffer) (hi : s.held[i]? = some ⟨some buffer⟩) :
    Effect s (.event (.detach i))
      { s with held := s.held.eraseIdx i, detached := s.detached ++ [buffer] }
  /-- A holder has changed its buffer. -/
  | changed {u : Use} (hchanges : Changes u) (held : List PooledBuffer) : Effect s u { s with held }

/-- **A use has one of these effects.** -/
theorem Counted.effect (h : Counted s) (huse : Used s u t) : Effect s u t := by
  cases u with
  | event e =>
    cases e with
    | tryGet =>
      obtain rfl := Option.some.inj huse
      exact .took .tryGet s.fast
    | get =>
      rw [Used, Pooling.use, step, BufferPool.get_eq] at huse
      obtain rfl := Option.some.inj huse
      exact .took .get s.fast
    | look =>
      rw [Used, Pooling.use, step] at huse
      split at huse
      all_goals
        obtain rfl := Option.some.inj huse
        exact .looked _
    | take =>
      rw [Used, Pooling.use, step, Option.ite_none_left_eq_some] at huse
      obtain rfl := Option.some.inj huse.2
      exact .took .take (s.fast - 1)
    | drop i =>
      obtain ⟨⟨_ | buffer⟩, hi, rfl⟩ := Option.map_eq_some_iff.mp huse
      · exact absurd (h.held _ (List.mem_of_getElem? hi)) (by simp)
      · exact .dropped i buffer hi
    | detach i =>
      obtain ⟨⟨_ | buffer⟩, hi, hcall⟩ := Option.bind_eq_some_iff.mp huse
      · exact absurd (h.held _ (List.mem_of_getElem? hi)) (by simp)
      · obtain rfl := Option.some.inj hcall
        exact .detached i buffer hi
    | write i bytes generation =>
      obtain ⟨pooled, -, hcall⟩ := Option.bind_eq_some_iff.mp huse
      obtain ⟨buffer, -, hcall⟩ := Option.bind_eq_some_iff.mp hcall
      obtain rfl := Option.some.inj (Option.ite_none_right_eq_some.mp hcall).2
      exact .changed (.write i bytes generation) _
  | getBlocking =>
    rw [Used, use_getBlocking] at huse
    obtain rfl := Option.some.inj huse
    exact .took .getBlocking s.fast
  | replace i buffer =>
    obtain ⟨pooled, -, hset⟩ := Option.bind_eq_some_iff.mp huse
    obtain ⟨old, -, rfl⟩ := Option.map_eq_some_iff.mp hset
    exact .changed (.replace i buffer) _

/-- An attempt comes to what `try_get` answers. -/
theorem Takes.outcome_eq (h : Takes u) :
    s.outcome u = some (s.pool.tryGet.1.toOption.getD none) := by
  cases h <;> rfl

/-- What takes a buffer does to the pool what `try_get` does. -/
theorem Effect.pool_of_takes (h : Effect s u t) (htakes : Takes u) :
    t.pool = s.pool.tryGet.2 := by
  cases h with
  | took _ fast => rfl
  | changed hchanges held => cases hchanges <;> cases htakes
  | _ => cases htakes

/-- An attempt that ends with a buffer has taken it. -/
theorem takes_of_outcome {pooled : PooledBuffer} (h : s.outcome u = some (some pooled)) :
    Takes u := by
  cases u with
  | event e =>
    cases e with
    | tryGet => exact .tryGet
    | get => exact .get
    | take => exact .take
    | look =>
      rw [outcome, Option.ite_none_right_eq_some] at h
      exact absurd h.2 (by simp)
    | _ => exact absurd h (by simp [outcome])
  | getBlocking => exact .getBlocking
  | replace i buffer => exact absurd h (by simp [outcome])

/-- **The pool reports what is held.** -/
def ReportsHeld (s : Pooling) : Prop := s.pool.inUse = .ok s.held.length

/-- No buffer is detached. -/
def NoDetach (_ : Pooling) : Use → Prop
  | .event (.detach _) => False
  | _ => True

theorem Takes.noDetach (h : Takes u) : NoDetach s u := by
  cases h <;> trivial

theorem Changes.noDetach (h : Changes u) : NoDetach s u := by
  cases h <;> trivial

/-- What is reported is what is held, as long as nothing was detached. -/
theorem Counted.reports_iff (h : Counted s) : s.ReportsHeld ↔ s.detached = [] := by
  rw [ReportsHeld, BufferPool.inUse, PoolInner.lock, h.poisoned, if_neg (by simp), Except.map,
    Except.ok.injEq, h.inUse, ← List.length_eq_zero_iff]
  exact Nat.add_eq_left

/-- A use that is no detach detaches nothing. -/
theorem Counted.detached_use (h : Counted s) (huse : Used s u t) (hno : NoDetach s u) :
    t.detached = s.detached := by
  cases h.effect huse with
  | detached i buffer hi => exact hno.elim
  | _ => rfl

/-- A detach detaches a buffer. -/
theorem Counted.detached_ne_nil (h : Counted s) (huse : Used s u t) (hdetach : ¬NoDetach s u) :
    t.detached ≠ [] := by
  cases h.effect huse with
  | took htakes fast => exact absurd htakes.noDetach hdetach
  | detached i buffer hi => exact List.concat_ne_nil buffer s.detached
  | changed hchanges held => exact absurd hchanges.noDetach hdetach
  | _ => exact absurd trivial hdetach

/-- A pool that is new counts. -/
theorem counted_new {capacity : ℕ}
    (hbuilt : (∃ addrs bufferSize, BufferPool.new addrs capacity bufferSize = some pool) ∨
      ∃ bufferFactory, BufferPool.withFactory capacity bufferFactory = some pool) :
    Counted (new pool) :=
  (kept_new hbuilt).2.2.counted

/-- **A pool reports as in use what is held exactly when no buffer was detached**, so that it
reports none when all were dropped. -/
theorem reportsHeld_iff {capacity : ℕ} {ms : List (Transition.Move Pooling Use)}
    (hbuilt : (∃ addrs bufferSize, BufferPool.new addrs capacity bufferSize = some pool) ∨
      ∃ bufferFactory, BufferPool.withFactory capacity bufferFactory = some pool)
    (hrun : Transition.Run Used (new pool) ms s) :
    Transition.Always ReportsHeld (new pool) ms ↔ Transition.Guarded NoDetach ms := by
  have hkeep : ∀ s u t, Used s u t → NoDetach s u → Counted s → ReportsHeld s →
      Counted t ∧ ReportsHeld t := by
    intro s u t huse hno hcounted hreports
    refine ⟨hcounted.use huse, (hcounted.use huse).reports_iff.mpr ?_⟩
    rw [hcounted.detached_use huse hno]
    exact hcounted.reports_iff.mp hreports
  have hbreak : ∀ s u t, Used s u t → ¬NoDetach s u → Counted s → ReportsHeld s →
      ¬ReportsHeld t := fun s u t huse hdetach hcounted _ hreports =>
    hcounted.detached_ne_nil huse hdetach ((hcounted.use huse).reports_iff.mp hreports)
  exact hrun.always_iff hkeep hbreak (counted_new hbuilt)
    ((counted_new hbuilt).reports_iff.mpr rfl)

/-- The only buffer of a pool is taken, and detached. -/
def takenAway : List Use := [.event .tryGet, .event (.detach 0)]

/-- **Nobody holds a buffer of the pool, and one is in use.** -/
theorem not_reportsHeld_takenAway : ∃ pool ms s,
    BufferPool.new (fun i => 4096 + i) 1 1 = some pool ∧
    Transition.Run Used (new pool) ms s ∧ ms.map Transition.Move.label = takenAway ∧
    s.held = [] ∧ s.pool.inUse = .ok 1 ∧ ¬ReportsHeld s := by
  let pool : BufferPool := ⟨⟨⟨[.withCapacity 4096 1], 0, 0, 0⟩, false⟩, 1, 1⟩
  have hend : (Transition.trace use (new pool) takenAway).map (fun x =>
      (x.2.held, x.2.pool.inUse)) = some ([], .ok 1) := by
    decide
  obtain ⟨⟨ms, s⟩, htrace, hend⟩ := Option.map_eq_some_iff.mp hend
  obtain ⟨hheld, hinUse⟩ := Prod.mk.inj hend
  obtain ⟨hrun, hlabels⟩ := Transition.run_of_trace htrace
  refine ⟨pool, ms, s, rfl, hrun, hlabels, hheld, hinUse, fun h => ?_⟩
  rw [ReportsHeld, hinUse, hheld] at h
  exact absurd h (by decide)

/-- The buffers of a pool are taken in all ways there are, and dropped; one of them is another
by then. -/
def takenInTurn : List Use :=
  [.event .tryGet, .event .look, .event .take, .getBlocking, .replace 1 (.withCapacity 8192 7),
    .event (.drop 0), .getBlocking, .event (.drop 1), .event (.drop 0)]

/-- **None is in use in the end.** -/
theorem reportsHeld_takenInTurn : ∃ pool ms s,
    BufferPool.new (fun i => 4096 + i) 2 1 = some pool ∧
    Transition.Run Used (new pool) ms s ∧ ms.map Transition.Move.label = takenInTurn ∧
    s.pool.inUse = .ok 0 ∧ Transition.Always ReportsHeld (new pool) ms := by
  let pool : BufferPool :=
    ⟨⟨⟨[.withCapacity 4096 1, .withCapacity 4097 1], 0, 0, 0⟩, false⟩, 2, 1⟩
  have hpool : BufferPool.new (fun i => 4096 + i) 2 1 = some pool := rfl
  have hend : (Transition.trace use (new pool) takenInTurn).map (fun x => x.2.pool.inUse) =
      some (.ok 0) := by
    decide
  obtain ⟨⟨ms, s⟩, htrace, hinUse⟩ := Option.map_eq_some_iff.mp hend
  obtain ⟨hrun, hlabels⟩ := Transition.run_of_trace htrace
  refine ⟨pool, ms, s, hpool, hrun, hlabels, hinUse,
    (reportsHeld_iff (Or.inl ⟨_, _, hpool⟩) hrun).mpr fun m hm => ?_⟩
  have hno : ∀ u ∈ takenInTurn, NoDetach m.before u := by simp [takenInTurn, NoDetach]
  exact hno m.label (hlabels ▸ List.mem_map_of_mem hm)

end Pooling

end SaferRing
