import SaferRing.Pool.Uses

/-!
# The size of the buffers of a pool

All buffers of a new pool have its size. But nothing is looked at when a holder is dropped: what
comes back is what the holder has by then, and it need not be what it was given. The buffers that
are available have the size of the pool exactly when those that came back had it
(`SaferRing.Pooling.uniform_iff`), and so do those that are handed out.
-/

namespace SaferRing

namespace Pooling

/-- **What is available has the size of the pool.** -/
def Uniform (s : Pooling) : Prop :=
  ∀ buffer ∈ s.pool.inner.value.available, buffer.len = s.pool.bufferSize

/-- **What is handed out has it.** -/
def HandsOutSize (m : Transition.Move Pooling Use) : Prop :=
  ∀ buffer, m.before.outcome m.label = some (some ⟨some buffer⟩) →
    buffer.len = m.before.pool.bufferSize

/-- **What comes back has it.** -/
def GivesBackSize (s : Pooling) : Use → Prop
  | .event (.drop h) =>
    ∀ buffer ∈ s.held[h]?.bind PooledBuffer.buffer, buffer.len = s.pool.bufferSize
  | _ => True

instance (s : Pooling) (u : Use) : Decidable (GivesBackSize s u) :=
  match u with
  | .event (.drop h) => inferInstanceAs (Decidable
      (∀ buffer ∈ s.held[h]?.bind PooledBuffer.buffer, buffer.len = s.pool.bufferSize))
  | .event .tryGet | .event .get | .event .look | .event .take | .event (.detach _)
  | .event (.write _ _ _) | .getBlocking | .replace _ _ => inferInstanceAs (Decidable True)

variable {pool : BufferPool} {s t : Pooling} {u : Use}

/-- Taking a buffer adds none. -/
theorem subset_tryGet (h : s.pool.inner.poisoned = false) :
    s.pool.tryGet.2.inner.value.available ⊆ s.pool.inner.value.available ∧
      s.pool.tryGet.2.bufferSize = s.pool.bufferSize := by
  rcases BufferPool.tryGet_cases h with ⟨buffer, available, havailable, hcall⟩ | ⟨-, hcall⟩
  · rw [hcall, havailable]
    exact ⟨List.subset_cons_self buffer available, rfl⟩
  · rw [hcall]
    exact ⟨List.Subset.refl _, rfl⟩

theorem Takes.givesBackSize (h : Takes u) : GivesBackSize s u := by
  cases h <;> trivial

theorem Changes.givesBackSize (h : Changes u) : GivesBackSize s u := by
  cases h <;> trivial

/-- **A use keeps the buffers that are available uniform exactly when what comes back has the
size of the pool.** -/
theorem Counted.uniform_use (h : Counted s) (huse : Used s u t) (hs : s.Uniform) :
    t.Uniform ↔ GivesBackSize s u := by
  cases h.effect huse with
  | took htakes fast =>
    obtain ⟨hsubset, hsize⟩ := subset_tryGet h.poisoned
    refine iff_of_true (fun buffer hmem => ?_) htakes.givesBackSize
    exact (hs buffer (hsubset hmem)).trans hsize.symm
  | dropped i buffer hi =>
    rw [PooledBuffer.drop_eq h.poisoned, Uniform]
    simp only [BufferPool.update, List.forall_mem_append, List.forall_mem_singleton]
    have hbuffer : s.held[i]?.bind PooledBuffer.buffer = some buffer := by
      rw [hi, Option.bind_some]
    refine ⟨fun hall other hother => ?_, fun hback => ⟨hs, hback buffer hbuffer⟩⟩
    obtain rfl := Option.some.inj (hbuffer.symm.trans hother)
    exact hall.2
  | changed hchanges held => exact iff_of_true hs hchanges.givesBackSize
  | _ => exact iff_of_true hs trivial

/-- What is handed out was available. -/
theorem Counted.handsOutSize (h : Counted s) (hs : s.Uniform) : HandsOutSize ⟨s, u, t⟩ := by
  intro handed houtcome
  have htakes := (takes_of_outcome houtcome).outcome_eq.symm.trans houtcome
  rcases BufferPool.tryGet_cases h.poisoned with ⟨buffer, available, havailable, hcall⟩ | ⟨-, hcall⟩
  · rw [hcall] at htakes
    obtain rfl : buffer = handed := by simpa [Except.toOption] using htakes
    exact hs buffer (havailable ▸ List.mem_cons_self)
  · rw [hcall] at htakes
    exact absurd htakes (by simp [Except.toOption])

/-- The buffers of a pool that is new have its size. -/
theorem uniform_new {capacity : ℕ}
    (hbuilt : (∃ addrs bufferSize, BufferPool.new addrs capacity bufferSize = some pool) ∨
      ∃ bufferFactory, BufferPool.withFactory capacity bufferFactory = some pool) :
    (new pool).Uniform := by
  obtain ⟨available, bufferSize, -, hsize, rfl⟩ := BufferPool.eq_of_built hbuilt
  exact hsize

/-- **The buffers a pool has to hand out have its size exactly when all that came back had it**,
and then those that it hands out have it. -/
theorem uniform_iff {capacity : ℕ} {ms : List (Transition.Move Pooling Use)}
    (hbuilt : (∃ addrs bufferSize, BufferPool.new addrs capacity bufferSize = some pool) ∨
      ∃ bufferFactory, BufferPool.withFactory capacity bufferFactory = some pool)
    (hrun : Transition.Run Used (new pool) ms s) :
    (Transition.Always Uniform (new pool) ms ↔ Transition.Guarded GivesBackSize ms) ∧
      (Transition.Guarded GivesBackSize ms → ∀ m ∈ ms, HandsOutSize m) := by
  have hexact : ∀ s u t, Used s u t → Counted s → Uniform s →
      Counted t ∧ (Uniform t ↔ GivesBackSize s u) := fun s u t huse h hs =>
    ⟨h.use huse, h.uniform_use huse hs⟩
  have hiff := hrun.always_iff_step hexact (counted_new hbuilt) (uniform_new hbuilt)
  refine ⟨hiff, fun hback m hm => ?_⟩
  have hcounts : ∀ s u t, Used s u t → True → Counted s → Counted t :=
    fun s u t huse _ h => h.use huse
  have hcounted : Transition.Always Counted (new pool) ms :=
    hrun.always hcounts (fun _ _ => trivial) (counted_new hbuilt)
  exact (hrun.before_of_always hcounted hm).handsOutSize
    (hrun.before_of_always (hiff.mpr hback) hm)

/-- Another buffer, of seven bytes, is put in the place of the only one. -/
def replacedByLarger : List Use :=
  [.event .tryGet, .replace 0 (.withCapacity 8192 7), .event (.drop 0), .event .tryGet]

/-- **A pool of buffers of one byte hands it out.** -/
theorem not_handsOutSize_replacedByLarger : ∃ pool ms s,
    BufferPool.new (fun i => 4096 + i) 1 1 = some pool ∧
    Transition.Run Used (new pool) ms s ∧ ms.map Transition.Move.label = replacedByLarger ∧
    s.held = [⟨some (.withCapacity 8192 7)⟩] ∧ ¬∀ m ∈ ms, HandsOutSize m := by
  let pool : BufferPool := ⟨⟨⟨[.withCapacity 4096 1], 0, 0, 0⟩, false⟩, 1, 1⟩
  have hend : (Transition.trace use (new pool) replacedByLarger).map (fun x =>
      (x.2.held, x.1.any fun m => decide (m.before.pool.bufferSize = 1 ∧
        m.before.outcome m.label = some (some ⟨some (.withCapacity 8192 7)⟩)))) =
      some ([⟨some (.withCapacity 8192 7)⟩], true) := by
    decide
  obtain ⟨⟨ms, s⟩, htrace, hend⟩ := Option.map_eq_some_iff.mp hend
  obtain ⟨hheld, hany⟩ := Prod.mk.inj hend
  obtain ⟨hrun, hlabels⟩ := Transition.run_of_trace htrace
  refine ⟨pool, ms, s, rfl, hrun, hlabels, hheld, fun hall => ?_⟩
  obtain ⟨m, hm, hhanded⟩ := List.any_eq_true.mp hany
  obtain ⟨hsize, houtcome⟩ := of_decide_eq_true hhanded
  have hlen := hall m hm _ houtcome
  rw [hsize] at hlen
  exact absurd hlen (by decide)

/-- Another buffer, of the same size, is put in the place of one of two. -/
def replacedBySame : List Use :=
  [.event .tryGet, .replace 0 (.withCapacity 8192 1), .event (.drop 0), .getBlocking,
    .event .tryGet]

/-- **It is handed out like the others.** -/
theorem uniform_replacedBySame : ∃ pool ms s,
    BufferPool.new (fun i => 4096 + i) 2 1 = some pool ∧
    Transition.Run Used (new pool) ms s ∧ ms.map Transition.Move.label = replacedBySame ∧
    s.held = [⟨some (.withCapacity 4097 1)⟩, ⟨some (.withCapacity 8192 1)⟩] ∧
    Transition.Always Uniform (new pool) ms ∧ ∀ m ∈ ms, HandsOutSize m := by
  let pool : BufferPool :=
    ⟨⟨⟨[.withCapacity 4096 1, .withCapacity 4097 1], 0, 0, 0⟩, false⟩, 2, 1⟩
  have hpool : BufferPool.new (fun i => 4096 + i) 2 1 = some pool := rfl
  have hend : (Transition.trace use (new pool) replacedBySame).map (fun x =>
      (x.2.held, x.1.all fun m => decide (GivesBackSize m.before m.label))) =
      some ([⟨some (.withCapacity 4097 1)⟩, ⟨some (.withCapacity 8192 1)⟩], true) := by
    decide
  obtain ⟨⟨ms, s⟩, htrace, hend⟩ := Option.map_eq_some_iff.mp hend
  obtain ⟨hheld, hall⟩ := Prod.mk.inj hend
  obtain ⟨hrun, hlabels⟩ := Transition.run_of_trace htrace
  obtain ⟨hiff, hhanded⟩ := uniform_iff (Or.inl ⟨_, _, hpool⟩) hrun
  have hback : Transition.Guarded GivesBackSize ms :=
    fun m hm => of_decide_eq_true (List.all_eq_true.mp hall m hm)
  exact ⟨pool, ms, s, hpool, hrun, hlabels, hheld, hiff.mpr hback, hhanded hback⟩

end Pooling

end SaferRing
