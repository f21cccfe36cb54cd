import SaferRing.Pool.Uses

/-!
# What the statistics of a pool count

An attempt to take a buffer should be counted, as one that returned a buffer or as one that
failed, whatever function makes it (`SaferRing.Accounts.Balanced`). The fast path does not count
one that finds no buffer when it looks, which is the whole difference between it and `try_get`:
`SaferRing.accounts_iff`.
-/

namespace SaferRing

/-- **A pool, with a count of the attempts** to take a buffer. -/
structure Accounts where
  /-- The pool, and who has its buffers. -/
  pooling : Pooling
  /-- History: the attempts that ended. -/
  attempts : ℕ
  /-- History: those that returned a buffer. -/
  returned : ℕ

namespace Accounts

/-- A pool that is new. -/
def new (pool : BufferPool) : Accounts := ⟨.new pool, 0, 0⟩

variable (self : Accounts)

/-- What a use does, counted. -/
def step (u : Pooling.Use) : Option Accounts :=
  (self.pooling.use u).map fun pooling =>
    match self.pooling.outcome u with
    | none => { self with pooling }
    | some taken => ⟨pooling, self.attempts + 1, self.returned + taken.toList.length⟩

/-- The step relation. -/
abbrev Step (s : Accounts) (u : Pooling.Use) (t : Accounts) : Prop := s.step u = some t

/-- **Every attempt is counted**, by counters of 64 bits. -/
structure Balanced (s : Accounts) : Prop where
  /-- Those that returned a buffer. -/
  returned : s.pooling.pool.inner.value.totalAllocations = UInt64.ofNat s.returned
  /-- And all of them. -/
  attempts : s.pooling.pool.inner.value.totalAllocations +
    s.pooling.pool.inner.value.failedAllocations = UInt64.ofNat s.attempts

/-- **A call on the fast path finds a buffer** when it looks. -/
def FindsBuffer (s : Accounts) : Pooling.Use → Prop
  | .event .look => s.pooling.pool.isEmpty ≠ .ok true
  | _ => True

instance (s : Accounts) : DecidablePred (FindsBuffer s)
  | .event .look => inferInstanceAs (Decidable (s.pooling.pool.isEmpty ≠ .ok true))
  | .event .tryGet | .event .get | .event .take | .event (.drop _) | .event (.detach _)
  | .event (.write ..) | .getBlocking | .replace .. => inferInstanceAs (Decidable True)

variable {self} {s t : Accounts} {u : Pooling.Use}

/-- Taking a buffer is counted. -/
theorem counters_tryGet {pool : BufferPool} (h : pool.inner.poisoned = false) :
    pool.tryGet.2.inner.value.totalAllocations = pool.inner.value.totalAllocations +
      UInt64.ofNat (pool.tryGet.1.toOption.getD none).toList.length ∧
    pool.tryGet.2.inner.value.totalAllocations + pool.tryGet.2.inner.value.failedAllocations =
      pool.inner.value.totalAllocations + pool.inner.value.failedAllocations + 1 := by
  rcases BufferPool.tryGet_cases h with ⟨buffer, available, -, hcall⟩ | ⟨-, hcall⟩
  · rw [hcall]
    refine ⟨rfl, ?_⟩
    simp only [BufferPool.update]
    rw [UInt64.add_assoc, UInt64.add_comm 1, ← UInt64.add_assoc]
  · rw [hcall]
    refine ⟨?_, ?_⟩
    · simp [BufferPool.update, Except.toOption]
    · simp only [BufferPool.update]
      rw [UInt64.add_assoc]

/-- A use that is no attempt counts nothing. -/
theorem counters_effect {s t : Pooling} {u : Pooling.Use} (h : Pooling.Counted s)
    (heffect : Pooling.Effect s u t) (hu : ¬Pooling.Takes u) :
    t.pool.inner.value.totalAllocations = s.pool.inner.value.totalAllocations ∧
      t.pool.inner.value.failedAllocations = s.pool.inner.value.failedAllocations := by
  cases heffect with
  | took htakes fast => exact absurd htakes hu
  | dropped i buffer hi =>
    rw [PooledBuffer.drop_eq h.poisoned]
    exact ⟨rfl, rfl⟩
  | _ => exact ⟨rfl, rfl⟩

/-- **What a use does to the accounts.** -/
theorem step_cases (hstep : Step s u t) : Pooling.Used s.pooling u t.pooling ∧
    ((s.pooling.outcome u = none ∧ t.attempts = s.attempts ∧ t.returned = s.returned) ∨
    ∃ taken, s.pooling.outcome u = some taken ∧ t.attempts = s.attempts + 1 ∧
      t.returned = s.returned + taken.toList.length) := by
  obtain ⟨pooling, huse, rfl⟩ := Option.map_eq_some_iff.mp hstep
  rcases s.pooling.outcome u with _ | taken
  · exact ⟨huse, Or.inl ⟨rfl, rfl, rfl⟩⟩
  · exact ⟨huse, Or.inr ⟨taken, rfl, rfl, rfl⟩⟩

/-- What takes a buffer, or tries to, does not look for one first. -/
theorem findsBuffer_of_takes (h : Pooling.Takes u) : FindsBuffer s u := by
  cases h <;> trivial

/-- Unless it takes a buffer a use is no attempt that ends here, if it does not look in vain. -/
theorem outcome_eq_none_iff (h : ¬Pooling.Takes u) :
    s.pooling.outcome u = none ↔ FindsBuffer s u := by
  cases u with
  | event e =>
    cases e with
    | tryGet => exact absurd .tryGet h
    | get => exact absurd .get h
    | take => exact absurd .take h
    | look =>
      rw [Pooling.outcome, FindsBuffer]
      split
      · exact iff_of_false (by simp) fun hfinds => hfinds ‹_›
      · exact iff_of_true rfl ‹_›
    | _ => exact iff_of_true rfl trivial
  | getBlocking => exact absurd .getBlocking h
  | replace i buffer => exact iff_of_true rfl trivial

/-- **A use is counted right exactly when no call on the fast path looks in vain.** -/
theorem balanced_step (hstep : Step s u t) (h : s.pooling.Counted) (hs : s.Balanced) :
    t.Balanced ↔ FindsBuffer s u := by
  obtain ⟨huse, hcount⟩ := step_cases hstep
  have heffect := h.effect huse
  by_cases htakes : Pooling.Takes u
  · refine iff_of_true ?_ (findsBuffer_of_takes htakes)
    obtain ⟨htotal, hsum⟩ := counters_tryGet h.poisoned
    have hpool := heffect.pool_of_takes htakes
    rcases hcount with ⟨hnone, -⟩ | ⟨taken, htaken, hattempts, hreturned⟩
    · exact absurd (htakes.outcome_eq.symm.trans hnone) (by simp)
    obtain rfl := Option.some.inj (htakes.outcome_eq.symm.trans htaken)
    refine ⟨?_, ?_⟩
    · rw [hpool, htotal, hs.returned, hreturned, UInt64.ofNat_add]
    · rw [hpool, hsum, hs.attempts, hattempts, UInt64.ofNat_add]
      rfl
  · obtain ⟨htotal, hfailed⟩ := counters_effect h heffect htakes
    rw [← outcome_eq_none_iff htakes]
    rcases hcount with ⟨hnone, hattempts, hreturned⟩ | ⟨taken, htaken, hattempts, hreturned⟩
    · refine iff_of_true ⟨?_, ?_⟩ hnone
      · rw [htotal, hs.returned, hreturned]
      · rw [htotal, hfailed, hs.attempts, hattempts]
    · refine iff_of_false (fun ht => ?_) (by simp [htaken])
      have hsame := ht.attempts
      rw [htotal, hfailed, hs.attempts, hattempts, UInt64.ofNat_add,
        UInt64.left_eq_add] at hsame
      exact absurd hsame (by decide)

/-- **Every attempt is counted exactly when no call on the fast path looks in vain.** -/
theorem always_balanced_iff {pool : BufferPool} {ms : List (Transition.Move Accounts Pooling.Use)}
    (h : Pooling.Counted (.new pool)) (hpool : (new pool).Balanced)
    (hrun : Transition.Run Step (new pool) ms s) :
    Transition.Always Balanced (new pool) ms ↔ Transition.Guarded FindsBuffer ms := by
  let Counted : Accounts → Prop := fun s => s.pooling.Counted
  have hexact : ∀ s u t, Step s u t → Counted s → Balanced s →
      Counted t ∧ (Balanced t ↔ FindsBuffer s u) := fun s u t hstep hcounted hs =>
    ⟨hcounted.use (step_cases hstep).1, balanced_step hstep hcounted hs⟩
  exact hrun.always_iff_step hexact h hpool

/-- The pool of a run counts. -/
theorem counted_of_run {pool : BufferPool} {ms : List (Transition.Move Accounts Pooling.Use)}
    (h : Pooling.Counted (.new pool)) (hrun : Transition.Run Step (new pool) ms s) :
    s.pooling.Counted := by
  let Counted : Accounts → Prop := fun s => s.pooling.Counted
  exact hrun.preserves Counted (fun s u t hstep hcounted => hcounted.use (step_cases hstep).1) h

end Accounts

/-! ### Sequential runs -/

/-- A call of a sequential run. -/
inductive PoolCall
  /-- `try_get`. -/
  | tryGet
  /-- `try_get_fast`, both of its sections. -/
  | tryGetFast
  /-- Anything else that is done with the pool. -/
  | other (u : Pooling.Use)
  deriving DecidableEq, Repr

namespace PoolCall

/-- What a call answers, and what it leaves; what cannot happen is left out. -/
def run (s : Pooling) : PoolCall → Except SaferRingError (Option PooledBuffer) × Pooling
  | .tryGet =>
    let (result, pool) := s.pool.tryGet
    (result, s.holding (result.toOption.getD none) pool)
  | .tryGetFast =>
    let (result, pool) := s.pool.tryGetFast
    (result, s.holding (result.toOption.getD none) pool)
  | .other u =>
    match s.use u with
    | none => (.ok none, s)
    | some t => (.ok (s.outcome u).join, t)

/-- **What is seen of a run**: the answers, and the statistics after each call. -/
def observe : List PoolCall → Pooling →
    List (Except SaferRingError (Option PooledBuffer) × Option PoolStats)
  | [], _ => []
  | call :: calls, s =>
    ((call.run s).1, (call.run s).2.pool.stats) :: observe calls (call.run s).2

/-- Some calls of `try_get` are calls of `try_get_fast` instead. -/
abbrev Replaces : List PoolCall → List PoolCall → Prop :=
  List.Forall₂ fun call call' => call' = call ∨ call = .tryGet ∧ call' = .tryGetFast

/-- **Each call that was replaced finds a buffer.** -/
def FindBuffers : List PoolCall → List PoolCall → Pooling → Prop
  | call :: calls, call' :: calls', s =>
    (call' ≠ call → s.pool.isEmpty ≠ .ok true) ∧ FindBuffers calls calls' (call.run s).2
  | _, _, _ => True

variable {s : Pooling}

/-- **The fast path is `try_get`** when there is a buffer. -/
theorem run_tryGetFast (h : s.pool.isEmpty ≠ .ok true) :
    PoolCall.tryGetFast.run s = PoolCall.tryGet.run s := by
  rw [run, run, BufferPool.tryGetFast_eq h]

/-- **The fast path does nothing** when there is none. -/
theorem run_tryGetFast_empty (h : s.pool.isEmpty = .ok true) :
    PoolCall.tryGetFast.run s = (.ok none, s) := by
  simp [run, BufferPool.tryGetFast, h, Pooling.holding, Except.toOption]

/-- A call counts. -/
theorem counted_run (h : s.Counted) (call : PoolCall) : (call.run s).2.Counted := by
  have htryGet : (PoolCall.tryGet.run s).2.Counted :=
    have huse : Pooling.Used s (.event .tryGet) (PoolCall.tryGet.run s).2 := rfl
    h.use huse
  cases call with
  | tryGet => exact htryGet
  | tryGetFast =>
    by_cases hempty : s.pool.isEmpty = .ok true
    · rw [run_tryGetFast_empty hempty]
      exact h
    · rw [run_tryGetFast hempty]
      exact htryGet
  | other u =>
    rw [run]
    rcases huse : s.use u with _ | t
    · exact h
    · exact h.use huse

/-- On a pool that is empty the fast path leaves out what `try_get` counts. -/
theorem stats_ne (h : s.Counted) (hempty : s.pool.isEmpty = .ok true) :
    (PoolCall.tryGetFast.run s).2.pool.stats ≠ (PoolCall.tryGet.run s).2.pool.stats := by
  rw [run_tryGetFast_empty hempty]
  have hcount : (PoolCall.tryGet.run s).2.pool.inner.value.totalAllocations +
      (PoolCall.tryGet.run s).2.pool.inner.value.failedAllocations =
      s.pool.inner.value.totalAllocations + s.pool.inner.value.failedAllocations + 1 :=
    (Accounts.counters_tryGet h.poisoned).2
  have hafter := (counted_run h .tryGet).poisoned
  intro hstats
  simp only [BufferPool.stats, PoolInner.lock, h.poisoned, hafter, if_neg, Option.some.injEq,
    PoolStats.mk.injEq, Bool.false_eq_true, not_false_eq_true] at hstats
  obtain ⟨-, -, -, -, htotal, hfailed, -⟩ := hstats
  rw [← htotal, ← hfailed, UInt64.left_eq_add] at hcount
  exact absurd hcount (by decide)

/-- **A run looks the same exactly when each call that was replaced finds a buffer.** -/
theorem observe_eq_iff {calls calls' : List PoolCall} (h : s.Counted)
    (hreplaces : Replaces calls calls') :
    observe calls' s = observe calls s ↔ FindBuffers calls calls' s := by
  induction hreplaces generalizing s with
  | nil => exact iff_of_true rfl trivial
  | @cons call call' calls calls' hcall _ ih =>
    rw [observe, observe, FindBuffers, List.cons.injEq]
    rcases hcall with rfl | ⟨rfl, rfl⟩
    · rw [ih (counted_run h call')]
      simp
    · by_cases hempty : s.pool.isEmpty = .ok true
      · refine iff_of_false (fun heq => ?_) fun hfind => hfind.1 (by decide) hempty
        exact stats_ne h hempty (Prod.mk.inj heq.1).2
      · rw [run_tryGetFast hempty, ih (counted_run h .tryGet)]
        simp [hempty]

end PoolCall

/-- **The fast path accounts as `try_get` does exactly when it finds a buffer**: every attempt is
counted exactly when no call on the fast path looks in vain, and calls of `try_get` can be
replaced unseen exactly when they find a buffer. -/
theorem accounts_iff {pool : BufferPool} {capacity : ℕ}
    {ms : List (Transition.Move Accounts Pooling.Use)} {s : Accounts}
    {calls calls' : List PoolCall}
    (hbuilt : (∃ addrs bufferSize, BufferPool.new addrs capacity bufferSize = some pool) ∨
      ∃ bufferFactory, BufferPool.withFactory capacity bufferFactory = some pool)
    (hrun : Transition.Run Accounts.Step (.new pool) ms s)
    (hreplaces : PoolCall.Replaces calls calls') :
    (Transition.Always Accounts.Balanced (.new pool) ms ↔
      Transition.Guarded Accounts.FindsBuffer ms) ∧
    (PoolCall.observe calls' s.pooling = PoolCall.observe calls s.pooling ↔
      PoolCall.FindBuffers calls calls' s.pooling) := by
  have hcounted := Pooling.counted_new hbuilt
  obtain ⟨available, bufferSize, -, -, rfl⟩ := BufferPool.eq_of_built hbuilt
  exact ⟨Accounts.always_balanced_iff hcounted ⟨rfl, rfl⟩ hrun,
    PoolCall.observe_eq_iff (Accounts.counted_of_run hcounted hrun) hreplaces⟩

/-- The only buffer of a pool is taken, then one is looked for on the fast path. -/
def lookedInVain : List Pooling.Use := [.event .tryGet, .event .look]

/-- **Two attempts were made, and one is counted**; in the same place `try_get` is counted. -/
theorem not_accounts_lookedInVain : ∃ pool ms s,
    BufferPool.new (fun i => 4096 + i) 1 1 = some pool ∧
    Transition.Run Accounts.Step (.new pool) ms s ∧
    ms.map Transition.Move.label = lookedInVain ∧ s.attempts = 2 ∧
    s.pooling.pool.inner.value.totalAllocations +
      s.pooling.pool.inner.value.failedAllocations = 1 ∧ ¬s.Balanced ∧
    PoolCall.Replaces [.tryGet, .tryGet] [.tryGet, .tryGetFast] ∧
    PoolCall.observe [.tryGet, .tryGetFast] (.new pool) ≠
      PoolCall.observe [.tryGet, .tryGet] (.new pool) := by
  let pool : BufferPool := ⟨⟨⟨[.withCapacity 4096 1], 0, 0, 0⟩, false⟩, 1, 1⟩
  have hend : (Transition.trace Accounts.step (.new pool) lookedInVain).map (fun x =>
      (x.2.attempts, x.2.pooling.pool.inner.value.totalAllocations +
        x.2.pooling.pool.inner.value.failedAllocations)) = some (2, 1) := by
    decide
  obtain ⟨⟨ms, s⟩, htrace, hend⟩ := Option.map_eq_some_iff.mp hend
  obtain ⟨hattempts, hcounted⟩ := Prod.mk.inj hend
  obtain ⟨hrun, hlabels⟩ := Transition.run_of_trace htrace
  refine ⟨pool, ms, s, rfl, hrun, hlabels, hattempts, hcounted, fun h => ?_, ?_, by decide⟩
  · have hbalanced := h.attempts
    rw [hattempts, hcounted] at hbalanced
    exact absurd hbalanced (by decide)
  · exact .cons (Or.inl rfl) (.cons (Or.inr ⟨rfl, rfl⟩) .nil)

/-- A buffer is taken in all ways there are, and given back each time but the last; then there
is none. -/
def foundInTurn : List Pooling.Use :=
  [.event .look, .event .take, .event (.drop 0), .event .get, .event (.drop 0), .getBlocking,
    .event .tryGet, .getBlocking]

/-- **All five attempts are counted**, of which three returned a buffer, and the fast path does
as well as `try_get` on what can be found. -/
theorem accounts_foundInTurn : ∃ pool ms s,
    BufferPool.new (fun i => 4096 + i) 1 1 = some pool ∧
    Transition.Run Accounts.Step (.new pool) ms s ∧
    ms.map Transition.Move.label = foundInTurn ∧ s.attempts = 5 ∧ s.returned = 3 ∧
    Transition.Always Accounts.Balanced (.new pool) ms ∧
    PoolCall.observe [.other (.event (.drop 0)), .tryGetFast] s.pooling =
      PoolCall.observe [.other (.event (.drop 0)), .tryGet] s.pooling := by
  let pool : BufferPool := ⟨⟨⟨[.withCapacity 4096 1], 0, 0, 0⟩, false⟩, 1, 1⟩
  have hpool : BufferPool.new (fun i => 4096 + i) 1 1 = some pool := rfl
  have hend : (Transition.trace Accounts.step (.new pool) foundInTurn).map (fun x =>
      (x.2.attempts, x.2.returned, x.1.all fun m => decide (m.before.FindsBuffer m.label),
        decide ((x.2.pooling.use (.event (.drop 0))).isSome ∧
          ((PoolCall.other (.event (.drop 0))).run x.2.pooling).2.pool.isEmpty ≠ .ok true))) =
      some (5, 3, true, true) := by
    decide
  obtain ⟨⟨ms, s⟩, htrace, hend⟩ := Option.map_eq_some_iff.mp hend
  simp only [Prod.mk.injEq, decide_eq_true_eq] at hend
  obtain ⟨hattempts, hreturned, hall, -, hfull⟩ := hend
  obtain ⟨hrun, hlabels⟩ := Transition.run_of_trace htrace
  have hreplaces : PoolCall.Replaces [.other (.event (.drop 0)), .tryGet]
      [.other (.event (.drop 0)), .tryGetFast] :=
    .cons (Or.inl rfl) (.cons (Or.inr ⟨rfl, rfl⟩) .nil)
  obtain ⟨halways, hobserve⟩ := accounts_iff (Or.inl ⟨_, _, hpool⟩) hrun hreplaces
  refine ⟨pool, ms, s, hpool, hrun, hlabels, hattempts, hreturned, halways.mpr fun m hm => ?_,
    hobserve.mpr ⟨fun h => absurd rfl h, fun _ => hfull, trivial⟩⟩
  exact of_decide_eq_true (List.all_eq_true.mp hall m hm)

end SaferRing
