import SaferRing.IoFutures.Once
import SaferRing.Wakers

/-!
# The waker of a future of a single operation

While a future of a single operation has the ring to itself, there is one waker at most: that of
the last poll, when it answered `Pending` and the future was not dropped since
(`SaferRing.waitingFor`). `SaferRing.IoCall.lookup_wakers` says so of every run.
-/

namespace SaferRing

open Transition (Move)

/-- **Whom a future waits for** after a step: who polled it last, and was told to wait. -/
def FutureLabel.waits : Option Waker → FutureLabel → Option Waker
  | _, poll _ waker _ .pending => some waker
  | _, poll _ _ _ (.ready _) => none
  | waker, complete .. => waker
  | _, drop => none

/-- Whom a future waits for after a run. -/
def waitingFor (moves : List (Move FutureRun FutureLabel)) : Option Waker :=
  moves.foldl (fun waker m => m.label.waits waker) none

theorem waitingFor_snoc (moves : List (Move FutureRun FutureLabel))
    (m : Move FutureRun FutureLabel) :
    waitingFor (moves ++ [m]) = m.label.waits (waitingFor moves) := by
  rw [waitingFor, List.foldl_append]
  rfl

/-- **One waker at most is registered**, under the id of an operation. -/
def Ring.OneWaker (ring : Ring) (id : ℕ) (waker : Option Waker) : Prop :=
  ∀ j, ring.wakers.lookup j = if j = id then waker else none

namespace Ring.OneWaker

variable {s t : Ring} {id : ℕ} {waker : Option Waker}

/-- What registers none leaves no waker of others. -/
theorem notMem (h : s.OneWaker id waker) (hnone : s.RegistersNone t) {j : ℕ} (hj : j ≠ id) :
    t.wakers.lookup j = none := by
  have hlookup := h j
  rw [if_neg hj] at hlookup
  exact AList.lookup_eq_none.mpr fun hmem => AList.lookup_eq_none.mp hlookup (hnone j hmem)

/-- The waker is taken back. -/
theorem remove (h : s.OneWaker id waker) (hnone : s.RegistersNone t) :
    (t.removeWaker id).OneWaker id none := by
  intro j
  rw [ite_self]
  by_cases hj : j = id
  · rw [hj]
    exact AList.lookup_erase ..
  · exact (AList.lookup_erase_ne hj).trans (h.notMem hnone hj)

/-- A waker is registered. -/
theorem register (h : s.OneWaker id waker) (hnone : s.RegistersNone t) (next : Waker) :
    (t.registerWaker id next).OneWaker id (some next) := by
  intro j
  by_cases hj : j = id
  · rw [if_pos hj, hj]
    exact AList.lookup_insert _
  · rw [if_neg hj]
    exact (AList.lookup_insert_ne hj).trans (h.notMem hnone hj)

end Ring.OneWaker

namespace FutureRun

variable {type : IoFutureType} {op : Operation Submitted} {s t : FutureRun} {l : FutureLabel}
  {waker : Option Waker}

/-- **A step keeps one waker at most**, of who waits. A future that is done has none. -/
theorem oneWaker_step (hs : s.Live type op ∨ s.Over op ∧ waker = none)
    (h : s.ring.OneWaker op.state.id waker) (hstep : Step s l t) :
    t.ring.OneWaker op.state.id (l.waits waker) ∧
      (t.Live type op ∨ t.Over op ∧ l.waits waker = none) := by
  rcases hs with hs | ⟨hs, rfl⟩
  · have hnext := (hs.step hstep).1
    cases l with
    | poll count waker' fail answer =>
      obtain ⟨future, _, hfuture, -, hpoll⟩ := step_poll hstep
      obtain rfl := hs.future future hfuture
      obtain ⟨_, next, hcall, hwhat⟩ := IoFuture.poll_new_cases hpoll
      have hnone := Ring.registersNone_tryCompleteById hcall
      rcases hwhat with ⟨_, -, rfl, -, hring⟩ | ⟨-, rfl, -, hring⟩ | ⟨_, -, rfl, -, hring⟩
      · exact ⟨hring ▸ h.remove hnone, hnext.imp And.left fun hover => ⟨hover.1, rfl⟩⟩
      · refine ⟨hring ▸ h.register hnone waker', Or.inl ?_⟩
        rcases hnext with ⟨hlive, -⟩ | ⟨-, _, -, hv⟩
        · exact hlive
        · exact absurd hv (by simp [FutureLabel.output])
      · exact ⟨hring ▸ h.remove hnone, hnext.imp And.left fun hover => ⟨hover.1, rfl⟩⟩
    | complete i result =>
      obtain ⟨b, -, rfl⟩ := step_complete hstep
      refine ⟨h, Or.inl ?_⟩
      rcases hnext with ⟨hlive, -⟩ | ⟨-, _, -, hv⟩
      · exact hlive
      · exact absurd hv (by simp [FutureLabel.output])
    | drop =>
      obtain ⟨future, hfuture, rfl⟩ := step_drop hstep
      obtain rfl := hs.future future hfuture
      exact ⟨h.remove (.of_eq rfl), hnext.imp And.left fun hover => ⟨hover.1, rfl⟩⟩
  · obtain ⟨hover, hnotPoll, -⟩ := hs.step hstep
    cases l with
    | poll => exact absurd hnotPoll (by simp [FutureLabel.isPoll])
    | complete i result =>
      obtain ⟨b, -, rfl⟩ := step_complete hstep
      exact ⟨h, Or.inr ⟨hover, rfl⟩⟩
    | drop =>
      obtain ⟨future, hfuture, rfl⟩ := step_drop hstep
      have hring : future.drop s.ring = s.ring := by
        rw [IoFuture.drop, hs.future future hfuture]
      rw [hring] at hover ⊢
      exact ⟨h, Or.inr ⟨hover, rfl⟩⟩

/-- **Along every run there is one waker at most**, of who waits. -/
theorem oneWaker_of_run {moves : List (Move FutureRun FutureLabel)} (h : s.Live type op)
    (hone : s.ring.OneWaker op.state.id none) (hrun : Transition.Run Step s moves t) :
    t.ring.OneWaker op.state.id (waitingFor moves) ∧
      (t.Live type op ∨ t.Over op ∧ waitingFor moves = none) := by
  induction hrun with
  | nil => exact ⟨hone, Or.inl h⟩
  | snoc _ hstep ih =>
    obtain ⟨hone, hwhat⟩ := ih
    rw [waitingFor_snoc]
    exact oneWaker_step hwhat hone hstep

end FutureRun

section Reachable

variable {ms : List (Move World Event)} {w : World}

/-- Who submits and asks registers no waker. -/
theorem lookup_wakers_of_run (hrun : Run ms w) (hbyId : Transition.Guarded ByIdOnly ms) (id : ℕ) :
    w.ring.wakers.lookup id = none := by
  let Inv : World → Prop := fun w => id ∉ w.ring.wakers
  have hkeep : ∀ s e t, Step s e t → ByIdOnly s e → Inv s → Inv t := by
    intro s e t hstep hg hs hid
    refine hs (hstep.registersNone (fun f waker fail haction => ?_) id hid)
    rw [ByIdOnly, haction] at hg
    exact hg
  have hnew : Inv World.new := AList.notMem_empty id
  have hend : Inv w := hrun.invariant hkeep hbyId hnew
  exact AList.lookup_eq_none.mpr hend

/-- **The waker registered is that of who waits.** Take any call that makes a future, on a ring
that was used by who submits and asks, with fewer than 2^64 submissions in all. After every run of
the future – whatever it is polled with, whichever polls fail, and whatever the kernel completes
when – the waker registered under its id is the one of the last poll, when that answered `Pending`
and the future was not dropped since, and there is no other waker. -/
theorem IoCall.lookup_wakers (hrun : Run ms w) (hbyId : Transition.Guarded ByIdOnly ms)
    (hfew : Transition.spent submissionsOf ms + 1 < 2 ^ 64) {call : IoCall} {future : IoFuture}
    {started : Ring} (hstart : call.start w.ring (.ok ()) = (.ok future, started))
    {moves : List (Move FutureRun FutureLabel)} {s : FutureRun}
    (hmoves : Transition.Run FutureRun.Step ⟨started, some future⟩ moves s) (id : ℕ) :
    s.ring.wakers.lookup id =
      if id = w.ring.operations.nextId then waitingFor moves else none := by
  have hring := byId_of_run hrun (hbyId.and (drawsNew_of_run hrun hbyId (by omega)))
  have hlive := call.live_of_start hring (nextId_notMem_of_run hrun hbyId hfew) hstart
  have hwakers := (call.start_frame w.ring (.ok ())).1
  rw [hstart] at hwakers
  have hnone : started.OneWaker (call.submitted w.ring).state.id none := by
    intro j
    rw [ite_self, Ring.wakers, hwakers]
    exact lookup_wakers_of_run hrun hbyId j
  exact (FutureRun.oneWaker_of_run hlive hnone hmoves).1 id

/-- **The last task to poll the read is the one that waits**, until the read is done. -/
theorem IoCall.lookup_wakers_polledRead : ∃ moves s,
    Transition.Run FutureRun.Step readStarted moves s ∧ moves.map Move.label =
      [.poll 0 7 none .pending, .poll 1 9 none .pending, .complete 0 (.ok 8)] ∧
    s.ring.wakers.lookup 1 = some 9 := by
  obtain ⟨⟨moves, s⟩, htrace⟩ : ∃ x, Transition.trace FutureRun.step readStarted
      [.poll 0 7 none .pending, .poll 1 9 none .pending, .complete 0 (.ok 8)] = some x :=
    Option.isSome_iff_exists.mp (by decide)
  obtain ⟨hrun, hlabels⟩ := Transition.run_of_trace htrace
  have hstart : readCall.start World.new.ring (.ok ()) =
      (.ok (.new .read (readCall.submitted Ring.new)), readStarted.ring) := rfl
  have hnone : Run [] World.new := Transition.Run.nil _
  have hlookup := lookup_wakers hnone Transition.guarded_nil (by decide) hstart hrun 1
  have hwaiting : waitingFor moves = some 9 := by
    have hfold : waitingFor moves =
        (moves.map Move.label).foldl (fun waker l => FutureLabel.waits waker l) none :=
      List.foldl_map.symm
    rw [hfold, hlabels]
    rfl
  refine ⟨moves, s, hrun, hlabels, hlookup.trans ?_⟩
  rw [hwaiting]
  rfl

end Reachable

end SaferRing
