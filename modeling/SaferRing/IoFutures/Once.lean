import SaferRing.ById
import SaferRing.Polling
import SaferRing.IoFutures

/-!
# A future of a single operation resolves once

From the call that makes it on, a future has the ring to itself: it is polled, the kernel completes
operations – its own or one submitted before – and in the end it is dropped
(`SaferRing.FutureRun`). A poll that cannot look for the completion answers `Ready` too, with the
error of that, and leaves the operation with the future, which goes on to be polled. As long as it
is not done, its result is not lost (`SaferRing.FutureRun.Live`), whatever polls fail; once it is
done, its id means nothing any more (`SaferRing.FutureRun.Over`). `SaferRing.IoCall.resolves_once`
puts this together for every call that makes a future, on a ring that was used by who submits and
asks.
-/

namespace SaferRing

open Transition (Move)

/-! ### A future with its ring -/

/-- **A future and the ring it borrows**; the future is dropped at some time. -/
structure FutureRun where
  /-- The ring. -/
  ring : Ring
  /-- The future. -/
  future : Option IoFuture

/-- What can happen to them. -/
inductive FutureLabel
  /-- The future is polled, and answers. -/
  | poll (count : ℕ) (waker : Waker) (fail : Option SaferRingError)
    (answer : Poll (Except FutureError IoOutput))
  /-- The kernel completes the `i`-th of the operations it has. -/
  | complete (i : ℕ) (result : IoResult)
  /-- The future is dropped. -/
  | drop

namespace FutureLabel

/-- Whether it is a poll. -/
def isPoll : FutureLabel → Bool
  | poll .. => true
  | _ => false

/-- What the future is `Ready` with. -/
def output : FutureLabel → Option (Except FutureError IoOutput)
  | poll _ _ _ (.ready output) => some output
  | _ => none

/-- **The future is not resolved**: if it is `Ready`, then with the error of a completion that
could not be looked for. -/
def Unresolved (type : IoFutureType) (l : FutureLabel) : Prop :=
  ∀ output, l.output = some output → ∃ e, output = .error (.checking type.checked e)

theorem isPoll_of_output {l : FutureLabel} {output : Except FutureError IoOutput}
    (h : l.output = some output) : l.isPoll = true := by
  cases l with
  | poll => rfl
  | complete | drop => exact absurd h (by simp [FutureLabel.output])

end FutureLabel

namespace FutureRun

/-- **One step**: a poll that returns, a completion, or the end of the future. -/
def step (s : FutureRun) : FutureLabel → Option FutureRun
  | .poll count waker fail answer =>
    match s.future with
    | none => none
    | some future =>
      match future.poll s.ring count waker fail with
      | .returned (a, polled, ring) => if a = answer then some ⟨ring, some polled⟩ else none
      | _ => none
  | .complete i result =>
    (s.ring.backend.complete i result).map fun backend => { s with ring := { s.ring with backend } }
  | .drop => s.future.map fun future => ⟨future.drop s.ring, none⟩

/-- The steps, as a relation. -/
abbrev Step (s : FutureRun) (l : FutureLabel) (t : FutureRun) : Prop := s.step l = some t

section Steps

variable {s t : FutureRun}

/-- What a poll does. -/
theorem step_poll {count : ℕ} {waker : Waker} {fail : Option SaferRingError}
    {answer : Poll (Except FutureError IoOutput)} (h : Step s (.poll count waker fail answer) t) :
    ∃ future polled, s.future = some future ∧ t.future = some polled ∧
      future.poll s.ring count waker fail = .returned (answer, polled, t.ring) := by
  rcases hfuture : s.future with _ | future
  · simp [Step, step, hfuture] at h
  · simp only [Step, step, hfuture] at h
    split at h
    · rename_i a polled ring hpoll
      by_cases ha : a = answer
      · rw [if_pos ha] at h
        cases h
        exact ⟨future, polled, rfl, rfl, ha ▸ hpoll⟩
      · rw [if_neg ha] at h
        exact absurd h (by simp)
    · exact absurd h (by simp)

/-- What a completion does. -/
theorem step_complete {i : ℕ} {result : IoResult} (h : Step s (.complete i result) t) :
    ∃ b, s.ring.backend.complete i result = some b ∧
      t = { s with ring := { s.ring with backend := b } } := by
  obtain ⟨b, hb, rfl⟩ := Option.map_eq_some_iff.mp h
  exact ⟨b, hb, rfl⟩

/-- What the end of the future does. -/
theorem step_drop (h : Step s .drop t) :
    ∃ future, s.future = some future ∧ t = ⟨future.drop s.ring, none⟩ := by
  obtain ⟨future, hfuture, rfl⟩ := Option.map_eq_some_iff.mp h
  exact ⟨future, hfuture, rfl⟩

end Steps

end FutureRun

/-! ### A poll -/

namespace Ring

variable {s t : Ring} {id count : ℕ} {fail : Option SaferRingError}
  {a : Except SaferRingError (Option IoResult)}

/-- **Asking fails and changes nothing, or goes as if the backend did not fail.** -/
theorem tryCompleteById_fail_cases (h : s.tryCompleteById id count fail = .returned (a, t)) :
    (∃ e, fail = some e ∧ a = .error e ∧ t = s) ∨
      (∃ res, a = .ok res) ∧ s.tryCompleteById id count none = .returned (a, t) := by
  rcases tryCompleteById_cases h with ⟨res, hcached, rfl, rfl⟩ | ⟨e, hfail, -, rfl, rfl⟩ |
      ⟨rfl, -, rfl, -⟩
  · exact Or.inr ⟨⟨_, rfl⟩, tryCompleteById_of_cached hcached count none⟩
  · exact Or.inl ⟨e, hfail, rfl, rfl⟩
  · exact Or.inr ⟨⟨_, rfl⟩, h⟩

/-- The wakers are no part of the invariant. -/
theorem ById.withWakers (h : s.ById) (registry : WakerRegistry) :
    ById { s with wakerRegistry := registry } :=
  ⟨h.tracked, h.nodup, h.cached⟩

/-- **An operation was accepted**: the backend has it, or handed its completion over. -/
def Accepted (ring : Ring) (request : Request) : Prop :=
  request ∈ ring.backend.inFlight ∨ ∃ v, (request, v) ∈ ring.backend.delivered

/-- What was accepted stays so when completions are collected. -/
theorem Accepted.collects {request : Request} (h : s.Accepted request) (hcollects : s.Collects t) :
    t.Accepted request := by
  rcases hcollects.backend with hb | hb
  · rwa [Accepted, hb]
  rw [Accepted, hb, Backend.delivered_drained]
  rcases h with hflight | ⟨v, hv⟩
  · rw [Backend.mem_inFlight] at hflight
    rcases hflight with hpending | ⟨v, hv⟩
    · exact Or.inl (Backend.mem_inFlight.mpr (Or.inl hpending))
    · exact Or.inr ⟨v, List.mem_append_right _ hv⟩
  · exact Or.inr ⟨v, List.mem_append_left _ hv⟩

/-- **What was handed over under the id of an operation is its own completion.** -/
theorem ById.eq_of_delivered (h : s.ById) {request r : Request} {v : IoResult}
    (haccepted : s.Accepted request) (hr : (r, v) ∈ s.backend.delivered)
    (hid : r.userData = request.userData) : r = request := by
  have hdelivered := Backend.mem_deliveredIds.mpr ⟨r, v, hr, hid⟩
  rcases haccepted with hflight | ⟨v', hv'⟩
  · exact absurd hdelivered (List.disjoint_of_nodup_append h.nodup
      (List.mem_map_of_mem hflight))
  · have hnd : s.backend.deliveredIds.Nodup := (List.nodup_append.mp h.nodup).2.1
    have hsame := List.inj_on_of_nodup_map hnd hr hv' hid
    exact congrArg Prod.fst hsame

end Ring

/-! ### A future that is not done, and one that is -/

namespace IoFutureType

variable (op : Operation Submitted) (v : IoResult) (what : String) (e : SaferRingError)

theorem settleBytes_ne_checking {α : Type} (bytes : ℤ) (buffer : Option α)
    (output : ℕ → α → IoOutput) (missing : String) :
    settleBytes bytes buffer output missing ≠ .error (.checking what e) := by
  unfold settleBytes
  split
  · simp
  · cases buffer <;> simp

/-- A completion is no failure to look for one. -/
theorem settle_ne_checking (type : IoFutureType) :
    type.settle op v ≠ .error (.checking what e) := by
  cases v with
  | error =>
    cases type
    all_goals exact fun h => FutureError.noConfusion (Except.error.inj h)
  | ok bytes =>
    cases type with
    | accept =>
      unfold settle settleAccept
      by_cases h : 0 ≤ bytes <;> simp [h]
    | vectoredRead | vectoredWrite => exact settleBytes_ne_checking what e bytes _ _ _
    | read | write | send | recv => exact settleBytes_ne_checking what e bytes _ _ _

end IoFutureType

/-- **What a poll of a future that is not done comes to**: it resolves, or it waits, or the
completion cannot be looked for. -/
theorem IoFuture.poll_new_cases {type : IoFutureType} {op : Operation Submitted}
    {ring ring' : Ring} {count : ℕ} {waker : Waker} {fail : Option SaferRingError}
    {answer : Poll (Except FutureError IoOutput)} {polled : IoFuture}
    (h : (IoFuture.new type op).poll ring count waker fail = .returned (answer, polled, ring')) :
    ∃ a next, ring.tryCompleteById op.state.id count fail = .returned (a, next) ∧
      ((∃ v, a = .ok (some v) ∧ answer = .ready (type.settle op v) ∧ polled = ⟨type, none⟩ ∧
          ring' = next.removeWaker op.state.id) ∨
        (a = .ok none ∧ answer = .pending ∧ polled = .new type op ∧
          ring' = next.registerWaker op.state.id waker) ∨
        ∃ e, a = .error e ∧ answer = .ready (.error (.checking type.checked e)) ∧
          polled = .new type op ∧ ring' = next.removeWaker op.state.id) := by
  rcases hcall : ring.tryCompleteById op.state.id count fail with ⟨a, next⟩ | _ | _
  · simp only [poll, new, hcall, Outcome.map] at h
    refine ⟨a, next, rfl, ?_⟩
    rcases a with e | _ | v
    · cases h
      exact Or.inr (Or.inr ⟨e, rfl, rfl, rfl, rfl⟩)
    · cases h
      exact Or.inr (Or.inl ⟨rfl, rfl, rfl, rfl⟩)
    · cases h
      exact Or.inl ⟨v, rfl, rfl, rfl, rfl⟩
  · simp [poll, new, hcall, Outcome.map] at h
  · simp [poll, new, hcall, Outcome.map] at h

namespace FutureRun

variable {type : IoFutureType} {op : Operation Submitted} {s t : FutureRun} {l : FutureLabel}
  {j : ℕ}

/-- **The future is not done**, and its result is not lost. -/
structure Live (type : IoFutureType) (op : Operation Submitted) (s : FutureRun) : Prop where
  byId : s.ring.ById
  accepted : s.ring.Accepted (Ring.legacyRequest op)
  unreturned : s.ring.Unreturned op.state.id
  future : ∀ future, s.future = some future → future = .new type op

/-- **The future is done**, and its id means nothing any more. -/
structure Over (op : Operation Submitted) (s : FutureRun) : Prop where
  byId : s.ring.ById
  settled : s.ring.Settled op.state.id
  future : ∀ future, s.future = some future → future.operation = none

/-- A step of a future that is not done **resolves it with what was handed over for its
operation**. -/
def Resolves (type : IoFutureType) (op : Operation Submitted) (l : FutureLabel) (t : FutureRun) :
    Prop :=
  ∃ v, (Ring.legacyRequest op, v) ∈ t.ring.backend.delivered ∧
    l.output = some (type.settle op v)

/-- A poll of a future that is not done resolves it, or leaves it as it is. -/
theorem Live.poll (h : s.Live type op) {count : ℕ} {waker : Waker}
    {fail : Option SaferRingError} {answer : Poll (Except FutureError IoOutput)}
    (hstep : Step s (.poll count waker fail answer) t) :
    (t.Live type op ∧ (FutureLabel.poll count waker fail answer).Unresolved type ∨
      t.Over op ∧ Resolves type op (.poll count waker fail answer) t) ∧
    ∀ j ≠ op.state.id, s.ring.Unreturned j → t.ring.Unreturned j := by
  obtain ⟨future, polled, hfuture, hpolled, hpoll⟩ := step_poll hstep
  obtain rfl := h.future future hfuture
  obtain ⟨a, next, hcall, hwhat⟩ := IoFuture.poll_new_cases hpoll
  rcases Ring.tryCompleteById_fail_cases hcall with ⟨e, -, rfl, rfl⟩ | ⟨⟨res, rfl⟩, hcall⟩
  · -- the failure leaves the operation where it is
    rcases hwhat with ⟨_, ha, -⟩ | ⟨ha, -⟩ | ⟨e', -, rfl, rfl, hring⟩
    · exact absurd ha (by simp)
    · exact absurd ha (by simp)
    · refine ⟨Or.inl ⟨⟨?_, ?_, ?_, fun future hf => ?_⟩, fun _ hout => ?_⟩, fun _ _ hj => ?_⟩
      · exact hring ▸ h.byId.withWakers _
      · exact hring ▸ h.accepted
      · exact hring ▸ h.unreturned
      · exact (Option.some.inj (hpolled.symm.trans hf)).symm
      · exact ⟨e', (Option.some.inj hout).symm⟩
      · exact hring ▸ hj
  have hnext := h.byId.tryCompleteById hcall
  have hother : ∀ j ≠ op.state.id, s.ring.Unreturned j → next.Unreturned j := fun j hj hun =>
    hun.tryCompleteById h.byId hcall fun hsame => absurd hsame.symm hj
  have haccepted := h.accepted.collects (Ring.collects_tryCompleteById hcall)
  rcases hwhat with ⟨v, ha, rfl, rfl, hring⟩ | ⟨ha, rfl, rfl, hring⟩ | ⟨_, ha, -⟩
  · rw [ha] at hcall
    obtain ⟨⟨r, hr, hid⟩, hsettled⟩ := h.byId.returned hcall
    obtain rfl := hnext.eq_of_delivered haccepted hr
      (hid.trans (Ring.userData_legacyRequest op).symm)
    refine ⟨Or.inr ⟨⟨?_, ?_, fun future hf => ?_⟩, v, ?_, rfl⟩, fun j hj hun => ?_⟩
    · exact hring ▸ hnext.withWakers _
    · exact hring ▸ hsettled
    · exact (Option.some.inj (hpolled.symm.trans hf)) ▸ rfl
    · exact hring ▸ hr
    · exact hring ▸ hother j hj hun
  · rw [ha] at hcall
    have hunreturned : next.Unreturned op.state.id :=
      h.unreturned.tryCompleteById h.byId hcall fun _ v hv => absurd hv (by simp)
    refine ⟨Or.inl ⟨⟨?_, ?_, ?_, fun future hf => ?_⟩, fun _ hout => ?_⟩, fun j hj hun => ?_⟩
    · exact hring ▸ hnext.withWakers _
    · exact hring ▸ haccepted
    · exact hring ▸ hunreturned
    · exact (Option.some.inj (hpolled.symm.trans hf)).symm
    · exact absurd hout (by simp [FutureLabel.output])
    · exact hring ▸ hother j hj hun
  · exact absurd ha (by simp)

/-- **A step of a future that is not done resolves it, or leaves it as it is**; results of others
that are not returned stay so. -/
theorem Live.step (h : s.Live type op) (hstep : Step s l t) :
    (t.Live type op ∧ l.Unresolved type ∨ t.Over op ∧ Resolves type op l t) ∧
      ∀ j ≠ op.state.id, s.ring.Unreturned j → t.ring.Unreturned j := by
  cases l with
  | poll => exact h.poll hstep
  | complete i result =>
    obtain ⟨b, hb, rfl⟩ := step_complete hstep
    have hdelivered := Backend.complete_delivered hb
    refine ⟨Or.inl ⟨⟨h.byId.complete hb, ?_, h.unreturned.of_eq rfl hdelivered, h.future⟩,
      fun _ hout => absurd hout (by simp [FutureLabel.output])⟩,
      fun _ _ hj => hj.of_eq rfl hdelivered⟩
    rw [Ring.Accepted, (Backend.complete_perm hb).mem_iff, hdelivered]
    exact h.accepted
  | drop =>
    obtain ⟨future, hfuture, rfl⟩ := step_drop hstep
    obtain rfl := h.future future hfuture
    exact ⟨Or.inl ⟨⟨h.byId.withWakers _, h.accepted, h.unreturned, fun _ hf => absurd hf (by simp)⟩,
      fun _ hout => absurd hout (by simp [FutureLabel.output])⟩, fun _ _ hj => hj⟩

/-- A poll that does not resolve a future leaves it as it is. -/
theorem Live.future_eq (hs : s.Live type op) (ht : t.Live type op) (hstep : Step s l t)
    (hpoll : l.isPoll = true) : t.future = s.future := by
  cases l with
  | poll =>
    obtain ⟨future, polled, hfuture, hpolled, -⟩ := step_poll hstep
    rw [hfuture, hpolled, hs.future future hfuture, ht.future polled hpolled]
  | complete | drop => exact absurd hpoll (by simp [FutureLabel.isPoll])

/-- **A future that is done stays so**, and is polled no more. -/
theorem Over.step (h : s.Over op) (hstep : Step s l t) :
    t.Over op ∧ l.isPoll = false ∧ ∀ j, s.ring.Unreturned j → t.ring.Unreturned j := by
  cases l with
  | poll =>
    obtain ⟨future, _, hfuture, -, hpoll⟩ := step_poll hstep
    rw [IoFuture.poll, h.future future hfuture] at hpoll
    exact absurd hpoll (by simp)
  | complete i result =>
    obtain ⟨b, hb, rfl⟩ := step_complete hstep
    have hdelivered := Backend.complete_delivered hb
    exact ⟨⟨h.byId.complete hb, h.settled.of_eq rfl hdelivered, h.future⟩, rfl,
      fun _ hj => hj.of_eq rfl hdelivered⟩
  | drop =>
    obtain ⟨future, hfuture, rfl⟩ := step_drop hstep
    have hring : future.drop s.ring = s.ring := by
      rw [IoFuture.drop, h.future future hfuture]
    rw [hring]
    exact ⟨⟨h.byId, h.settled, fun _ hf => absurd hf (by simp)⟩, rfl, fun _ hj => hj⟩

/-- **The next poll of a future resolves it** once its completion is there, when looking for it
does not fail. -/
theorem Live.resolves (h : s.Live type op) {polled : IoFuture} (hfuture : s.future = some polled)
    {v : IoResult} (hv : (Ring.legacyRequest op, v) ∈ s.ring.backend.delivered ∨
      (Ring.legacyRequest op, v) ∈ s.ring.backend.ready) (count : ℕ) (waker : Waker) :
    ∃ ring, polled.poll s.ring count waker none =
      .returned (.ready (type.settle op v), ⟨type, none⟩, ring) := by
  obtain rfl := h.future polled hfuture
  have hid := Ring.userData_legacyRequest op
  have hunreturned : s.ring.Unreturned (Ring.legacyRequest op).userData := hid.symm ▸ h.unreturned
  obtain ⟨next, hcall⟩ := hunreturned.asked h.byId hv count
  rw [hid] at hcall
  refine ⟨next.removeWaker op.state.id, ?_⟩
  simp only [IoFuture.poll, IoFuture.new, hcall, Outcome.map]

section Runs

variable {ms : List (Move FutureRun FutureLabel)}

/-- A future is not done, or done. -/
theorem live_or_over (hrun : Transition.Run Step s ms t) (h : s.Live type op) :
    t.Live type op ∨ t.Over op := by
  refine hrun.preserves (fun s => s.Live type op ∨ s.Over op) (fun s l t hstep hs => ?_)
    (Or.inl h)
  rcases hs with hs | hs
  · exact (hs.step hstep).1.imp And.left And.left
  · exact Or.inr (hs.step hstep).1

/-- **As long as nothing resolved it, a future is not done.** -/
theorem live_of_run (hrun : Transition.Run Step s ms t) (h : s.Live type op)
    (hnone : ∀ m ∈ ms, m.label.Unresolved type) : t.Live type op := by
  let Inv : FutureRun → Prop := fun s => s.Live type op
  have hkeep : ∀ s l t, Step s l t → l.Unresolved type → Inv s → Inv t := by
    intro s l t hstep hnone hs
    rcases (hs.step hstep).1 with ⟨hlive, -⟩ | ⟨-, v, -, hv⟩
    · exact hlive
    · obtain ⟨e, he⟩ := hnone _ hv
      exact absurd he (type.settle_ne_checking op v type.checked e)
  exact hrun.invariant hkeep hnone h

/-- **Once it is done, a future is polled no more.** -/
theorem over_of_run (hrun : Transition.Run Step s ms t) (h : s.Over op) :
    ∀ m ∈ ms, m.label.isPoll = false := by
  intro m hm
  obtain ⟨_, _, -, hbefore, hstep, -⟩ := hrun.split hm
  have hover : m.before.Over op :=
    hbefore.preserves (fun s => s.Over op) (fun s l t hstep hs => (hs.step hstep).1) h
  exact (hover.step hstep).2.1

/-- What is not returned to others stays so. -/
theorem unreturned_of_run (hrun : Transition.Run Step s ms t) (h : s.Live type op)
    (hj : j ≠ op.state.id) (hun : s.ring.Unreturned j) : t.ring.Unreturned j := by
  let Inv : FutureRun → Prop := fun s => (s.Live type op ∨ s.Over op) ∧ s.ring.Unreturned j
  have hkeep : ∀ s l t, Step s l t → Inv s → Inv t := by
    rintro s l t hstep ⟨hs | hs, hun⟩
    · obtain ⟨hwhat, hother⟩ := hs.step hstep
      exact ⟨hwhat.imp And.left And.left, hother j hj hun⟩
    · obtain ⟨hover, -, hother⟩ := hs.step hstep
      exact ⟨Or.inr hover, hother j hun⟩
  exact (hrun.preserves Inv hkeep ⟨Or.inl h, hun⟩).2

end Runs

end FutureRun

/-! ### The calls -/

/-- **A call that makes a future submitted its operation**, under the next id. -/
theorem IoCall.live_of_start {call : IoCall} {ring started : Ring} {future : IoFuture}
    (h : ring.ById) (hnew : ring.operations.nextId ∉ ring.backend.acceptedIds)
    (hstart : call.start ring (.ok ()) = (.ok future, started)) :
    FutureRun.Live call.type (call.submitted ring) ⟨started, some future⟩ := by
  rw [start_eq] at hstart
  rcases hrefusal : call.refusal with _ | msg
  swap
  · rw [hrefusal] at hstart
    exact absurd (congrArg Prod.fst hstart) (by simp)
  rw [hrefusal] at hstart
  dsimp only at hstart
  rw [Ring.Futures.submitFor] at hstart
  have hbyId := h.submit call.operation hnew
  rcases ring.submit_cases call.operation (.ok ()) with
    ⟨_, -, hcall⟩ | ⟨_, hrefused, -⟩ | ⟨-, -, hcall⟩
  · rw [hcall] at hstart
    exact absurd (congrArg Prod.fst hstart) (by simp)
  · exact absurd hrefused (by simp)
  · rw [hcall] at hstart hbyId
    obtain ⟨hfuture, rfl⟩ := Prod.mk.inj hstart
    obtain rfl := Except.ok.inj hfuture
    refine ⟨hbyId, Or.inl ?_, fun r v hr hid => ?_, fun _ hf => (Option.some.inj hf).symm⟩
    · exact Backend.mem_inFlight_accepted.mpr (Or.inl rfl)
    · exact absurd (List.mem_append_right _ (Backend.mem_deliveredIds.mpr ⟨r, v, hr, hid⟩)) hnew

section Reachable

variable {ms : List (Move World Event)} {w : World}

/-- The next id was not used, while ids last. -/
theorem nextId_notMem_of_run (hrun : Run ms w) (hbyId : Transition.Guarded ByIdOnly ms)
    (hfew : Transition.spent submissionsOf ms + 1 < 2 ^ 64) :
    w.ring.operations.nextId ∉ w.ring.backend.acceptedIds := by
  let Inv : ℕ → World → Prop := fun n w => w.ring.Numbered n
  have hkeep : ∀ n w e w', Step w e w' → ByIdOnly w e → n + submissionsOf e < 2 ^ 64 →
      Inv n w → Inv (n + submissionsOf e) w' :=
    fun _ _ _ _ hstep hg hn h => Ring.Numbered.step h hstep hg hn
  have hnew : Inv 0 World.new := DrawnFrom.start fun id hid => absurd hid List.not_mem_nil
  have hend : Inv (Transition.spent submissionsOf ms) w :=
    hrun.counted hkeep hbyId ((Nat.le_succ _).trans_lt hfew) hnew
  exact DrawnFrom.fresh hend hfew

/-- **A future resolves once, and to its own result.** Take any call that makes a future, on a
ring that was used by who submits and asks, with fewer than 2^64 submissions in all. Along every
run of the future – whatever it is polled with, whichever polls fail, and whatever the kernel
completes when – what it is `Ready` with is the error of a completion that could not be looked for,
which leaves it as it is; or it is what its type makes of the result that was handed over for its
own operation, and then no later poll returns. As long as it did not resolve and its completion is
there, the next poll that does not fail resolves it; a count of bytes comes with the buffer, or the
buffers, the call was given; and no result of another operation is lost. -/
theorem IoCall.resolves_once (hrun : Run ms w) (hbyId : Transition.Guarded ByIdOnly ms)
    (hfew : Transition.spent submissionsOf ms + 1 < 2 ^ 64) {call : IoCall} {future : IoFuture}
    {started : Ring} (hstart : call.start w.ring (.ok ()) = (.ok future, started))
    {moves : List (Move FutureRun FutureLabel)} {s : FutureRun}
    (hmoves : Transition.Run FutureRun.Step ⟨started, some future⟩ moves s) :
    (∀ before m after output, moves = before ++ m :: after → m.label.output = some output →
      ((∃ e, output = .error (.checking call.type.checked e)) ∧ m.after.future = m.before.future) ∨
        (∃ v, (Ring.legacyRequest (call.submitted w.ring), v) ∈ m.after.ring.backend.delivered ∧
          output = call.type.settle (call.submitted w.ring) v) ∧
        ∀ m' ∈ after, m'.label.isPoll = false) ∧
    ((∀ m ∈ moves, m.label.Unresolved call.type) → ∀ polled, s.future = some polled → ∀ v,
      (Ring.legacyRequest (call.submitted w.ring), v) ∈ s.ring.backend.delivered ∨
        (Ring.legacyRequest (call.submitted w.ring), v) ∈ s.ring.backend.ready →
      ∀ count waker, ∃ ring, polled.poll s.ring count waker none =
        .returned (.ready (call.type.settle (call.submitted w.ring) v), ⟨call.type, none⟩, ring)) ∧
    (∀ n : ℕ, call.type.settle (call.submitted w.ring) (.ok n) = call.given n) ∧
    ∀ j ≠ w.ring.operations.nextId, w.ring.Unreturned j → s.ring.Unreturned j := by
  have hring := byId_of_run hrun (hbyId.and (drawsNew_of_run hrun hbyId (by omega)))
  have hlive := call.live_of_start hring (nextId_notMem_of_run hrun hbyId hfew) hstart
  refine ⟨?_, fun hnone polled hpolled v hv => ?_, call.settle_submitted w.ring, fun j hj hun => ?_⟩
  · rintro before m after output rfl hm
    have hpoll := FutureLabel.isPoll_of_output hm
    obtain ⟨hfirst, hstep, hrest⟩ := hmoves.split_at
    rcases FutureRun.live_or_over hfirst hlive with hbefore | hbefore
    · rcases (hbefore.step hstep).1 with ⟨hafter, hnone⟩ | ⟨hover, v, hv, hresolved⟩
      · exact Or.inl ⟨hnone output hm, hbefore.future_eq hafter hstep hpoll⟩
      · obtain rfl := Option.some.inj (hm.symm.trans hresolved)
        exact Or.inr ⟨⟨v, hv, rfl⟩, FutureRun.over_of_run hrest hover⟩
    · exact absurd (hpoll.symm.trans (hbefore.step hstep).2.1) (by simp)
  · exact (FutureRun.live_of_run hmoves hlive hnone).resolves hpolled hv
  · have hframe := call.start_frame w.ring (.ok ())
    rw [hstart] at hframe
    exact FutureRun.unreturned_of_run hmoves hlive hj (hun.of_eq hframe.2.1 hframe.2.2)

end Reachable

/-- A read of 8 bytes. -/
def readCall : IoCall := .read 3 ⟨4096, 8⟩

/-- The future of the read, and its ring. -/
def readStarted : FutureRun :=
  ⟨(readCall.start Ring.new (.ok ())).2, some (.new .read (readCall.submitted Ring.new))⟩

/-- The read is polled, cannot be looked for, completes, is polled once more and dropped. -/
def polledRead : List FutureLabel :=
  [.poll 0 7 none .pending,
    .poll 1 7 (some Ring.interrupted)
      (.ready (.error (.checking "operation" Ring.interrupted))),
    .complete 0 (.ok 8), .poll 2 7 none (.ready (.ok (.transferred 8 ⟨4096, 8⟩))), .drop]

/-- **The read gives back its buffer with the bytes read**, once, after a poll that fails. -/
theorem IoCall.resolves_once_polledRead : ∃ moves s,
    Transition.Run FutureRun.Step readStarted moves s ∧ moves.map Move.label = polledRead ∧
      ∃ before m after, moves = before ++ m :: after ∧
        m.label.output = some (.ok (.transferred 8 ⟨4096, 8⟩)) ∧
        ∀ m' ∈ after, m'.label.isPoll = false := by
  obtain ⟨⟨moves, s⟩, htrace⟩ :
      ∃ x, Transition.trace FutureRun.step readStarted polledRead = some x :=
    Option.isSome_iff_exists.mp (by decide)
  obtain ⟨hrun, hlabels⟩ := Transition.run_of_trace htrace
  have hlabel : (moves.map Move.label)[3]? =
      some (.poll 2 7 none (.ready (.ok (.transferred 8 ⟨4096, 8⟩)))) := by
    rw [hlabels]
    rfl
  rw [List.getElem?_map] at hlabel
  obtain ⟨m, hm, hlabel⟩ := Option.map_eq_some_iff.mp hlabel
  have houtput : m.label.output = some (.ok (.transferred 8 ⟨4096, 8⟩)) := by
    rw [hlabel]
    rfl
  obtain ⟨before, after, hmoves⟩ := List.append_of_mem (List.mem_of_getElem? hm)
  have hstart : readCall.start World.new.ring (.ok ()) =
      (.ok (.new .read (readCall.submitted Ring.new)), readStarted.ring) := rfl
  have hnone : Run [] World.new := Transition.Run.nil _
  obtain ⟨honce, -⟩ := resolves_once hnone Transition.guarded_nil (by decide) hstart hrun
  refine ⟨moves, s, hrun, hlabels, before, m, after, hmoves, houtput, ?_⟩
  rcases honce before m after _ hmoves houtput with ⟨⟨_, he⟩, -⟩ | ⟨-, hpolled⟩
  · exact absurd he (by simp)
  · exact hpolled

end SaferRing
