import SaferRing.Library.Mailbox
import SaferRing.World

/-!
# The owned interface is a mailbox

What the owned interface promises is about ids: which are in flight, whose completion
was put in the cache, which are orphans, and which a live future waits for.
`SaferRing.World.mailbox` forgets everything else about a world, and
`SaferRing.mailbox_step` is the simulation: a step of a world that uses the owned
interface only is a step of its mailbox, whose effect says what the step was
(`SaferRing.Reads`), and it keeps what the next step needs (`SaferRing.Sound.step`).

The simulation needs that no two operations in flight share an id. That, and all else
that has to hold along a run, follows from the ids drawn being unused
(`SaferRing.DrawsUnused`), and that in turn from fewer than 2^64 submissions
(`SaferRing.Numbered.drawsUnused`).
-/

namespace SaferRing

open Mailbox (Effect)

/-! ### The mailbox of a world -/

/-- What the mailbox keeps of an operation in flight: its id and whose it is. -/
def Request.entry (r : Request) : ℕ × Caller := (r.userData, r.caller)

/-- What the mailbox keeps of a completion. -/
def Completion.entry (c : Completion) : (ℕ × Caller) × IoResult := (c.1.entry, c.2)

/-- What a future that holds an operation waits for. -/
def waitsFor (op : SafeOperation) : Option (ℕ × Caller) :=
  if op.completed then none else op.buffer.map fun b => (op.submissionId, .owned b.inner)

/-- **The mailbox of a world.** -/
def World.mailbox (w : World) : Mailbox.State ℕ Caller IoResult where
  pending := w.ring.backend.pending.map Request.entry
  ready := w.ring.backend.ready.map Completion.entry
  delivered := w.delivered.map Completion.entry
  kept := w.ring.cached
  orphan := fun id => (w.ring.orphan id).map fun b => .owned b.inner
  live := fun f => (operationAt w.futures f).bind waitsFor

/-- Every operation a future holds has its buffer. -/
def Buffered (w : World) : Prop :=
  ∀ f op, operationAt w.futures f = some op → ∃ b, op.buffer = some b

section Mailbox

variable {w w' : World} {f : ℕ} {op : SafeOperation} {b : OwnedBuffer}

/-- What a live operation waits for. -/
theorem waitsFor_live (hc : op.completed = false) (hb : op.buffer = some b) :
    waitsFor op = some (op.submissionId, .owned b.inner) := by
  simp [waitsFor, hc, hb]

theorem waitsFor_completed (hc : op.completed = true) : waitsFor op = none := by
  simp [waitsFor, hc]

/-- A live future is a waiter of the mailbox. -/
theorem mailbox_live (hl : w.Live f op) (hb : op.buffer = some b) :
    w.mailbox.live f = some (op.submissionId, .owned b.inner) := by
  simp [World.mailbox, hl.1, waitsFor_live hl.2 hb]

/-- A waiter of the mailbox is a live future. -/
theorem live_of_mailbox {x : ℕ × Caller} (h : w.mailbox.live f = some x) :
    ∃ op b, w.Live f op ∧ op.buffer = some b ∧ x = (op.submissionId, .owned b.inner) := by
  obtain ⟨op, hop, hx⟩ := Option.bind_eq_some_iff.mp h
  rcases hc : op.completed with _ | _
  · simp only [waitsFor, hc] at hx
    obtain ⟨b, hb, rfl⟩ := Option.map_eq_some_iff.mp hx
    exact ⟨op, b, ⟨hop, hc⟩, hb, rfl⟩
  · rw [waitsFor_completed hc] at hx
    exact absurd hx (by simp)

theorem mailbox_inFlight : w.mailbox.inFlight = w.inFlight.map Request.entry := by
  simp [Mailbox.State.inFlight, World.mailbox, Backend.inFlight, Completion.entry,
    Function.comp_def]

/-- The ids in flight are those of the mailbox. -/
theorem mailbox_ids : w.mailbox.ids = w.inFlightIds := by
  rw [Mailbox.State.ids, mailbox_inFlight, List.map_map]
  rfl

theorem mailbox_readyIds : w.mailbox.readyIds = w.ring.backend.waiting.map Prod.fst := by
  simp [Mailbox.State.readyIds, World.mailbox, Backend.waiting, Completion.entry, Request.entry,
    Function.comp_def]

theorem mailbox_orphan (w : World) (id : ℕ) :
    w.mailbox.orphan id = (w.ring.orphan id).map fun b => .owned b.inner := rfl

theorem mailbox_orphan_isSome {id : ℕ} :
    (w.mailbox.orphan id).isSome = (w.ring.orphan id).isSome := by
  simp [World.mailbox]

theorem mailbox_orphan_eq_none {id : ℕ} : w.mailbox.orphan id = none ↔ w.ring.orphan id = none := by
  simp [World.mailbox]

/-- What is waiting in the backend is what the mailbox has to collect. -/
theorem mem_mailbox_ready {id : ℕ} {c : Caller} {res : IoResult} :
    ((id, c), res) ∈ w.mailbox.ready ↔
      ∃ r, (r, res) ∈ w.ring.backend.ready ∧ r.userData = id ∧ r.caller = c := by
  simp only [World.mailbox, List.mem_map, Completion.entry, Request.entry, Prod.mk.injEq,
    Prod.exists]
  constructor
  · rintro ⟨r, _, hr, ⟨rfl, rfl⟩, rfl⟩
    exact ⟨r, hr, rfl, rfl⟩
  · rintro ⟨r, hr, rfl, rfl⟩
    exact ⟨r, res, hr, ⟨rfl, rfl⟩, rfl⟩

theorem mem_waiting_of_mailbox {c : (ℕ × Caller) × IoResult} (h : c ∈ w.mailbox.ready) :
    (c.1.1, c.2) ∈ w.ring.backend.waiting := by
  obtain ⟨r, hr, hid, -⟩ := mem_mailbox_ready.mp h
  exact Backend.mem_waiting.mpr ⟨r, hr, hid⟩

end Mailbox

/-! ### What a step is seen to do -/

/-- The actions of the owned interface, with those on buffers and the kernel's. -/
def Action.IsOwned : Action → Prop
  | .newBuffer .. | .fromSlice .. | .cloneHandle .. | .dropHandle .. | .tryAccess ..
  | .dropGuard .. | .owned .. | .acceptSafe .. | .pollFuture .. | .dropFuture ..
  | .complete .. => True
  | _ => False

/-- The actions that draw a submission id. -/
def Action.DrawsOwned : Action → Prop
  | .owned .. | .acceptSafe .. => True
  | _ => False

instance : DecidablePred Action.DrawsOwned := fun a =>
  match a with
  | .owned .. | .acceptSafe .. => inferInstanceAs (Decidable True)
  | .newBuffer .. | .fromSlice .. | .cloneHandle .. | .dropHandle .. | .tryAccess ..
  | .dropGuard .. | .pollFuture .. | .dropFuture .. | .complete .. | .submit ..
  | .submitBatch .. | .pollBatch .. | .dropBatch .. | .tryComplete .. | .waitForCompletion ..
  | .tryCompleteById .. | .pollOperationCompletion .. | .processCompletions =>
    inferInstanceAs (Decidable False)

/-- An answer with which a future at a place answers its poll. -/
def AnswersWith (w : World) (f : ℕ) (answer : Poll SafeOutput) (response : Response) : Prop :=
  ∃ future, w.futures[f]? = some (some future) ∧ response = future.response answer

/-- **An effect of the mailbox, read as an event of the world.** -/
def Reads (w : World) (e : Event) : Effect ℕ IoResult → Prop
  | .quiet => ∀ f waker fail op, e.action = .pollFuture f waker fail → w.Live f op →
      AnswersWith w f .pending e.response
  | .accept id => e.action.DrawsOwned ∧ id = w.ring.nextSubmissionId
  | .strand id => (∃ fd addr err, e.action = .acceptSafe fd addr (.error err)) ∧
      id = w.ring.nextSubmissionId
  | .complete => ∃ i result, e.action = .complete i result
  | .resolve f v => ∃ waker fail op b, e.action = .pollFuture f waker fail ∧ w.Live f op ∧
      op.buffer = some b ∧ AnswersWith w f (.ready (settle v b)) e.response
  | .giveUp f => ∃ waker err, e.action = .pollFuture f waker (some err) ∧
      AnswersWith w f (.ready (.error err)) e.response
  | .leave f => e.action = .dropFuture f
  | .discard => e.action = .processCompletions

/-! ### How the parts of a mailbox change -/

section Parts

variable {w w' : World} {f : ℕ} {future : OwnedFuture}

/-- The waiters once a future is replaced. -/
theorem live_set (h : w.futures[f]? = some (some future)) (slot : Option OwnedFuture) :
    (fun g => (operationAt (w.futures.set f slot) g).bind waitsFor) =
      Function.update w.mailbox.live f ((slot.bind OwnedFuture.operation).bind waitsFor) := by
  funext g
  rw [operationAt_set h]
  by_cases hg : g = f
  · rw [if_pos hg, hg, Function.update_self]
  · rw [if_neg hg, Function.update_of_ne hg]
    rfl

/-- The waiters once a future is made. -/
theorem live_append (slot : Option OwnedFuture) :
    (fun g => (operationAt (w.futures ++ [slot]) g).bind waitsFor) =
      Function.update w.mailbox.live w.futures.length
        ((slot.bind OwnedFuture.operation).bind waitsFor) := by
  funext g
  rw [operationAt_append]
  by_cases hg : g = w.futures.length
  · rw [if_pos hg, hg, Function.update_self]
  · rw [if_neg hg, Function.update_of_ne hg]
    rfl

/-- Nobody waits at a place that was not used yet. -/
theorem live_length : w.mailbox.live w.futures.length = none := by
  simp [World.mailbox, operationAt]

/-- What is kept once a cached result is taken. -/
theorem cached_erase (ring : Ring) (id : ℕ) :
    (fun j => (ring.completionCache.erase id).lookup j) = Function.update ring.cached id none := by
  funext j
  by_cases hj : j = id
  · rw [hj, Function.update_self]
    exact AList.lookup_erase ..
  · rw [Function.update_of_ne hj]
    exact AList.lookup_erase_ne hj

/-- The orphans once a live operation is dropped. -/
theorem orphan_dropOperation (ring : Ring) {op : SafeOperation} {b : OwnedBuffer}
    (hc : op.completed = false) (hb : op.buffer = some b) :
    (fun id => ((ring.dropOperation op).orphan id).map fun b => Caller.owned b.inner) =
      Function.update (fun id => (ring.orphan id).map fun b => Caller.owned b.inner)
        op.submissionId (some (.owned b.inner)) := by
  have hdrop : op.drop ring.orphanTracker =
      ring.orphanTracker.registerOrphan op.submissionId b := by
    rw [SafeOperation.drop, hc, hb]
    rfl
  funext id
  rw [Ring.orphan, Ring.dropOperation, hdrop]
  by_cases hid : id = op.submissionId
  · rw [hid, Function.update_self, OrphanTracker.orphan_registerOrphan_self]
    rfl
  · rw [Function.update_of_ne hid, OrphanTracker.orphan_registerOrphan_of_ne hid]

/-- The ids of the completions waiting are different when those in flight are. -/
theorem waitingKeys_nodup (hnd : w.inFlightIds.Nodup) :
    (w.ring.backend.waiting.map Prod.fst).Nodup := by
  rw [World.inFlightIds, Backend.inFlightIds_eq] at hnd
  exact (List.nodup_append.mp hnd).2.1

/-- **Draining a backend is collecting**, when no two operations in flight share an
id. -/
theorem collected_drainFor (hnd : w.inFlightIds.Nodup) {id : ℕ}
    (hbackend : w'.ring.backend = (w.ring.drainFor id).2.backend)
    (hcache : w'.ring.completionCache = (w.ring.drainFor id).2.completionCache)
    (horphan : w'.ring.orphanTracker = (w.ring.drainFor id).2.orphanTracker) :
    Mailbox.Collected copyResult id w.mailbox w'.mailbox := by
  have hdrained : w'.ring.backend = w.ring.backend.drained := hbackend.trans Ring.route_frame.1
  have hcached : ∀ j, w'.ring.cached j = (w.ring.drainFor id).2.cached j := fun j => by
    rw [Ring.cached, hcache]
  have hkeys := waitingKeys_nodup hnd
  refine ⟨?_, ?_, ?_, fun j => ?_, fun j hj => ?_, fun c hc hne => ?_⟩
  · simp [World.mailbox, hdrained, Backend.drained]
  · simp [World.mailbox, hdrained, Backend.drained]
  · simp [World.mailbox, World.delivered, hdrained, Backend.drained]
  · have ho : w'.ring.orphan j = (w.ring.drainFor id).2.orphan j := by rw [Ring.orphan, horphan]
    rw [mailbox_orphan, ho, Ring.drainFor, Ring.orphan_route, mailbox_readyIds]
    by_cases hj : j ∈ w.ring.backend.waiting.map Prod.fst
    · rw [if_pos hj, if_pos hj, Option.map_none]
    · rw [if_neg hj, if_neg hj]
      rfl
  · rw [mailbox_readyIds] at hj
    exact (hcached j).trans (Ring.cached_route_of_notMem hj)
  · have hcache : w'.ring.cached c.1.1 = _ :=
      (hcached c.1.1).trans (Ring.cached_route hkeys hne (mem_waiting_of_mailbox hc))
    rw [mailbox_orphan_isSome]
    exact hcache

end Parts

/-! ### The steps -/

section Steps

variable {w w' : World} {r : Response}

/-- A step that changes nothing the mailbox keeps. -/
theorem quiet_of_eq {e : Event} (h : w'.mailbox = w.mailbox)
    (he : ∀ f waker fail, e.action ≠ .pollFuture f waker fail) :
    ∃ x, Mailbox.Step copyResult w.mailbox x w'.mailbox ∧ Reads w e x :=
  ⟨.quiet, h ▸ .quiet _, fun f waker fail _ ha => absurd ha (he f waker fail)⟩

/-- An owned submission. -/
theorem mailbox_owned {call : OwnedCall} {h : ℕ} {answer : Except SaferRingError Unit}
    (hstep : Step w ⟨.owned call h answer, r⟩ w') :
    ∃ x, Mailbox.Step copyResult w.mailbox x w'.mailbox ∧ Reads w ⟨.owned call h answer, r⟩ x := by
  obtain ⟨buffer, -, ⟨-, -, rfl⟩ | ⟨-, rfl⟩⟩ := hstep.owned
  · refine ⟨.accept w.ring.nextSubmissionId, ?_, trivial, rfl⟩
    have hnew : Mailbox.Step copyResult w.mailbox _ _ :=
      .accept w.ring.nextSubmissionId (.owned buffer.inner) live_length
    refine hnew.of_eq (Mailbox.State.ext ?_ rfl rfl rfl rfl (live_append _))
    simp [World.mailbox, Ring.accepted, Ring.drawn, Backend.accepted, Request.entry]
  · refine quiet_of_eq (Mailbox.State.ext rfl rfl rfl rfl rfl ?_) (by simp)
    refine (live_append _).trans ?_
    rw [Option.bind_some, OwnedFuture.operation, Option.bind_some,
      waitsFor_completed rfl, ← live_length, Function.update_eq_self]

/-- `accept_safe` is refused: an orphan is made of nothing. -/
theorem mailbox_refused {fd : ℤ} {addr : ℕ} {err : SaferRingError}
    (hstep : Step w ⟨.acceptSafe fd addr (.error err), r⟩ w') :
    Mailbox.Step copyResult w.mailbox (.strand w.ring.nextSubmissionId) w'.mailbox := by
  obtain ⟨h, -⟩ | ⟨e, -, rfl⟩ := hstep.acceptSafe
  · exact absurd h (by simp)
  have hnew : Mailbox.Step copyResult w.mailbox _ _ :=
    .strand w.ring.nextSubmissionId (.owned w.heap.next)
  have hnot : (SafeOperation.new (acceptBuffer w.heap) w.ring.nextSubmissionId).completed =
      false := rfl
  refine hnew.of_eq (Mailbox.State.ext rfl rfl rfl rfl ?_ ?_)
  · exact orphan_dropOperation w.ring.drawn hnot rfl
  · refine (live_append _).trans ?_
    rw [Option.bind_some, OwnedFuture.operation, Option.bind_none, ← live_length,
      Function.update_eq_self]

/-- The submission of `accept_safe`. -/
theorem mailbox_acceptSafe {fd : ℤ} {addr : ℕ} {answer : Except SaferRingError Unit}
    (hstep : Step w ⟨.acceptSafe fd addr answer, r⟩ w') :
    ∃ x, Mailbox.Step copyResult w.mailbox x w'.mailbox ∧
      Reads w ⟨.acceptSafe fd addr answer, r⟩ x := by
  rcases hstep.acceptSafe with ⟨-, rfl⟩ | ⟨e, rfl, -⟩
  · refine ⟨.accept w.ring.nextSubmissionId, ?_, trivial, rfl⟩
    have hnew : Mailbox.Step copyResult w.mailbox _ _ :=
      .accept w.ring.nextSubmissionId (.owned w.heap.next) live_length
    refine hnew.of_eq (Mailbox.State.ext ?_ rfl rfl rfl rfl (live_append _))
    simp [World.mailbox, Ring.accepted, Ring.drawn, Backend.accepted, Request.entry, acceptRequest]
  · exact ⟨.strand w.ring.nextSubmissionId, mailbox_refused hstep, ⟨fd, addr, e, rfl⟩, rfl⟩

/-- Dropping a future that waits. -/
theorem mailbox_leave {f : ℕ} {op : SafeOperation} {b : OwnedBuffer} (hl : w.Live f op)
    (hb : op.buffer = some b) (hstep : Step w ⟨.dropFuture f, r⟩ w') :
    Mailbox.Step copyResult w.mailbox (.leave f) w'.mailbox := by
  obtain ⟨future, hf, rfl⟩ := hstep.dropFuture
  have hop : future.operation = some op := (operationAt_eq hf).symm.trans hl.1
  have hdrop : future.drop w.ring = w.ring.dropOperation op := by rw [OwnedFuture.drop, hop]
  have hleave : Mailbox.Step copyResult w.mailbox _ _ := .leave (mailbox_live hl hb)
  rw [hdrop]
  exact hleave.of_eq (Mailbox.State.ext rfl rfl rfl rfl (orphan_dropOperation w.ring hl.2 hb)
    (live_set hf _))

/-- Dropping a future. -/
theorem mailbox_dropFuture (hbuf : Buffered w) {f : ℕ} (hstep : Step w ⟨.dropFuture f, r⟩ w') :
    ∃ x, Mailbox.Step copyResult w.mailbox x w'.mailbox ∧ Reads w ⟨.dropFuture f, r⟩ x := by
  by_cases hlive : ∃ op, w.Live f op
  · obtain ⟨op, hl⟩ := hlive
    obtain ⟨b, hb⟩ := hbuf f op hl.1
    exact ⟨.leave f, mailbox_leave hl hb hstep, rfl⟩
  obtain ⟨future, hf, rfl⟩ := hstep.dropFuture
  have hat : operationAt w.futures f = future.operation := operationAt_eq hf
  have hgone : future.drop w.ring = w.ring ∧ (future.operation.bind waitsFor) = none := by
    rcases hop : future.operation with _ | op
    · exact ⟨by rw [OwnedFuture.drop, hop], rfl⟩
    · have hc : op.completed = true := by
        by_contra hc
        exact hlive ⟨op, hat.trans hop, Bool.eq_false_of_not_eq_true hc⟩
      refine ⟨?_, waitsFor_completed hc⟩
      rw [OwnedFuture.drop, hop]
      dsimp only
      rw [Ring.dropOperation, SafeOperation.drop_completed hc]
  rw [hgone.1]
  refine quiet_of_eq (Mailbox.State.ext rfl rfl rfl rfl rfl ?_) (by simp)
  refine (live_set hf _).trans (Function.update_eq_self_iff.mpr ?_)
  simp [World.mailbox, hat, hgone.2]

/-- Polling a future that is not live touches nothing. -/
theorem poll_of_not_live {future polled : OwnedFuture} {ring ring' : Ring} {waker : Waker}
    {fail : Option SaferRingError} {answer : Poll SafeOutput}
    (hdone : ∀ op, future.operation = some op → op.completed = true ∧ ∃ b, op.buffer = some b)
    (hpoll : future.poll ring waker fail = some (answer, polled, ring')) :
    ring' = ring ∧ polled.operation = none := by
  rcases hop : future.operation with _ | op
  · cases future with
    | safe future =>
      have hnone : future.operation = none := hop
      simp only [OwnedFuture.poll, SafeOperationFuture.poll, hnone, pollOperation] at hpoll
      cases hpoll
      exact ⟨rfl, rfl⟩
    | accept future =>
      have hnone : future.operation = none := hop
      simp [OwnedFuture.poll, hnone] at hpoll
  · obtain ⟨hc, b, hb⟩ := hdone op hop
    rw [OwnedFuture.poll_eq hop] at hpoll
    simp only [pollOperation, hc, hb, Bool.and_self, Option.isSome_some, if_true] at hpoll
    cases hpoll
    exact ⟨rfl, OwnedFuture.operation_withOperation ..⟩

/-- **Polling a future.** -/
theorem mailbox_pollFuture (hnd : w.inFlightIds.Nodup) (hbuf : Buffered w) {f : ℕ}
    {waker : Waker} {fail : Option SaferRingError}
    (hstep : Step w ⟨.pollFuture f waker fail, r⟩ w') :
    ∃ x, Mailbox.Step copyResult w.mailbox x w'.mailbox ∧
      Reads w ⟨.pollFuture f waker fail, r⟩ x := by
  obtain ⟨future, answer, polled, ring, hf, hpoll, rfl, rfl⟩ := hstep.pollFuture
  have hat : operationAt w.futures f = future.operation := operationAt_eq hf
  have hkeys := waitingKeys_nodup hnd
  by_cases hlive : ∃ op, w.Live f op
  · obtain ⟨op, hl⟩ := hlive
    obtain ⟨b, hb⟩ := hbuf f op hl.1
    have hop : future.operation = some op := hat.symm.trans hl.1
    have hbox := mailbox_live hl hb
    rw [OwnedFuture.poll_eq hop] at hpoll
    rcases pollOperation_cases future.texts hl.2 hb w.ring waker fail with
      ⟨v, hv, h⟩ | ⟨e, hv, rfl, h⟩ | ⟨hv, rfl, ⟨v, ht, h⟩ | ⟨ht, h⟩⟩
    -- its result is in the cache
    · rw [h] at hpoll
      cases hpoll
      refine ⟨.resolve f (copyResult v), ?_, ⟨waker, fail, op, b, rfl, hl, hb, future, hf, rfl⟩⟩
      have htake : Mailbox.Step copyResult w.mailbox _ _ := .take hbox hv
      refine htake.of_eq (Mailbox.State.ext rfl rfl rfl (cached_erase w.ring _) rfl ?_)
      exact (live_set hf _).trans (by simp)
    -- the backend fails, and the future gives up
    · rw [h] at hpoll
      cases hpoll
      refine ⟨.giveUp f, ?_, ⟨waker, e, rfl, future, hf, rfl⟩⟩
      have hgive : Mailbox.Step copyResult w.mailbox _ _ := .giveUp hbox hv
      refine hgive.of_eq (Mailbox.State.ext rfl rfl rfl rfl ?_ ?_)
      · exact orphan_dropOperation (w.ring.removeWaker op.submissionId) hl.2 hb
      · exact (live_set hf _).trans (by simp [Mailbox.State.departed])
    -- its completion is among those it collects
    · rw [h] at hpoll
      cases hpoll
      obtain ⟨ho, res, hres, rfl⟩ := Ring.drainFor_eq_some hkeys ht
      obtain ⟨q, hq, hid⟩ := Backend.mem_waiting.mp hres
      have hready : ((op.submissionId, q.caller), res) ∈ w.mailbox.ready :=
        mem_mailbox_ready.mpr ⟨q, hq, hid, rfl⟩
      refine ⟨.resolve f (copyResult res), ?_,
        ⟨waker, none, op, b, rfl, hl, hb, future, hf, rfl⟩⟩
      refine .find hbox hv (collected_drainFor hnd rfl rfl rfl) hready rfl
        (mailbox_orphan_eq_none.mpr ho) ?_
      exact (live_set hf _).trans (by simp)
    -- it collects the completions of others, and goes on waiting
    · rw [h] at hpoll
      cases hpoll
      refine ⟨.quiet, ?_, fun f' waker' fail' op' ha hl' => ?_⟩
      · refine .miss hbox hv (collected_drainFor hnd rfl rfl rfl) ?_ ?_
        · rw [mailbox_readyIds, mailbox_orphan_isSome]
          exact Ring.drainFor_eq_none hkeys ht
        · refine (live_set hf _).trans (Function.update_eq_self_iff.mpr ?_)
          simp [World.mailbox, hat, hop]
      · cases ha
        exact ⟨future, hf, rfl⟩
  -- nobody waits at this place: the operation is gone, or was never submitted
  · have hdone : ∀ op, future.operation = some op →
        op.completed = true ∧ ∃ b, op.buffer = some b := by
      intro op hop
      refine ⟨?_, hbuf f op (hat.trans hop)⟩
      by_contra hc
      exact hlive ⟨op, hat.trans hop, Bool.eq_false_of_not_eq_true hc⟩
    obtain ⟨rfl, hnone⟩ := poll_of_not_live hdone hpoll
    refine ⟨.quiet, ?_, fun f' waker' fail' op' ha hl' => ?_⟩
    · refine (Mailbox.Step.quiet _).of_eq (Mailbox.State.ext rfl rfl rfl rfl rfl ?_)
      refine (live_set hf _).trans (Function.update_eq_self_iff.mpr ?_)
      rcases hop : future.operation with _ | op
      · simp [World.mailbox, hat, hop, hnone]
      · simp [World.mailbox, hat, hop, hnone, waitsFor_completed (hdone op hop).1]
    · cases ha
      exact absurd ⟨op', hl'⟩ hlive

/-- The kernel completes an operation. -/
theorem mailbox_complete {i : ℕ} {result : IoResult}
    (hstep : Step w ⟨.complete i result, r⟩ w') :
    ∃ x, Mailbox.Step copyResult w.mailbox x w'.mailbox ∧ Reads w ⟨.complete i result, r⟩ x := by
  obtain ⟨backend, hb, rfl⟩ := hstep.complete
  refine ⟨.complete, .complete ?_ (fun c hc => ?_) ?_, i, result, rfl⟩
  · rw [mailbox_inFlight, mailbox_inFlight]
    exact (Backend.complete_perm hb).map _
  · obtain ⟨d, hd, rfl⟩ := List.mem_map.mp hc
    exact List.mem_map_of_mem (Backend.ready_subset_complete hb hd)
  · simp [World.mailbox, World.delivered, Backend.complete_delivered hb]

/-- The call that discards every orphan. -/
theorem mailbox_processCompletions
    (hstep : Step w ⟨.processCompletions, r⟩ w') :
    ∃ x, Mailbox.Step copyResult w.mailbox x w'.mailbox ∧ Reads w ⟨.processCompletions, r⟩ x := by
  obtain ⟨rfl, rfl⟩ := Prod.mk.inj (Option.some.inj hstep)
  have hdiscard : Mailbox.Step copyResult w.mailbox _ _ := .discard
  exact ⟨.discard, hdiscard.of_eq rfl, rfl⟩

/-- **The simulation**: a step of the owned interface is a step of the mailbox. -/
theorem mailbox_step {e : Event} (hstep : Step w e w')
    (hown : e.action.IsOwned ∨ e.action = .processCompletions)
    (hnd : w.inFlightIds.Nodup) (hbuf : Buffered w) :
    ∃ x, Mailbox.Step copyResult w.mailbox x w'.mailbox ∧ Reads w e x := by
  obtain ⟨action, response⟩ := e
  cases action with
  | owned call h answer => exact mailbox_owned hstep
  | acceptSafe fd addr answer => exact mailbox_acceptSafe hstep
  | pollFuture f waker fail => exact mailbox_pollFuture hnd hbuf hstep
  | dropFuture f => exact mailbox_dropFuture hbuf hstep
  | complete i result => exact mailbox_complete hstep
  | processCompletions => exact mailbox_processCompletions hstep
  | newBuffer | fromSlice | cloneHandle | dropHandle | dropGuard | tryAccess =>
    rw [hstep.buffer trivial]
    exact quiet_of_eq rfl (by simp)
  | submit | submitBatch | pollBatch | dropBatch | tryComplete | waitForCompletion
  | tryCompleteById | pollOperationCompletion =>
    exact hown.elim (fun h => absurd h (by simp [Action.IsOwned])) (fun h => absurd h (by simp))

end Steps

/-! ### What the legacy interface leaves alone -/

section Frames

variable {w w' : World} {e : Event}

/-- **The legacy interface leaves the owned side alone**: the futures and the
buffers. -/
theorem legacy_frame (hstep : Step w e w') (hown : ¬e.action.IsOwned) :
    w' = { w with ring := w'.ring, batches := w'.batches } := by
  obtain ⟨action, response⟩ := e
  cases action with
  | submit | processCompletions | pollOperationCompletion =>
    obtain ⟨-, rfl⟩ := Prod.mk.inj (Option.some.inj hstep)
    rfl
  | submitBatch batch config answers =>
    obtain ⟨_, _, -, ⟨_, -, rfl⟩ | ⟨_, -, rfl⟩⟩ := hstep.submitBatch <;> rfl
  | pollBatch b waker cached fail =>
    obtain ⟨-, _, _, _, _, -, -, -, rfl⟩ := hstep.pollBatch
    rfl
  | dropBatch b =>
    obtain ⟨_, -, rfl⟩ := hstep.dropBatch
    rfl
  | tryComplete cached fail =>
    obtain ⟨_, _, -, rfl⟩ := hstep.tryComplete
    rfl
  | waitForCompletion cached fail =>
    obtain ⟨_, _, -, rfl⟩ := hstep.waitForCompletion
    rfl
  | tryCompleteById id count fail =>
    obtain ⟨_, _, -, rfl⟩ := hstep.tryCompleteById
    rfl
  | _ => exact absurd trivial hown

end Frames

/-! ### How the futures change -/

section Buffers

variable {w w' : World} {e : Event}

/-- An operation that a poll leaves in a future is the one that was there, and it goes on
waiting. -/
theorem operation_of_poll {future polled : OwnedFuture} {ring ring' : Ring} {waker : Waker}
    {fail : Option SaferRingError} {answer : Poll SafeOutput}
    (h : future.poll ring waker fail = some (answer, polled, ring')) {op : SafeOperation}
    (hop : polled.operation = some op) : future.operation = some op ∧ answer = .pending := by
  rcases hfut : future.operation with _ | op'
  · obtain ⟨-, hnone⟩ := poll_of_not_live (fun op hop' => by simp [hfut] at hop') h
    exact absurd (hnone.symm.trans hop) (by simp)
  · rw [OwnedFuture.poll_eq hfut] at h
    obtain ⟨rfl, rfl, -⟩ : _ = answer ∧ _ = polled ∧ _ := by simpa using h
    rw [OwnedFuture.operation_withOperation] at hop
    simp only [pollOperation] at hop ⊢
    split at hop
    · exact absurd hop (by simp)
    · rename_i hlive
      rw [if_neg hlive]
      split at hop
      · split at hop <;> exact absurd hop (by simp)
      · exact ⟨hop, rfl⟩
      · exact absurd hop (by simp)

/-- **How the futures change**: none goes, and an operation that a future holds after a step
was held before it, unless the step made the future, with an operation under the id drawn
and its buffer. -/
theorem operationAt_step (hstep : Step w e w') :
    w.futures.length ≤ w'.futures.length ∧ ∀ f op, operationAt w'.futures f = some op →
      operationAt w.futures f = some op ∨
        f = w.futures.length ∧ op.submissionId = w.ring.nextSubmissionId ∧
          e.action.DrawsOwned ∧ ∃ b, op.buffer = some b := by
  by_cases hown : e.action.IsOwned
  swap
  · rw [legacy_frame hstep hown]
    exact ⟨le_refl _, fun f op hop => Or.inl hop⟩
  have happend : ∀ (future : OwnedFuture) (f : ℕ) (op : SafeOperation),
      operationAt (w.futures ++ [some future]) f = some op →
      operationAt w.futures f = some op ∨ f = w.futures.length ∧ future.operation = some op := by
    intro future f op hop
    rw [operationAt_append] at hop
    split at hop
    · rename_i hf
      exact Or.inr ⟨hf, hop⟩
    · exact Or.inl hop
  obtain ⟨action, response⟩ := e
  cases action with
  | owned call i answer =>
    obtain ⟨buffer, -, ⟨-, -, rfl⟩ | ⟨-, rfl⟩⟩ := hstep.owned <;>
    · refine ⟨by simp, fun f op hop => (happend _ f op hop).imp_right ?_⟩
      rintro ⟨hf, hop⟩
      obtain rfl := Option.some.inj hop
      exact ⟨hf, rfl, trivial, buffer, rfl⟩
  | acceptSafe fd addr answer =>
    rcases hstep.acceptSafe with ⟨-, rfl⟩ | ⟨e, -, rfl⟩
    · refine ⟨by simp, fun f op hop => (happend _ f op hop).imp_right ?_⟩
      rintro ⟨hf, hop⟩
      obtain rfl := Option.some.inj hop
      exact ⟨hf, rfl, trivial, acceptBuffer w.heap, rfl⟩
    · refine ⟨by simp, fun f op hop => Or.inl ((happend _ f op hop).resolve_right ?_)⟩
      rintro ⟨-, hop⟩
      exact absurd hop (by simp [OwnedFuture.operation])
  | pollFuture g waker fail =>
    obtain ⟨future, answer, polled, ring, hg, hpoll, -, rfl⟩ := hstep.pollFuture
    refine ⟨by simp, fun f op hop => Or.inl ?_⟩
    rw [operationAt_set hg] at hop
    split at hop
    · rename_i hfg
      rw [hfg, operationAt_eq hg]
      exact (operation_of_poll hpoll hop).1
    · exact hop
  | dropFuture g =>
    obtain ⟨future, hg, rfl⟩ := hstep.dropFuture
    refine ⟨by simp, fun f op hop => Or.inl ?_⟩
    rw [operationAt_set hg] at hop
    split at hop
    · exact absurd hop (by simp)
    · exact hop
  | complete i result =>
    obtain ⟨_, -, rfl⟩ := hstep.complete
    exact ⟨le_refl _, fun f op hop => Or.inl hop⟩
  | newBuffer | fromSlice | cloneHandle | dropHandle | dropGuard | tryAccess =>
    rw [hstep.buffer trivial]
    exact ⟨le_refl _, fun f op hop => Or.inl hop⟩
  | _ => exact absurd hown (by simp [Action.IsOwned])

/-- **A step keeps the buffers of operations.** -/
theorem Buffered.step (hstep : Step w e w') (h : Buffered w) : Buffered w' := by
  intro f op hop
  rcases (operationAt_step hstep).2 f op hop with hop | ⟨-, -, -, hb⟩
  · exact h f op hop
  · exact hb

end Buffers

/-! ### Soundness along runs -/

/-- A world is **sound** when its mailbox is coherent and its operations have their
buffers. -/
structure Sound (w : World) : Prop where
  coherent : Mailbox.Coherent w.mailbox
  buffered : Buffered w

/-- Nobody discards the orphan of an operation in flight. -/
def SparesOrphans (w : World) (e : Event) : Prop :=
  e.action.IsOwned ∨
    e.action = .processCompletions ∧ ∀ r ∈ w.inFlight, w.ring.orphan r.userData = none

/-- The submission id a step draws, if it draws one, **means nothing yet**: no operation
in flight, cached result, orphan or live future has it. -/
def DrawsUnused (w : World) (e : Event) : Prop :=
  e.action.DrawsOwned → w.mailbox.Unused w.ring.nextSubmissionId

section Sound

variable {w w' : World} {e : Event}

/-- The ids in flight of a sound world are different. -/
theorem Sound.nodup (h : Sound w) : w.inFlightIds.Nodup := by
  rw [← mailbox_ids]
  exact h.coherent.nodup

/-- What the guards of a world say about its mailbox. -/
theorem retains_of_reads {x : Effect ℕ IoResult} (hspare : SparesOrphans w e)
    (hdraw : DrawsUnused w e) (hx : Reads w e x) : Mailbox.Retains w.mailbox x := by
  cases x with
  | accept id =>
    obtain ⟨ha, rfl⟩ := hx
    exact hdraw ha
  | strand id =>
    obtain ⟨⟨fd, addr, err, ha⟩, rfl⟩ := hx
    exact hdraw (ha ▸ trivial)
  | discard =>
    have hx : e.action = .processCompletions := hx
    rcases hspare with hown | ⟨-, hno⟩
    · rw [hx] at hown
      exact absurd hown (by simp [Action.IsOwned])
    · intro y hy
      rw [mailbox_inFlight] at hy
      obtain ⟨r, hr, rfl⟩ := List.mem_map.mp hy
      exact mailbox_orphan_eq_none.mpr (hno r hr)
  | quiet | complete | resolve | giveUp | leave => trivial

/-- **The simulation, from a sound world.** -/
theorem Sound.mailbox_step (h : Sound w) (hstep : Step w e w') (hspare : SparesOrphans w e)
    (hdraw : DrawsUnused w e) :
    ∃ x, Mailbox.Step copyResult w.mailbox x w'.mailbox ∧ Reads w e x ∧
      Mailbox.Retains w.mailbox x := by
  have hown : e.action.IsOwned ∨ e.action = .processCompletions := hspare.imp_right And.left
  obtain ⟨x, hx, hreads⟩ := SaferRing.mailbox_step hstep hown h.nodup h.buffered
  exact ⟨x, hx, hreads, retains_of_reads hspare hdraw hreads⟩

/-- **A step keeps a world sound.** -/
theorem Sound.step (h : Sound w) (hstep : Step w e w') (hspare : SparesOrphans w e)
    (hdraw : DrawsUnused w e) : Sound w' := by
  obtain ⟨x, hx, -, hr⟩ := h.mailbox_step hstep hspare hdraw
  exact ⟨h.coherent.step hx hr, h.buffered.step hstep⟩

/-- The mailbox of a new world is empty. -/
theorem mailbox_new : World.new.mailbox = ⟨[], [], [], fun _ => none, fun _ => none,
    fun _ => none⟩ := rfl

theorem Sound.new : Sound World.new := by
  refine ⟨⟨List.nodup_nil, ?_, ?_, ?_, ?_, ?_⟩, fun f op hop => ?_⟩
  · exact fun h => absurd h (by simp [mailbox_new])
  · exact fun h => absurd h (by simp [mailbox_new])
  · exact fun h => absurd h (by simp [mailbox_new])
  · exact fun h => absurd h (by simp [mailbox_new])
  · exact fun x hx => absurd hx (by simp [mailbox_new, Mailbox.State.inFlight])
  · exact absurd hop (by simp [operationAt, World.new])

end Sound

end SaferRing
