import SaferRing.Backend.Epoll
import SaferRing.Backend.IoUring
import SaferRing.Exclusive

/-!
# The contract between a ring and its backend

A ring is verified over `SaferRing.Backend`, which says of a backend what its trait does. Two
things are owed for that: a ring does nothing to its backend but what the contract has
(`SaferRing.backend_run`), and the backends there are keep it. The contract is a transition
system, `SaferRing.Backend.Does`, and what its caller sees of it are the operations accepted
and the completions handed over (`SaferRing.Seen`). A backend keeps the contract when
whatever is seen of it the contract shows too.

* `SaferRing.IoUringBackend.keeps_contract` – the io_uring backend does, as long as no
  submission is refused once its entry was pushed;
* `SaferRing.EpollBackend.keeps_contract` – the epoll backend does, as long as no operation
  is accepted under the id of one that is pending.
-/

namespace SaferRing

open Transition (Guarded Move)

/-! ### What the contract has -/

/-- **What is seen of a backend.** -/
inductive Seen
  /-- An operation was accepted. -/
  | accepted (request : Request)
  /-- A completion was handed over. -/
  | completed (id : ℕ) (result : IoResult)
  deriving DecidableEq, Repr

/-- A submission that was answered. -/
def Seen.answered (request : Request) : Except SaferRingError Unit → List Seen
  | .ok () => [.accepted request]
  | .error _ => []

/-- Completions handed over. -/
def Seen.completions (completions : List (ℕ × IoResult)) : List Seen :=
  completions.map fun c => .completed c.1 c.2

namespace Backend

/-- **What happens at a backend.** -/
inductive Act
  /-- It accepts an operation. -/
  | accept (request : Request)
  /-- The kernel completes one. -/
  | complete (i : ℕ) (result : IoResult)
  /-- It hands over what is completed. -/
  | handOver

/-- The step relation of the contract. A call that is refused, or fails, is no step. -/
def Does (b : Backend) : Act → Backend → Prop
  | .accept request, b' => b.submitOperation request (.ok ()) = (.ok (), b')
  | .complete i result, b' => b.complete i result = some b'
  | .handOver, b' => b.tryComplete none = (.ok b.waiting, b')

/-- What is seen of a step. -/
def shows (m : Move Backend Act) : List Seen :=
  match m.label with
  | .accept request => [.accepted request]
  | .complete .. => []
  | .handOver => Seen.completions m.before.waiting

variable {b b' : Backend} {request : Request}

theorem does_accept : b.Does (.accept request) (b.accepted request) := rfl

theorem does_handOver : b.Does .handOver b.drained := rfl

/-! ### A state of the contract, by ids -/

/-- **A state of the contract mirrors a backend** that has the operations `ids`: they are
pending, and nothing is completed that was not handed over. -/
structure Mirrors (ids : List ℕ) (b : Backend) : Prop where
  ready : b.ready = []
  pending : (b.pending.map Request.userData).Perm ids

/-- The kernel completes operations, one after the other, and nothing is seen of it. -/
theorem exists_completes {completions : List (ℕ × IoResult)} {ids : List ℕ}
    (h : (b.pending.map Request.userData).Perm (completions.map Prod.fst ++ ids)) :
    ∃ ms b', Transition.Run Does b ms b' ∧ b'.waiting = b.waiting ++ completions ∧
      (b'.pending.map Request.userData).Perm ids ∧ ms.flatMap shows = [] := by
  induction completions generalizing b with
  | nil => exact ⟨[], b, .nil b, (List.append_nil _).symm, h, rfl⟩
  | cons c rest ih =>
    obtain ⟨id, result⟩ := c
    have hmem : id ∈ b.pending.map Request.userData := h.mem_iff.mpr List.mem_cons_self
    obtain ⟨request, hreq, rfl⟩ := List.mem_map.mp hmem
    obtain ⟨i, hi, rfl⟩ := List.getElem_of_mem hreq
    -- the kernel completes the first of them, and the rest from there
    let next : Backend := { b with
      pending := b.pending.eraseIdx i
      ready := b.ready ++ [(b.pending[i], result)] }
    have hstep : b.Does (.complete i result) next := by
      change b.complete i result = some next
      rw [complete, List.getElem?_eq_getElem hi]
    have hrest : (next.pending.map Request.userData).Perm (rest.map Prod.fst ++ ids) := by
      have hcons := (List.getElem_cons_eraseIdx_perm hi).map Request.userData
      exact (hcons.trans h).cons_inv
    obtain ⟨ms, b', hrun, hwaiting, hids, hshows⟩ := ih hrest
    refine ⟨_, b', (Transition.Run.single hstep).append hrun, ?_, hids, hshows⟩
    rw [hwaiting, waiting, List.map_append, List.append_assoc]
    rfl

namespace Mirrors

variable {completions : List (ℕ × IoResult)} {ids ids' : List ℕ}

theorem new : Mirrors [] Backend.new := ⟨rfl, List.Perm.refl _⟩

/-- The order of the ids does not matter. -/
theorem perm (h : Mirrors ids b) (hids : ids.Perm ids') : Mirrors ids' b :=
  ⟨h.ready, h.pending.trans hids⟩

/-- **Nothing is seen.** -/
theorem silent (h : Mirrors ids b) (hids : ids.Perm ids') :
    ∃ ms b', Transition.Run Does b ms b' ∧ Mirrors ids' b' ∧ ms.flatMap shows = [] :=
  ⟨[], b, .nil b, h.perm hids, rfl⟩

/-- **An operation is accepted.** -/
theorem accept (h : Mirrors ids b) (hids : (request.userData :: ids).Perm ids') :
    ∃ ms b', Transition.Run Does b ms b' ∧ Mirrors ids' b' ∧
      ms.flatMap shows = [.accepted request] := by
  refine ⟨_, _, .single does_accept, ⟨h.ready, ?_⟩, rfl⟩
  rw [accepted, List.map_append]
  exact List.perm_append_comm.trans ((h.pending.cons _).trans hids)

/-- **Operations are completed and handed over.** -/
theorem handOver (h : Mirrors ids b) (hids : ids.Perm (completions.map Prod.fst ++ ids')) :
    ∃ ms b', Transition.Run Does b ms b' ∧ Mirrors ids' b' ∧
      ms.flatMap shows = Seen.completions completions := by
  obtain ⟨ms, t, hrun, hwaiting, hpending, hshows⟩ := exists_completes (h.pending.trans hids)
  have hnone : b.waiting = [] := by rw [waiting, h.ready, List.map_nil]
  refine ⟨_, t.drained, hrun.snoc does_handOver, ⟨rfl, hpending⟩, ?_⟩
  rw [List.flatMap_append, hshows, List.flatMap_singleton, List.nil_append]
  change Seen.completions t.waiting = _
  rw [hwaiting, hnone, List.nil_append]

end Mirrors

end Backend

/-! ### The ring -/

section Ring

variable {s t : Ring} {w w' : World} {e : Event}

/-- What becomes of the backend of a ring is what the contract has. -/
def Ring.Drives (s t : Ring) : Prop := ∃ ms, Transition.Run Backend.Does s.backend ms t.backend

/-- The backend is left alone, or everything it has is taken. -/
theorem Ring.Drives.of_taken (h : t.backend = s.backend ∨ t.backend = s.backend.drained) :
    s.Drives t := by
  rcases h with h | h
  · exact ⟨[], h ▸ .nil _⟩
  · have hstep : s.backend.Does .handOver t.backend := h ▸ Backend.does_handOver
    exact ⟨_, .single hstep⟩

/-- The backend accepts an operation. -/
theorem Ring.Drives.of_accepted {request : Request} (h : t.backend = s.backend.accepted request) :
    s.Drives t := by
  have hstep : s.backend.Does (.accept request) t.backend := h ▸ Backend.does_accept
  exact ⟨_, .single hstep⟩

/-- A legacy submission. -/
theorem Ring.drives_submit (s : Ring) (operation : Operation Building)
    (answer : Except SaferRingError Unit) : s.Drives (s.submit operation answer).2 := by
  rcases s.submit_cases operation answer with ⟨_, -, h⟩ | ⟨_, -, -, h⟩ | ⟨-, -, h⟩
  · rw [h]
    exact .of_taken (Or.inl rfl)
  · rw [h]
    exact .of_taken (Or.inl rfl)
  · rw [h]
    exact .of_accepted rfl

/-- **A step does nothing to the backend but what the contract has.** -/
theorem drives_step (hstep : Step w e w') : w.ring.Drives w'.ring := by
  obtain ⟨action, response⟩ := e
  cases action with
  | owned call i answer =>
    obtain ⟨_, -, ⟨-, -, rfl⟩ | ⟨-, rfl⟩⟩ := hstep.owned
    · exact .of_accepted rfl
    · exact .of_taken (Or.inl rfl)
  | acceptSafe fd addr answer =>
    rcases hstep.acceptSafe with ⟨-, rfl⟩ | ⟨_, -, rfl⟩
    · exact .of_accepted rfl
    · exact .of_taken (Or.inl rfl)
  | submit operation answer =>
    obtain ⟨-, rfl⟩ := Prod.mk.inj (Option.some.inj hstep)
    exact w.ring.drives_submit operation answer
  | submitBatch batch config answers =>
    obtain ⟨_, _, hcall, hw⟩ := hstep.submitBatch
    have hbatch : ∃ k ≤ batch.len,
        w.ring.Drives (w.ring.submitBatchStandaloneWithConfig batch config answers).2 :=
      Ring.submitBatch_invariant (P := fun _ ring => w.ring.Drives ring)
        (fun k operation ring _ _ _ ⟨_, hrun⟩ =>
          let ⟨_, hrun'⟩ := ring.drives_submit operation (answers k)
          ⟨_, hrun.append hrun'⟩)
        (.of_taken (Or.inl rfl))
    obtain ⟨-, -, hdrives⟩ := hbatch
    rw [hcall] at hdrives
    rcases hw with ⟨_, -, rfl⟩ | ⟨_, -, rfl⟩ <;> exact hdrives
  | pollFuture f waker fail =>
    obtain ⟨_, _, _, _, -, hpoll, -, rfl⟩ := hstep.pollFuture
    exact .of_taken (OwnedFuture.poll_frame hpoll).1
  | dropFuture f =>
    obtain ⟨future, -, rfl⟩ := hstep.dropFuture
    exact .of_taken (Or.inl (future.drop_frame w.ring).1)
  | pollBatch | dropBatch | tryComplete | waitForCompletion | tryCompleteById
  | pollOperationCompletion =>
    exact .of_taken (hstep.collects trivial).backend
  | complete i result =>
    obtain ⟨backend, hb, rfl⟩ := hstep.complete
    have hdoes : w.ring.backend.Does (.complete i result) backend := hb
    exact ⟨_, .single hdoes⟩
  | processCompletions =>
    obtain ⟨-, rfl⟩ := Prod.mk.inj (Option.some.inj hstep)
    exact .of_taken (Or.inl rfl)
  | newBuffer | fromSlice | cloneHandle | dropHandle | dropGuard | tryAccess =>
    rw [hstep.buffer trivial]
    exact .of_taken (Or.inl rfl)

/-- **Along a run a ring does nothing to its backend but what the contract has.** -/
theorem backend_run {ms : List (Move World Event)} (hrun : Run ms w) :
    ∃ acts, Transition.Run Backend.Does Backend.new acts w.ring.backend := by
  let Has : World → Backend → Prop := fun w b => b = w.ring.backend
  have hstep : ∀ s e t b, Step s e t → True → Has s b →
      ∃ acts b', Transition.Run Backend.Does b acts b' ∧ Has t b' := by
    rintro s e t b hstep - rfl
    obtain ⟨acts, hacts⟩ := drives_step hstep
    exact ⟨acts, _, hacts, rfl⟩
  have hnew : Has World.new Backend.new := rfl
  obtain ⟨acts, b, hacts, rfl⟩ := hrun.simulate hstep (fun _ _ => trivial) hnew
  exact ⟨acts, hacts⟩

end Ring

/-! ### The io_uring backend -/

/-- Entries are taken from the front of the queue, and are unfinished then. -/
def IoUring.Takes (K : IoUring) (r r' : K.Ring) : Prop :=
  ∃ taken, K.queued r = taken ++ K.queued r' ∧
    (K.unfinished r').Perm (K.unfinished r ++ taken.map Entry.userData)

/-- **An io_uring instance that keeps count**: what it takes is unfinished until it is
completed, and is completed once. -/
structure IoUring.Exact (K : IoUring) : Prop where
  submit : ∀ r c, K.Takes r (K.submit r c).2
  wait : ∀ r c a r', K.submitAndWait r c = some (a, r') → K.Takes r r'
  completion : ∀ r, (K.unfinished r).Perm
    ((K.completion r).1.map Cqe.userData ++ K.unfinished (K.completion r).2)
  work : ∀ r c, (K.unfinished r).Perm (K.unfinished (K.work r c))

namespace Queues

variable {self : Queues} {turn : Turn}

theorem takes_take : IoUring.queues.Takes self (self.take turn) := by
  refine ⟨self.queue.take turn.taken, (List.take_append_drop _ _).symm, ?_⟩
  change (self.take turn).unfinished.Perm (self.unfinished ++ _)
  rw [unfinished, take, List.map_append, unfinished, List.append_assoc, List.append_assoc]
  exact List.perm_append_comm.append_left _

/-- What the kernel completes it does not work on any more. -/
theorem perm_finished (working : List Entry) (finished : List ℤ) :
    (working.map Entry.userData).Perm ((working.drop finished.length).map Entry.userData ++
      ((working.zip finished).map fun done => (⟨done.1.userData, done.2⟩ : Cqe)).map
        Cqe.userData) := by
  induction working generalizing finished with
  | nil => simp
  | cons entry rest ih =>
    rcases finished with _ | ⟨result, finished⟩
    · exact .of_eq (List.append_nil _).symm
    · exact ((ih finished).cons _).trans List.perm_middle.symm

theorem perm_work : self.unfinished.Perm (self.work turn).unfinished := by
  rw [unfinished, unfinished, work, List.map_append]
  refine ((perm_finished self.working turn.finished).append_right _).trans ?_
  rw [List.append_assoc]
  exact List.perm_append_comm.append_left _

end Queues

/-- **Three queues keep count.** -/
theorem IoUring.exact_queues : IoUring.queues.Exact where
  submit r turn := by
    rcases hrefuses : turn.refuses with _ | e
    · have hsubmit : IoUring.queues.submit r turn = (.ok (), r.take turn) := by
        simp only [queues, hrefuses]
      exact hsubmit ▸ Queues.takes_take
    · have hsubmit : IoUring.queues.submit r turn = (.error e, r) := by
        simp only [queues, hrefuses]
      exact hsubmit.symm ▸ ⟨[], rfl, .of_eq (List.append_nil _).symm⟩
  wait r turn a r' h := by
    simp only [queues] at h
    split at h
    · obtain ⟨-, rfl⟩ := Prod.mk.inj (Option.some.inj h)
      exact ⟨[], rfl, .of_eq (List.append_nil _).symm⟩
    split at h
    · exact absurd h (by simp)
    · obtain ⟨-, rfl⟩ := Prod.mk.inj (Option.some.inj h)
      obtain ⟨taken, hqueue, hunf⟩ := @Queues.takes_take r turn
      exact ⟨taken, hqueue, Queues.perm_work.symm.trans hunf⟩
  completion r := List.perm_append_comm.trans (.of_eq (by simp [queues, Queues.unfinished]))
  work r turn := Queues.perm_work

namespace IoUringBackend

variable {K : IoUring} {b b' : IoUringBackend K} {e : Event K} {a : Backend}

/-- What is seen of a call. -/
def shows (m : Move (IoUringBackend K) (Event K)) : List Seen :=
  match m.label.call with
  | .submitOperation request choice =>
    Seen.answered request (m.before.submitOperation request choice).1
  | _ => Seen.completions m.label.completions

/-- **A submission is refused before its entry is pushed**, if it is. -/
def RefusesEarly (b : IoUringBackend K) (e : Event K) : Prop :=
  match e.call with
  | .submitOperation request choice =>
    ∀ error, (b.submitOperation request choice).1 = .error error → b.FailsEarly request
  | _ => True

/-- The ids of a ring some of whose entries were taken. -/
theorem perm_ids_of_takes {r r' : K.Ring} (h : K.Takes r r') :
    ((K.queued r).map Entry.userData ++ K.unfinished r).Perm
      ((K.queued r').map Entry.userData ++ K.unfinished r') := by
  obtain ⟨taken, hqueued, hunf⟩ := h
  rw [hqueued, List.map_append]
  refine List.Perm.trans ?_ (hunf.symm.append_left _)
  rw [List.append_assoc]
  refine List.perm_append_comm.trans ?_
  rw [List.append_assoc]

/-- Completions are taken. -/
theorem perm_ids_tryComplete (hK : K.Exact) (b : IoUringBackend K) :
    b.ids.Perm (b.tryComplete.1.map Prod.fst ++ b.tryComplete.2.ids) := by
  obtain ⟨hqueued, -, -⟩ := K.completion_unfinished b.ring
  have hids : b.tryComplete.1.map Prod.fst = (K.completion b.ring).1.map Cqe.userData :=
    List.map_map
  have hleft : b.tryComplete.2.ids = (K.queued b.ring).map Entry.userData ++
      K.unfinished (K.completion b.ring).2 := by
    rw [← hqueued]
    rfl
  rw [hids, hleft, ids]
  refine ((hK.completion b.ring).append_left _).trans ?_
  rw [← List.append_assoc, ← List.append_assoc]
  exact List.perm_append_comm.append_right _

/-- **What is seen of a step the contract shows.** -/
theorem mirrors_step (hK : K.Exact) (hstep : Step b e b') (hearly : b.RefusesEarly e)
    (h : a.Mirrors b.ids) :
    ∃ acts a', Transition.Run Backend.Does a acts a' ∧ a'.Mirrors b'.ids ∧
      acts.flatMap Backend.shows = shows ⟨b, e, b'⟩ := by
  obtain ⟨call, completions⟩ := e
  cases call with
  | submitOperation request choice =>
    obtain ⟨rfl, rfl⟩ := Prod.mk.inj (Option.some.inj hstep)
    have hshows : shows ⟨b, ⟨.submitOperation request choice, []⟩, b.submitOperation request
        choice |>.2⟩ = Seen.answered request (b.submitOperation request choice).1 := rfl
    rw [hshows]
    rcases b.submitOperation_cases request choice with ⟨-, _, hsub⟩ | ⟨entry, ring, hlate, hentry,
      hqueued, hunf, hsub⟩
    · rw [hsub]
      exact h.silent (List.Perm.refl _)
    · rcases hans : (b.submitOperation request choice).1 with error | ⟨⟨⟩⟩
      · -- the entry stayed queued, and the caller was told that it failed
        exact absurd (hearly error hans) hlate
      · refine h.accept ?_
        rw [hsub]
        refine List.Perm.trans ?_ (perm_ids_of_takes (hK.submit ring choice))
        rw [hqueued, hunf, List.map_append, List.append_assoc, ← hentry]
        exact List.perm_middle.symm
  | tryComplete =>
    obtain ⟨rfl, rfl⟩ := Prod.mk.inj (Option.some.inj hstep)
    exact h.handOver (perm_ids_tryComplete hK b)
  | waitForCompletion choice =>
    obtain ⟨⟨answer, backend⟩, hwait, hab⟩ := Option.map_eq_some_iff.mp hstep
    obtain ⟨rfl, rfl⟩ := Prod.mk.inj hab
    unfold waitForCompletion at hwait
    split at hwait
    · obtain ⟨rfl, rfl⟩ := Prod.mk.inj (Option.some.inj hwait)
      exact h.silent (List.Perm.refl _)
    split at hwait
    · exact absurd hwait (by simp)
    · rename_i ring hring
      obtain ⟨rfl, rfl⟩ := Prod.mk.inj (Option.some.inj hwait)
      exact h.silent (perm_ids_of_takes (hK.wait _ _ _ _ hring))
    · rename_i ring hring
      obtain ⟨rfl, rfl⟩ := Prod.mk.inj (Option.some.inj hwait)
      have htaken := perm_ids_of_takes (hK.wait _ _ _ _ hring)
      exact h.handOver (htaken.trans (perm_ids_tryComplete hK { b with ring }))
  | work choice =>
    obtain ⟨rfl, rfl⟩ := Prod.mk.inj (Option.some.inj hstep)
    refine h.silent ?_
    obtain ⟨hqueued, -⟩ := K.work_unfinished b.ring choice
    change List.Perm _ ((K.queued (K.work b.ring choice)).map _ ++ _)
    rw [hqueued]
    exact (hK.work b.ring choice).append_left _

/-- **The io_uring backend keeps the contract**, over an instance that keeps count, as long
as no submission is refused once its entry was pushed. -/
theorem keeps_contract (hK : K.Exact) {ms : List (Move (IoUringBackend K) (Event K))}
    (hnew : b.ids = []) (hrun : Transition.Run Step b ms b') (hearly : Guarded RefusesEarly ms) :
    ∃ acts a, Transition.Run Backend.Does Backend.new acts a ∧ a.Mirrors b'.ids ∧
      acts.flatMap Backend.shows = ms.flatMap shows := by
  have hstep : ∀ s e t a, Step s e t → s.RefusesEarly e → a.Mirrors s.ids →
      ∃ acts a', Transition.Run Backend.Does a acts a' ∧ a'.Mirrors t.ids ∧
        acts.flatMap Backend.shows = shows ⟨s, e, t⟩ :=
    fun _ _ _ _ => mirrors_step hK
  have h₀ : Backend.new.Mirrors b.ids := hnew ▸ Backend.Mirrors.new
  exact hrun.refines shows Backend.shows (R := fun s a => a.Mirrors s.ids) hstep hearly h₀

end IoUringBackend

/-! ### The epoll backend -/

namespace EpollBackend

variable {K : Epoll} {b b' : EpollBackend K} {call : Call K} {a : Backend}
variable {os : Syscall → Except IoError ℕ}

/-- The completions of a call: none, when it failed. -/
def completionsOf
    (answer : Option (Except SaferRingError (List (ℕ × IoResult)) × EpollBackend K)) :
    List (ℕ × IoResult) :=
  (answer.bind fun c => c.1.toOption).getD []

/-- What is seen of a call. -/
def shows (m : Move (EpollBackend K) (Call K)) : List Seen :=
  match m.label with
  | .submitOperation request choice =>
    Seen.answered request (m.before.submitOperation request choice).1
  | .tryComplete choice os => Seen.completions (completionsOf (m.before.tryComplete choice os))
  | .waitForCompletion choice os =>
    Seen.completions (completionsOf (m.before.waitForCompletion choice os))

/-- **No operation is accepted under the id of one that is pending.** -/
def NewId (b : EpollBackend K) : Call K → Prop
  | .submitOperation request choice => (b.submitOperation request choice).1 = .ok () →
      b.pendingOperations.lookup request.userData = none
  | _ => True

/-- **Executing operations loses none**: each is completed, or still pending. -/
theorem perm_keys_collect (pending : HashMap PendingOperation) (events : List EpollEvent) :
    pending.keys.Perm ((collect os pending events).1.map Prod.fst ++
      (collect os pending events).2.keys) := by
  induction events generalizing pending with
  | nil => exact List.Perm.refl _
  | cons event rest ih =>
    rw [collect]
    rcases hl : pending.lookup event.u64 with _ | op
    · exact ih pending
    · -- its operation is forgotten, so that the rest of the report cannot complete it again
      have hmem : event.u64 ∈ pending.keys :=
        AList.mem_keys.mp (AList.lookup_isSome.mp (by rw [hl]; rfl))
      have hrest := ih (pending.erase event.u64)
      rw [AList.keys_erase] at hrest
      exact (List.perm_cons_erase hmem).trans (hrest.cons _)

/-- What is seen of a poll the contract shows. -/
theorem mirrors_poll {timeout : ℤ} {choice : K.Choice}
    {answer : Except SaferRingError (List (ℕ × IoResult))}
    (hpoll : b.pollCompletions timeout choice os = some (answer, b'))
    (h : a.Mirrors b.pendingOperations.keys) :
    ∃ acts a', Transition.Run Backend.Does a acts a' ∧ a'.Mirrors b'.pendingOperations.keys ∧
      acts.flatMap Backend.shows =
        Seen.completions (completionsOf (b.pollCompletions timeout choice os)) := by
  rw [hpoll]
  rcases hwait : K.wait b.epoll maxEvents timeout choice with _ | ⟨error | events, epoll⟩
  all_goals
    unfold pollCompletions at hpoll
    rw [hwait] at hpoll
  · exact absurd hpoll (by simp)
  · obtain ⟨rfl, rfl⟩ := Prod.mk.inj (Option.some.inj hpoll)
    exact h.silent (List.Perm.refl _)
  · obtain ⟨rfl, rfl⟩ := Prod.mk.inj (Option.some.inj hpoll)
    exact h.handOver (perm_keys_collect b.pendingOperations events)

/-- **What is seen of a step the contract shows.** -/
theorem mirrors_step (hstep : Step b call b') (hid : b.NewId call)
    (h : a.Mirrors b.pendingOperations.keys) :
    ∃ acts a', Transition.Run Backend.Does a acts a' ∧ a'.Mirrors b'.pendingOperations.keys ∧
      acts.flatMap Backend.shows = shows ⟨b, call, b'⟩ := by
  cases call with
  | submitOperation request choice =>
    obtain rfl := Option.some.inj hstep
    have hshows : shows ⟨b, .submitOperation request choice, (b.submitOperation request choice).2⟩ =
        Seen.answered request (b.submitOperation request choice).1 := rfl
    rw [hshows]
    rcases b.submitOperation_cases request choice with ⟨_, _, hsub, -⟩ | ⟨_, hsub, -⟩
    · rw [hsub]
      exact h.silent (List.Perm.refl _)
    · have hnew : b.pendingOperations.lookup request.userData = none := hid (by rw [hsub])
      -- the operation takes the place of none
      have hfresh : request.userData ∉ b.pendingOperations.keys :=
        fun hmem => AList.lookup_eq_none.mp hnew (AList.mem_keys.mpr hmem)
      rw [hsub]
      refine h.accept ?_
      rw [AList.keys_insert, List.erase_of_not_mem hfresh]
  | tryComplete choice os =>
    obtain ⟨⟨_, _⟩, hpoll, rfl⟩ := Option.map_eq_some_iff.mp hstep
    exact mirrors_poll hpoll h
  | waitForCompletion choice os =>
    obtain ⟨⟨answer, backend⟩, hpoll, rfl⟩ := Option.map_eq_some_iff.mp hstep
    rcases hempty : b.pendingOperations.keys.isEmpty with _ | _
    · have hcall : b.waitForCompletion choice os = b.pollCompletions (-1) choice os := by
        rw [waitForCompletion, hempty]
        rfl
      have hshows : shows ⟨b, .waitForCompletion choice os, backend⟩ =
          Seen.completions (completionsOf (b.pollCompletions (-1) choice os)) := by
        rw [← hcall]
        rfl
      rw [hshows]
      exact mirrors_poll (hcall ▸ hpoll) h
    · have hcall : b.waitForCompletion choice os =
          some (.error (.ioNew .invalidInput "No operations to wait for"), b) := by
        rw [waitForCompletion, hempty]
        rfl
      have hshows : shows ⟨b, .waitForCompletion choice os, backend⟩ = [] := by
        change Seen.completions (completionsOf (b.waitForCompletion choice os)) = []
        rw [hcall]
        rfl
      obtain ⟨-, rfl⟩ := Prod.mk.inj (Option.some.inj (hcall.symm.trans hpoll))
      rw [hshows]
      exact h.silent (List.Perm.refl _)

/-- **The epoll backend keeps the contract**, as long as no operation is accepted under the id
of one that is pending. -/
theorem keeps_contract {ms : List (Move (EpollBackend K) (Call K))}
    (hrun : Transition.Run Step EpollBackend.new ms b) (hid : Guarded NewId ms) :
    ∃ acts a, Transition.Run Backend.Does Backend.new acts a ∧
      a.Mirrors b.pendingOperations.keys ∧ acts.flatMap Backend.shows = ms.flatMap shows := by
  have hstep : ∀ (s : EpollBackend K) call t (a : Backend), Step s call t → s.NewId call →
      a.Mirrors s.pendingOperations.keys →
      ∃ acts a', Transition.Run Backend.Does a acts a' ∧
        a'.Mirrors t.pendingOperations.keys ∧
        acts.flatMap Backend.shows = shows ⟨s, call, t⟩ :=
    fun _ _ _ _ => mirrors_step
  exact hrun.refines shows Backend.shows (R := fun s a => a.Mirrors s.pendingOperations.keys)
    hstep hid Backend.Mirrors.new

end EpollBackend

end SaferRing
