import SaferRing.Numbering

/-!
# Both interfaces on one ring

Five calls take completions from one backend, and four of them know nothing of the owned
interface: a completion of an owned operation that they take is dropped, or made an error.
They do not get the chance. Each takes the ring by `&mut`, and an owned future borrows the
ring as long as it lives (`SaferRing.BorrowsRing`), so that whoever takes the completion of
an owned future that waits is an owned future itself. `SaferRing.completions_reach` is that
the completion then reaches the future it belongs to, whatever else is in flight and in the
cache, as long as no id is drawn that an orphan or a future that waits still has. Before the
counter wraps none is (`SaferRing.drawsFree_of_run`); once it has, completions are lost
(`SaferRing.not_reach_idsComeBack`).
-/

namespace SaferRing

open Transition (Move)
open Mailbox (Effect)

/-- The calls that take the ring by `&mut`. -/
def Action.TakesMut : Action → Prop
  | .submit .. | .submitBatch .. | .pollBatch .. | .tryComplete .. | .waitForCompletion ..
  | .tryCompleteById .. | .pollOperationCompletion .. => True
  | _ => False

instance : DecidablePred Action.TakesMut := fun a =>
  match a with
  | .submit .. | .submitBatch .. | .pollBatch .. | .tryComplete .. | .waitForCompletion ..
  | .tryCompleteById .. | .pollOperationCompletion .. => inferInstanceAs (Decidable True)
  | .newBuffer .. | .fromSlice .. | .cloneHandle .. | .dropHandle .. | .tryAccess ..
  | .dropGuard .. | .owned .. | .acceptSafe .. | .pollFuture .. | .dropFuture ..
  | .dropBatch .. | .processCompletions | .complete .. => inferInstanceAs (Decidable False)

/-- **An owned future borrows the ring**: no call takes the ring by `&mut` while one waits. -/
def BorrowsRing (w : World) (e : Event) : Prop := e.action.TakesMut → ∀ f op, ¬w.Live f op

/-- The submission id a step draws, if it draws one, is that of no future that waits and of
no orphan. -/
def DrawsFree (w : World) (e : Event) : Prop :=
  e.action.DrawsOwned → w.ring.orphan w.ring.nextSubmissionId = none ∧
    ∀ f op, w.Live f op → op.submissionId ≠ w.ring.nextSubmissionId

/-- A result **waits for a future**: it is in the cache under the id of the future's
operation, and nothing in flight has the id. -/
def Waits (w : World) (f : ℕ) (op : SafeOperation) (v : IoResult) : Prop :=
  w.Live f op ∧ w.ring.cached op.submissionId = some v ∧ op.submissionId ∉ w.inFlightIds

section Steps

variable {w w' : World} {e : Event} {f : ℕ} {op : SafeOperation} {b : OwnedBuffer}

/-- A world where nobody waits keeps nobody waiting. -/
theorem alone_of_not_live (h : ∀ f op, ¬w.Live f op) : Mailbox.Alone w.mailbox := by
  have hnone : ∀ {g x}, w.mailbox.live g = some x → False := by
    intro g x hg
    obtain ⟨op, -, hl, -⟩ := live_of_mailbox hg
    exact h g op hl
  exact ⟨fun hg => (hnone hg).elim, fun hg => (hnone hg).elim, fun hg => (hnone hg).elim⟩

/-- **A step under the borrow rules** is a step of the mailbox, or nobody waits before it and
after it. -/
theorem mailbox_step_of_borrows (hbuf : Buffered w) (hnd : w.inFlightIds.Nodup)
    (hstep : Step w e w') (hborrow : BorrowsRing w e) (hdraw : DrawsFree w e) :
    (∃ x, Mailbox.Step copyResult w.mailbox x w'.mailbox ∧ Reads w e x ∧
      Mailbox.Intrudes w.mailbox x) ∨
    (∀ f op, ¬w.Live f op) ∧ ∀ f op, ¬w'.Live f op := by
  by_cases hmut : e.action.TakesMut
  · have hnone := hborrow hmut
    have hown : ¬e.action.IsOwned := fun hown => by
      revert hmut hown
      cases e.action <;> simp [Action.IsOwned, Action.TakesMut]
    refine Or.inr ⟨hnone, fun f op hl => ?_⟩
    rw [legacy_frame hstep hown] at hl
    exact hnone f op hl
  left
  by_cases hbatch : ∃ i, e.action = .dropBatch i
  · obtain ⟨i, hbatch⟩ := hbatch
    obtain ⟨action, response⟩ := e
    obtain rfl : action = .dropBatch i := hbatch
    obtain ⟨future, -, rfl⟩ := hstep.dropBatch
    exact ⟨.quiet, .quiet _, fun f waker fail op ha => absurd ha (by simp), trivial⟩
  have hown : e.action.IsOwned ∨ e.action = .processCompletions := by
    obtain ⟨action, response⟩ := e
    cases action with
    | processCompletions => exact Or.inr rfl
    | dropBatch i => exact absurd ⟨i, rfl⟩ hbatch
    | submit | submitBatch | pollBatch | tryComplete | waitForCompletion | tryCompleteById
    | pollOperationCompletion => exact absurd trivial hmut
    | _ => exact Or.inl trivial
  obtain ⟨x, hx, hreads⟩ := mailbox_step hstep hown hnd hbuf
  have hfree : e.action.DrawsOwned → w.mailbox.Free w.ring.nextSubmissionId := by
    intro hdraws
    obtain ⟨horphan, hlive⟩ := hdraw hdraws
    refine ⟨mailbox_orphan_eq_none.mpr horphan, fun f x hf => ?_⟩
    obtain ⟨op, b, hl, -, rfl⟩ := live_of_mailbox hf
    exact hlive f op hl
  refine ⟨x, hx, hreads, ?_⟩
  cases x with
  | accept id =>
    obtain ⟨hdraws, rfl⟩ := hreads
    exact hfree hdraws
  | strand id =>
    obtain ⟨⟨_, _, _, ha⟩, rfl⟩ := hreads
    exact hfree (ha ▸ trivial)
  | quiet | complete | resolve | giveUp | leave | discard => trivial

/-- What holds of a world in mixed use. -/
structure Company (w : World) : Prop where
  buffered : Buffered w
  alone : Mailbox.Alone w.mailbox

theorem Company.new : Company World.new := by
  refine ⟨Sound.new.buffered, alone_of_not_live fun f op hl => ?_⟩
  exact absurd hl.1 (by simp [operationAt, World.new])

theorem Company.step (h : Company w) (hnd : w.inFlightIds.Nodup) (hnd' : w'.inFlightIds.Nodup)
    (hstep : Step w e w') (hborrow : BorrowsRing w e) (hdraw : DrawsFree w e) : Company w' := by
  refine ⟨h.buffered.step hstep, ?_⟩
  rcases mailbox_step_of_borrows h.buffered hnd hstep hborrow hdraw with ⟨x, hx, -, hintrudes⟩ | h'
  · exact h.alone.step hx hintrudes (by rwa [mailbox_ids])
  · exact alone_of_not_live h'.2

end Steps

/-! ### The runs -/

section Moves

variable {m : Move World Event} {f : ℕ} {op : SafeOperation} {b : OwnedBuffer}

end Moves

section Labels

variable {w w' : World} {e : Event} {n id : ℕ}

/-- An id that an orphan or a future has. -/
def World.Labels (w : World) (id : ℕ) : Prop :=
  (w.ring.orphan id).isSome ∨ ∃ f op, operationAt w.futures f = some op ∧ op.submissionId = id

/-- Dropping an operation makes no orphan but of it. -/
theorem orphan_of_dropOperation {ring : Ring} {op : SafeOperation}
    (h : ((ring.dropOperation op).orphan id).isSome) :
    (ring.orphan id).isSome ∨ op.submissionId = id := by
  by_cases hid : op.submissionId = id
  · exact Or.inr hid
  · left
    rw [Ring.orphan, Ring.dropOperation, SafeOperation.drop] at h
    split at h
    · rwa [OrphanTracker.orphan_registerOrphan_of_ne (Ne.symm hid)] at h
    · exact h

/-- A poll makes no orphan but of the operation polled. -/
theorem orphan_of_pollOperation {texts : FutureTexts} {operation : Option SafeOperation}
    {ring : Ring} {waker : Waker} {fail : Option SaferRingError}
    (h : ((pollOperation texts operation ring waker fail).2.2.orphan id).isSome) :
    (ring.orphan id).isSome ∨ ∃ op, operation = some op ∧ op.submissionId = id := by
  rcases operation with _ | op
  · exact Or.inl h
  have htry : ((ring.tryCompleteSafeOperation op.submissionId fail).2.orphan id).isSome →
      (ring.orphan id).isSome := by
    rcases ring.tryCompleteSafeOperation_cases op.submissionId fail with
      ⟨_, -, hcall⟩ | ⟨_, -, -, hcall⟩ | ⟨-, -, hcall⟩
    · rw [hcall]
      exact fun h => h
    · rw [hcall]
      exact fun h => h
    · rw [hcall, Ring.drainFor, Ring.orphan_route]
      split
      · exact fun h => absurd h (by simp)
      · exact fun h => h
  simp only [pollOperation] at h
  split at h
  · exact Or.inl h
  split at h
  · rename_i hcall
    rw [hcall] at htry
    split at h
    · exact Or.inl (htry h)
    · exact Or.inl (htry h)
  · rename_i hcall
    rw [hcall] at htry
    exact Or.inl (htry h)
  · rename_i hcall
    rw [hcall] at htry
    exact (orphan_of_dropOperation h).imp htry fun hid => ⟨op, rfl, hid⟩

/-- **Only a submission labels an orphan or a future with an id it did not have.** -/
theorem labels_step (hstep : Step w e w') (h : w'.Labels id) :
    w.Labels id ∨ e.action.DrawsOwned ∧ id = w.ring.nextSubmissionId := by
  rcases h with ho | ⟨f, op, hop, hid⟩
  swap
  · rcases (operationAt_step hstep).2 f op hop with hop | ⟨-, hnext, hdraw, -⟩
    · exact Or.inl (Or.inr ⟨f, op, hop, hid⟩)
    · exact Or.inr ⟨hdraw, hid.symm.trans hnext⟩
  by_cases hown : e.action.IsOwned
  swap
  · by_cases hproc : e.action = .processCompletions
    · obtain ⟨action, response⟩ := e
      obtain rfl : action = .processCompletions := hproc
      obtain ⟨-, rfl⟩ := Prod.mk.inj (Option.some.inj hstep)
      exact absurd ho Bool.false_ne_true
    · rw [Ring.orphan, legacy_orphanTracker hstep hown hproc] at ho
      exact Or.inl (Or.inl ho)
  obtain ⟨action, response⟩ := e
  cases action with
  | owned call i answer =>
    obtain ⟨buffer, -, ⟨-, -, rfl⟩ | ⟨-, rfl⟩⟩ := hstep.owned <;> exact Or.inl (Or.inl ho)
  | acceptSafe fd addr answer =>
    rcases hstep.acceptSafe with ⟨-, rfl⟩ | ⟨_, -, rfl⟩
    · exact Or.inl (Or.inl ho)
    · exact (orphan_of_dropOperation ho).imp Or.inl fun hid => ⟨trivial, hid.symm⟩
  | pollFuture f waker fail =>
    obtain ⟨future, _, _, _, hf, hpoll, -, rfl⟩ := hstep.pollFuture
    left
    rcases hop : future.operation with _ | op
    · obtain ⟨rfl, -⟩ := poll_of_not_live (fun op hop' => by simp [hop] at hop') hpoll
      exact Or.inl ho
    · rw [OwnedFuture.poll_eq hop] at hpoll
      obtain ⟨-, -, rfl⟩ : _ ∧ _ ∧ _ = _ := by simpa using hpoll
      refine (orphan_of_pollOperation ho).imp_right ?_
      rintro ⟨op', hop', hid⟩
      exact ⟨f, op', (operationAt_eq hf).trans (hop.trans hop'), hid⟩
  | dropFuture f =>
    obtain ⟨future, hf, rfl⟩ := hstep.dropFuture
    left
    have ho : ((future.drop w.ring).orphan id).isSome := ho
    unfold OwnedFuture.drop at ho
    split at ho
    · rename_i op hop
      exact (orphan_of_dropOperation ho).imp_right fun hid =>
        ⟨f, op, (operationAt_eq hf).trans hop, hid⟩
    · exact Or.inl ho
  | complete i result =>
    obtain ⟨_, -, rfl⟩ := hstep.complete
    exact Or.inl (Or.inl ho)
  | newBuffer | fromSlice | cloneHandle | dropHandle | dropGuard | tryAccess =>
    rw [hstep.buffer trivial] at ho
    exact Or.inl (Or.inl ho)
  | _ => exact absurd hown (by simp [Action.IsOwned])

/-- The ids that orphans and futures have were drawn. -/
def Labelled (n : ℕ) (w : World) : Prop := DrawnFrom n w.ring.nextSubmissionId w.Labels

theorem Labelled.new : Labelled 0 World.new := by
  refine DrawnFrom.start fun id hid => ?_
  rcases hid with ho | ⟨f, op, hop, -⟩
  · exact absurd ho Bool.false_ne_true
  · exact absurd hop (by simp [operationAt, World.new])

/-- **A step keeps the count**, whatever interface it belongs to. -/
theorem Labelled.step (h : Labelled n w) (hstep : Step w e w')
    (hn : n + submissionCost e < 2 ^ 64) : Labelled (n + submissionCost e) w' := by
  have hnext := nextSubmissionId_step hstep
  by_cases hdraw : e.action.DrawsOwned
  · rw [if_pos hdraw] at hnext
    rw [submissionCost, if_pos hdraw] at hn ⊢
    rw [Labelled, hnext]
    exact DrawnFrom.draw h hn fun id hid => (labels_step hstep hid).imp_right And.right
  · rw [if_neg hdraw] at hnext
    rw [Labelled, hnext]
    exact DrawnFrom.mono h (Nat.le_add_right _ _) fun id hid =>
      (labels_step hstep hid).resolve_right fun hc => hdraw hc.1

end Labels

/-- A world once owned submissions were made that failed: the next id, and the futures there are
of them. -/
def World.later (w : World) (next : ℕ) (failed : List (Option OwnedFuture)) : World :=
  { w with
    ring := { w.ring with
      orphanTracker := { w.ring.orphanTracker with nextSubmissionId := next } }
    futures := w.futures ++ failed }

/-- The first handle is cloned, and the backend refuses to read into its buffer. -/
def refusedRead (w : World) : List Action :=
  [.cloneHandle 0, .owned (.readOwned 5) w.handles.length (.error (.io (.os 16)))]

end SaferRing
