import SaferRing.Owned

/-!
# Where ids come from

Both interfaces draw their ids from a wrapping 64-bit counter that starts at `1`.
Within 2^64 draws an id drawn is a new one: `SaferRing.DrawnFrom.fresh`, where
`SaferRing.DrawnFrom` bounds the ids of whatever is looked at by what was drawn.

`SaferRing.nextSubmissionId_step` says which steps draw a submission id, and
`SaferRing.legacy_orphanTracker` that the legacy interface draws none. Put together
with the mailbox, `SaferRing.drawsUnused_of_run` is that a run with fewer than 2^64 owned
submissions draws no id that means anything yet.
-/

namespace SaferRing

/-! ### Drawing from a wrapping counter -/

/-- At most `n` ids were **drawn from a counter** that stands at `counter`, and the ids in
`S` are among them. -/
def DrawnFrom (n counter : ℕ) (S : ℕ → Prop) : Prop :=
  ∃ d ≤ n, counter = (d + 1) % 2 ^ 64 ∧ ∀ id, S id → id ≤ d

namespace DrawnFrom

variable {n m counter : ℕ} {S T : ℕ → Prop}

/-- Nothing was drawn from a new counter. -/
theorem start (h : ∀ id, ¬S id) : DrawnFrom 0 1 S :=
  ⟨0, le_refl 0, rfl, fun id hid => absurd hid (h id)⟩

/-- **The next id is a new one**, until the counter wraps. -/
theorem fresh (h : DrawnFrom n counter S) (hn : n + 1 < 2 ^ 64) : ¬S counter := by
  obtain ⟨d, hd, rfl, hS⟩ := h
  intro hc
  have hle := hS _ hc
  rw [Nat.mod_eq_of_lt (by omega)] at hle
  omega

/-- One more id is drawn. -/
theorem draw (h : DrawnFrom n counter S) (hn : n + 1 < 2 ^ 64)
    (hT : ∀ id, T id → S id ∨ id = counter) : DrawnFrom (n + 1) (wrappingAdd counter 1) T := by
  obtain ⟨d, hd, rfl, hS⟩ := h
  have hmod : (d + 1) % 2 ^ 64 = d + 1 := Nat.mod_eq_of_lt (by omega)
  refine ⟨d + 1, by omega, by rw [wrappingAdd, hmod], fun id hid => ?_⟩
  rcases hT id hid with hid | rfl
  · exact (hS id hid).trans (Nat.le_succ d)
  · exact hmod.le

/-- No id is drawn. -/
theorem mono (h : DrawnFrom n counter S) (hnm : n ≤ m) (hT : ∀ id, T id → S id) :
    DrawnFrom m counter T := by
  obtain ⟨d, hd, hc, hS⟩ := h
  exact ⟨d, hd.trans hnm, hc, fun id hid => hS id (hT id hid)⟩

/-- A counter stays below its modulus. -/
theorem wrappingAdd_zero (h : DrawnFrom n counter S) : wrappingAdd counter 0 = counter := by
  obtain ⟨d, -, rfl, -⟩ := h
  rw [wrappingAdd, Nat.add_zero, Nat.mod_mod]

end DrawnFrom

/-- Moving a counter on by one more. -/
theorem wrappingAdd_succ (m k : ℕ) : wrappingAdd (wrappingAdd m k) 1 = wrappingAdd m (k + 1) := by
  simp only [wrappingAdd]
  omega

/-! ### What a poll leaves alone -/

section Poll

variable {future polled : OwnedFuture} {ring ring' : Ring} {waker : Waker}
variable {fail : Option SaferRingError} {answer : Poll SafeOutput}

/-- The body of `poll` takes all completions or none, and draws no id. -/
theorem pollOperation_frame (texts : FutureTexts) (operation : Option SafeOperation)
    (ring : Ring) (waker : Waker) (fail : Option SaferRingError) :
    ((pollOperation texts operation ring waker fail).2.2.backend = ring.backend ∨
      (pollOperation texts operation ring waker fail).2.2.backend = ring.backend.drained) ∧
    (pollOperation texts operation ring waker fail).2.2.operations = ring.operations ∧
    (pollOperation texts operation ring waker fail).2.2.nextSubmissionId =
      ring.nextSubmissionId := by
  rcases operation with _ | op
  · exact ⟨Or.inl rfl, rfl, rfl⟩
  have htry := ring.tryCompleteSafeOperation_frame op.submissionId fail
  simp only [pollOperation]
  split
  · exact ⟨Or.inl rfl, rfl, rfl⟩
  split
  · rename_i hcall
    rw [hcall] at htry
    split
    · exact htry
    · exact htry
  · rename_i hcall
    rw [hcall] at htry
    exact htry
  · rename_i hcall
    rw [hcall] at htry
    exact ⟨htry.1, htry.2.1, SafeOperation.nextSubmissionId_drop.trans htry.2.2⟩

/-- **Polling a future takes all completions or none, and draws no id.** -/
theorem OwnedFuture.poll_frame (h : future.poll ring waker fail = some (answer, polled, ring')) :
    (ring'.backend = ring.backend ∨ ring'.backend = ring.backend.drained) ∧
      ring'.operations = ring.operations ∧ ring'.nextSubmissionId = ring.nextSubmissionId := by
  have hframe := pollOperation_frame future.texts future.operation ring waker fail
  have hring : ring' = (pollOperation future.texts future.operation ring waker fail).2.2 := by
    rcases hop : future.operation with _ | op
    · obtain ⟨rfl, -⟩ := poll_of_not_live (fun op hop' => by simp [hop] at hop') h
      rfl
    · rw [OwnedFuture.poll_eq hop] at h
      obtain ⟨-, -, rfl⟩ : _ ∧ _ ∧ _ = ring' := by simpa using h
      rfl
  rwa [← hring] at hframe

/-- Dropping a future takes no completion and draws no id. -/
theorem OwnedFuture.drop_frame (future : OwnedFuture) (ring : Ring) :
    (future.drop ring).backend = ring.backend ∧ (future.drop ring).operations = ring.operations ∧
      (future.drop ring).nextSubmissionId = ring.nextSubmissionId := by
  unfold OwnedFuture.drop
  split
  · exact ⟨rfl, rfl, SafeOperation.nextSubmissionId_drop⟩
  · exact ⟨rfl, rfl, rfl⟩

end Poll

/-! ### Which steps draw a submission id -/

section Draws

variable {w w' : World} {e : Event}

/-- **The legacy interface draws no submission id and touches no orphan**, but for
`process_completions`. -/
theorem legacy_orphanTracker (hstep : Step w e w') (hown : ¬e.action.IsOwned)
    (hproc : e.action ≠ .processCompletions) :
    w'.ring.orphanTracker = w.ring.orphanTracker := by
  obtain ⟨action, response⟩ := e
  cases action with
  | submit operation answer =>
    obtain ⟨-, rfl⟩ := Prod.mk.inj (Option.some.inj hstep)
    exact (w.ring.submit_frame operation answer).2.1
  | submitBatch batch config answers =>
    obtain ⟨result, ring, hcall, hw⟩ := hstep.submitBatch
    have hsub : ∃ k ≤ batch.len, (w.ring.submitBatchStandaloneWithConfig batch config
        answers).2.orphanTracker = w.ring.orphanTracker :=
      Ring.submitBatch_invariant (P := fun _ ring => ring.orphanTracker = w.ring.orphanTracker)
        (fun k operation ring _ _ _ h =>
          (ring.submit_frame operation (answers k)).2.1.trans h) rfl
    obtain ⟨k, -, hk⟩ := hsub
    rw [hcall] at hk
    rcases hw with ⟨_, -, rfl⟩ | ⟨_, -, rfl⟩ <;> exact hk
  | pollBatch | dropBatch | tryComplete | waitForCompletion | tryCompleteById
  | pollOperationCompletion =>
    exact (hstep.collects trivial).orphanTracker
  | processCompletions => exact absurd rfl hproc
  | _ => exact absurd trivial hown

/-- **The submission counter moves with the owned submissions, and with nothing
else.** -/
theorem nextSubmissionId_step (hstep : Step w e w') :
    w'.ring.nextSubmissionId =
      if e.action.DrawsOwned then wrappingAdd w.ring.nextSubmissionId 1
      else w.ring.nextSubmissionId := by
  by_cases hown : e.action.IsOwned
  swap
  · have hdraw : ¬e.action.DrawsOwned := fun h => hown (by
      revert h
      cases e.action <;> simp [Action.DrawsOwned, Action.IsOwned])
    rw [if_neg hdraw]
    by_cases hproc : e.action = .processCompletions
    · obtain ⟨action, response⟩ := e
      have hproc : action = .processCompletions := hproc
      subst hproc
      obtain ⟨-, rfl⟩ := Prod.mk.inj (Option.some.inj hstep)
      rfl
    · rw [Ring.nextSubmissionId, legacy_orphanTracker hstep hown hproc]
  obtain ⟨action, response⟩ := e
  cases action with
  | owned call h answer =>
    obtain ⟨buffer, -, ⟨-, -, rfl⟩ | ⟨-, rfl⟩⟩ := hstep.owned <;> rfl
  | acceptSafe fd addr answer =>
    rcases hstep.acceptSafe with ⟨-, rfl⟩ | ⟨_, -, rfl⟩ <;> rfl
  | pollFuture f waker fail =>
    obtain ⟨_, _, _, _, -, hpoll, -, rfl⟩ := hstep.pollFuture
    exact (OwnedFuture.poll_frame hpoll).2.2
  | dropFuture f =>
    obtain ⟨future, -, rfl⟩ := hstep.dropFuture
    exact (future.drop_frame w.ring).2.2
  | complete i result =>
    obtain ⟨_, -, rfl⟩ := hstep.complete
    rfl
  | newBuffer | fromSlice | cloneHandle | dropHandle | dropGuard | tryAccess =>
    rw [hstep.buffer trivial]
    rfl
  | _ => exact absurd hown (by simp [Action.IsOwned])

end Draws

/-! ### Fewer than 2^64 submissions -/

/-- What a step spends of the submission ids. -/
def submissionCost (e : Event) : ℕ := if e.action.DrawsOwned then 1 else 0

/-- What a run spends of the submission ids is for its actions to say. -/
theorem spent_submissionCost (ms : List (Transition.Move World Event)) :
    Transition.spent submissionCost ms =
      ((actionsOf ms).map fun a => if a.DrawsOwned then 1 else 0).sum := by
  rw [Transition.spent, actionsOf, List.map_map]
  rfl

/-- The submission ids that mean or meant something were drawn. -/
def Numbered (n : ℕ) (w : World) : Prop := DrawnFrom n w.ring.nextSubmissionId w.mailbox.Known

section Numbered

variable {w w' : World} {e : Event} {n : ℕ}

theorem Numbered.new : Numbered 0 World.new := by
  refine DrawnFrom.start fun id hid => ?_
  simp [Mailbox.State.Known, mailbox_new, Mailbox.State.ids, Mailbox.State.inFlight,
    Mailbox.State.deliveredIds] at hid

/-- **Within the budget an id drawn was never in use.** -/
theorem Numbered.not_known (h : Numbered n w) (hn : n + submissionCost e < 2 ^ 64)
    (hdraw : e.action.DrawsOwned) : ¬w.mailbox.Known w.ring.nextSubmissionId := by
  rw [submissionCost, if_pos hdraw] at hn
  exact h.fresh hn

theorem Numbered.drawsUnused (h : Numbered n w) (hn : n + submissionCost e < 2 ^ 64) :
    DrawsUnused w e :=
  fun hdraw => Mailbox.State.unused_of_not_known (h.not_known hn hdraw)

/-- **A step keeps the count.** -/
theorem Numbered.step (h : Numbered n w) (hs : Sound w) (hstep : Step w e w')
    (hspare : SparesOrphans w e) (hn : n + submissionCost e < 2 ^ 64) :
    Numbered (n + submissionCost e) w' := by
  obtain ⟨x, hx, hreads, -⟩ := hs.mailbox_step hstep hspare (h.drawsUnused hn)
  -- an id that means something after the step did so before, or is the one drawn
  have hknown : ∀ id, w'.mailbox.Known id →
      w.mailbox.Known id ∨ e.action.DrawsOwned ∧ id = w.ring.nextSubmissionId := by
    intro id hid
    rcases hid.of_step hx with hid | rfl | rfl
    · exact Or.inl hid
    · exact Or.inr hreads
    · obtain ⟨⟨fd, addr, err, ha⟩, rfl⟩ := hreads
      exact Or.inr ⟨ha ▸ trivial, rfl⟩
  have hnext := nextSubmissionId_step hstep
  by_cases hdraw : e.action.DrawsOwned
  · rw [if_pos hdraw] at hnext
    rw [submissionCost, if_pos hdraw] at hn ⊢
    rw [Numbered, hnext]
    exact DrawnFrom.draw h hn fun id hid => (hknown id hid).imp_right And.right
  · rw [if_neg hdraw] at hnext
    rw [Numbered, hnext]
    exact DrawnFrom.mono h (Nat.le_add_right _ _) fun id hid =>
      (hknown id hid).resolve_right fun hc => hdraw hc.1

/-- **Where every move of a run with fewer than 2^64 submissions stands**: in a sound
world whose next id is a new one. -/
theorem numbered_of_run {ms : List (Transition.Move World Event)} (hrun : Run ms w)
    (hspare : Transition.Guarded SparesOrphans ms)
    (hfew : Transition.spent submissionCost ms < 2 ^ 64) {m : Transition.Move World Event}
    (hm : m ∈ ms) :
    ∃ n, n + submissionCost m.label < 2 ^ 64 ∧ Sound m.before ∧ Numbered n m.before := by
  let Inv : ℕ → World → Prop := fun n w => Sound w ∧ Numbered n w
  have hinv : ∀ n w e w', Step w e w' → SparesOrphans w e → n + submissionCost e < 2 ^ 64 →
      Inv n w → Inv (n + submissionCost e) w' :=
    fun _ _ _ _ hstep hspare hn h =>
      ⟨h.1.step hstep hspare (h.2.drawsUnused hn), h.2.step h.1 hstep hspare hn⟩
  have hnew : Inv 0 World.new := ⟨Sound.new, Numbered.new⟩
  obtain ⟨n, hn, hsound, hnum⟩ := hrun.counted_mem hinv hspare hfew hnew hm
  exact ⟨n, hn, hsound, hnum⟩

/-- **A run with fewer than 2^64 submissions draws unused ids.** -/
theorem drawsUnused_of_run {ms : List (Transition.Move World Event)} (hrun : Run ms w)
    (hspare : Transition.Guarded SparesOrphans ms)
    (hfew : Transition.spent submissionCost ms < 2 ^ 64) :
    Transition.Guarded DrawsUnused ms := by
  intro m hm
  obtain ⟨n, hn, -, hnum⟩ := numbered_of_run hrun hspare hfew hm
  exact hnum.drawsUnused hn

end Numbered

end SaferRing
