import SaferRing.Numbering

/-!
# Nobody lets go of a buffer in flight

As long as an operation is in flight, its buffer has to be kept by the ring's side: by
the future that waits for it, or as an orphan (`SaferRing.Retained`). All of the owned
interface sees to that. The call that does not is `process_completions`, which lets go
of every orphan without looking at a completion; `SaferRing.retained_iff` is that along
a run of the owned interface nothing else ever does.
-/

namespace SaferRing

/-- **The buffer of every operation in flight is kept**, by the live future that waits for
it or by the orphan tracker under its id. -/
def Retained (w : World) : Prop :=
  ∀ r ∈ w.inFlight, ∃ b : OwnedBuffer, r.caller = .owned b.inner ∧
    ((∃ f op, w.Live f op ∧ op.submissionId = r.userData ∧ op.buffer = some b) ∨
      w.ring.orphan r.userData = some b)

/-- The actions of the owned interface, and `process_completions`. -/
def UsesOwned (_ : World) (e : Event) : Prop :=
  e.action.IsOwned ∨ e.action = .processCompletions

/-- **No orphan is in flight** when `process_completions` is called. -/
def NoOrphanInFlight (w : World) (e : Event) : Prop :=
  e.action = .processCompletions → ∀ r ∈ w.inFlight, w.ring.orphan r.userData = none

section Retained

variable {w w' : World} {e : Event}

theorem sparesOrphans_iff (h : UsesOwned w e) : SparesOrphans w e ↔ NoOrphanInFlight w e := by
  constructor
  · rintro (hown | ⟨-, hno⟩) hproc
    · rw [hproc] at hown
      exact absurd hown (by simp [Action.IsOwned])
    · exact hno
  · intro hno
    exact h.imp_right fun hproc => ⟨hproc, hno hproc⟩

/-- What a sound world has in flight is kept. -/
theorem Sound.retained (h : Sound w) : Retained w := by
  intro r hr
  have hmem : r.entry ∈ w.mailbox.inFlight := by
    rw [mailbox_inFlight]
    exact List.mem_map_of_mem hr
  rcases h.coherent.held _ hmem with ⟨f, hf⟩ | ho
  · obtain ⟨op, b, hl, hb, hx⟩ := live_of_mailbox hf
    obtain ⟨hid, hcaller⟩ := Prod.mk.inj hx
    exact ⟨b, hcaller, Or.inl ⟨f, op, hl, hid.symm, hb⟩⟩
  · rw [mailbox_orphan] at ho
    obtain ⟨b, hb, hcaller⟩ := Option.map_eq_some_iff.mp ho
    exact ⟨b, hcaller.symm, Or.inr hb⟩

/-- **Letting go of an orphan in flight leaves its buffer to nobody**: nobody waits for
an orphan. -/
theorem not_retained_of_step (h : Sound w) (hstep : Step w e w') (hbad : ¬NoOrphanInFlight w e) :
    ¬Retained w' := by
  simp only [NoOrphanInFlight, Classical.not_imp, not_forall] at hbad
  obtain ⟨hproc, r, hr, ho⟩ := hbad
  obtain ⟨action, response⟩ := e
  obtain rfl : action = .processCompletions := hproc
  obtain ⟨-, rfl⟩ := Prod.mk.inj (Option.some.inj hstep)
  intro hkept
  obtain ⟨b, -, ⟨f, op, hl, hid, hb⟩ | hcleared⟩ := hkept r hr
  · have hbox : w.mailbox.live f = some (op.submissionId, .owned b.inner) := mailbox_live hl hb
    have hnone : w.mailbox.orphan op.submissionId = none := h.coherent.live_orphan hbox
    rw [hid] at hnone
    exact ho (mailbox_orphan_eq_none.mp hnone)
  · have hnone : w.ring.processCompletions.2.orphan r.userData = none := rfl
    exact absurd (hnone.symm.trans hcleared) (by simp)

end Retained

/-- **Along a run of the owned interface every buffer in flight is kept exactly as long
as `process_completions` is not called while an orphan is in flight.** -/
theorem retained_iff {ms : List (Transition.Move World Event)} {w : World} (hrun : Run ms w)
    (hown : Transition.Guarded UsesOwned ms) (hdraw : Transition.Guarded DrawsUnused ms) :
    Transition.Always Retained World.new ms ↔ Transition.Guarded NoOrphanInFlight ms := by
  have hkeep : ∀ s e t, (Step s e t ∧ UsesOwned s e ∧ DrawsUnused s e) → NoOrphanInFlight s e →
      Sound s → Retained s → Sound t ∧ Retained t := by
    rintro s e t ⟨hstep, huse, hunused⟩ hno hs -
    have hsound : Sound t := hs.step hstep ((sparesOrphans_iff huse).mpr hno) hunused
    exact ⟨hsound, hsound.retained⟩
  have hbreak : ∀ s e t, (Step s e t ∧ UsesOwned s e ∧ DrawsUnused s e) →
      ¬NoOrphanInFlight s e → Sound s → Retained s → ¬Retained t :=
    fun s e t hstep hbad hs _ => not_retained_of_step hs hstep.1 hbad
  exact (hrun.restrict (hown.and hdraw)).always_iff hkeep hbreak Sound.new Sound.new.retained

/-- A read is submitted, its future is dropped, and `process_completions` is called. -/
def discardedOrphan : List Action :=
  [.newBuffer 4096 8, .owned (.readOwned 3) 0 (.ok ()), .dropFuture 0, .processCompletions]

/-- **The orphan is let go of while the kernel still reads into it.** -/
theorem not_retained_discardedOrphan : ∃ ms w, Run ms w ∧ actionsOf ms = discardedOrphan ∧
    Transition.Guarded UsesOwned ms ∧ Transition.spent submissionCost ms < 2 ^ 64 ∧
    ¬Retained w := by
  obtain ⟨⟨ms, w⟩, htrace⟩ : ∃ x, World.new.trace discardedOrphan = some x :=
    Option.isSome_iff_exists.mp (by decide)
  obtain ⟨hrun, hacts⟩ := run_of_trace htrace
  have hend : (World.new.trace discardedOrphan).map
      (fun x => (x.2.inFlightIds, x.2.futures, x.2.ring.orphan 1)) = some ([1], [none], none) := by
    decide
  rw [htrace] at hend
  obtain ⟨hids, hfutures, horphan⟩ :
      w.inFlightIds = [1] ∧ w.futures = [none] ∧ w.ring.orphan 1 = none := by simpa using hend
  refine ⟨ms, w, hrun, hacts, ?_, ?_, fun hkept => ?_⟩
  · refine guarded_of_actions (p := fun a => a.IsOwned ∨ a = .processCompletions)
      (fun _ _ h => h) ?_
    rw [hacts]
    simp [discardedOrphan, Action.IsOwned]
  · rw [spent_submissionCost, hacts]
    decide
  · have hmem : 1 ∈ w.inFlightIds := by
      rw [hids]
      exact List.mem_singleton_self 1
    obtain ⟨r, hr, hid⟩ := Backend.mem_inFlightIds.mp hmem
    obtain ⟨b, -, ⟨f, op, hl, -⟩ | ho⟩ := hkept r hr
    · have hop := hl.1
      rw [hfutures] at hop
      rcases f with _ | f <;> simp [operationAt] at hop
    · rw [hid, horphan] at ho
      exact absurd ho (by simp)

/-- A read is submitted, its future is dropped, the read completes, and the next read of
somebody else takes its completion. -/
def collectedOrphan : List Action :=
  [.newBuffer 4096 8, .newBuffer 8192 8, .owned (.readOwned 3) 0 (.ok ()),
    .owned (.readOwned 4) 0 (.ok ()), .dropFuture 0, .complete 0 (.ok 8), .pollFuture 1 7 none]

/-- All along that run, buffers are kept. -/
theorem retained_collectedOrphan : ∃ ms w, Run ms w ∧ actionsOf ms = collectedOrphan ∧
    Transition.Always Retained World.new ms := by
  obtain ⟨⟨ms, w⟩, htrace⟩ : ∃ x, World.new.trace collectedOrphan = some x :=
    Option.isSome_iff_exists.mp (by decide)
  obtain ⟨hrun, hacts⟩ := run_of_trace htrace
  have howned : ∀ a ∈ actionsOf ms, a.IsOwned := by
    rw [hacts]
    simp [collectedOrphan, Action.IsOwned]
  have hfew : Transition.spent submissionCost ms < 2 ^ 64 := by
    rw [spent_submissionCost, hacts]
    decide
  refine ⟨ms, w, hrun, hacts, ?_⟩
  refine (retained_iff hrun (guarded_of_actions (fun _ _ => Or.inl) howned)
    (drawsUnused_of_run hrun (guarded_of_actions (fun _ _ => Or.inl) howned) hfew)).mpr ?_
  intro m hm hproc
  have hmem := howned m.label.action (List.mem_map_of_mem hm)
  rw [hproc] at hmem
  exact absurd hmem (by simp [Action.IsOwned])

end SaferRing
