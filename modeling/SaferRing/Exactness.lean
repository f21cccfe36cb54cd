import SaferRing.Numbering

/-!
# Nothing is left over

A ring that is used through the owned interface only should hold an orphan for no
operation but one in flight, and a cached result for no future but one that still waits
(`SaferRing.NothingLeft`). Two of its paths leave something behind: `accept_safe`, when
the backend refuses it, drops an operation that was never started and so makes an orphan
of it; and a future that is dropped after its completion was cached makes an orphan of an
operation that is over, and leaves the result. `SaferRing.nothingLeft_iff` is that there
are no others.
-/

namespace SaferRing

/-- **Nothing is left over**: every orphan is in flight, every cached result has a future
that waits for it, and so no orphan is there when nothing is in flight. -/
structure NothingLeft (w : World) : Prop where
  orphan : ∀ id b, w.ring.orphan id = some b → id ∈ w.inFlightIds
  cached : ∀ id v, w.ring.cached id = some v → ∃ f op, w.Live f op ∧ op.submissionId = id
  drained : w.inFlight = [] → w.ring.orphanCount = 0

/-- **A step that leaves nothing over**: it is no refused `accept_safe`, and it drops no
future whose completion is in the cache. -/
def LeavesNothing (w : World) (e : Event) : Prop :=
  (∀ fd addr err, e.action ≠ .acceptSafe fd addr (.error err)) ∧
    ∀ f op, e.action = .dropFuture f → w.Live f op → w.ring.cached op.submissionId = none

section NothingLeft

variable {w w' : World} {e : Event}

/-- That nothing is left over is for the mailbox to say. -/
theorem nothingLeft_iff_exact (hbuf : Buffered w) : NothingLeft w ↔ Mailbox.Exact w.mailbox := by
  constructor
  · intro h
    refine ⟨fun {id c} hc => ?_, fun {id v} hv => ?_⟩
    · rw [mailbox_orphan] at hc
      obtain ⟨b, hb, -⟩ := Option.map_eq_some_iff.mp hc
      rw [mailbox_ids]
      exact h.orphan id b hb
    · obtain ⟨f, op, hl, hid⟩ := h.cached id v hv
      obtain ⟨b, hb⟩ := hbuf f op hl.1
      exact ⟨f, _, mailbox_live hl hb, hid⟩
  · intro h
    refine ⟨fun id b hb => ?_, fun id v hv => ?_, fun hnone => ?_⟩
    · have ho : w.mailbox.orphan id = some (.owned b.inner) := by rw [mailbox_orphan, hb]; rfl
      rw [← mailbox_ids]
      exact h.orphan_inFlight ho
    · obtain ⟨f, x, hf, hx⟩ := h.kept_live hv
      obtain ⟨op, b, hl, -, rfl⟩ := live_of_mailbox hf
      exact ⟨f, op, hl, hx⟩
    · refine OrphanTracker.orphanCount_eq_zero.mpr fun id => ?_
      exact mailbox_orphan_eq_none.mp
        (h.orphan_eq_none (by rw [mailbox_inFlight, hnone]; rfl) id)

theorem NothingLeft.new : NothingLeft World.new := by
  refine (nothingLeft_iff_exact Sound.new.buffered).mpr ⟨?_, ?_⟩
  · exact fun h => absurd h (by simp [mailbox_new])
  · exact fun h => absurd h (by simp [mailbox_new])

end NothingLeft

end SaferRing
