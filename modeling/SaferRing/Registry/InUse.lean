import SaferRing.Registry

/-!
# What is in use stays registered

What is in use should stay so, and its slot as it is, whatever is called but the function that
marks it no longer in use (`SaferRing.Registry.Protects`). Unregistering is refused for it. But
registering fixed files or buffer slots replaces those there are, in use or not
(`SaferRing.Call.Replaces`); and in a table of `2 ^ 32` slots an index is cut, and a slot in use
is written over (`SaferRing.Registry.WritesOver`). There are no other exceptions:
`SaferRing.Registry.protects_iff`.
-/

namespace SaferRing

/-- A call marks an index of a kind no longer in use. -/
def Call.Unmarks (kind : ResourceKind) (i : UInt32) : Call → Prop
  | .markNotInUse handle => handle.kind = kind ∧ handle.index = i
  | _ => False

/-- **A call registers everything of a kind anew.** -/
def Call.Replaces (kind : ResourceKind) : Call → Prop
  | .registerFixedFiles fds => kind = .fixedFile ∧ fds ≠ [] ∧ ∀ fd ∈ fds, 0 ≤ fd
  | .registerBufferSlots buffers => kind = .bufferSlot ∧ buffers ≠ []
  | _ => False

instance (kind : ResourceKind) : DecidablePred (Call.Replaces kind)
  | .registerFixedFiles fds =>
    inferInstanceAs (Decidable (kind = .fixedFile ∧ fds ≠ [] ∧ ∀ fd ∈ fds, 0 ≤ fd))
  | .registerBufferSlots buffers =>
    inferInstanceAs (Decidable (kind = .bufferSlot ∧ buffers ≠ []))
  | .registerFd _ | .registerBuffer _ | .unregisterFd _ | .unregisterBuffer _
  | .unregisterFixedFiles | .unregisterBufferSlots | .markInUse _ | .markNotInUse _ =>
    inferInstanceAs (Decidable False)

namespace Registry

/-- **A call registers something else at an index**, cut from a position of more than 32
bits. -/
def WritesOver (self : Registry) (kind : ResourceKind) (i : UInt32) : Call → Prop
  | .registerFd fd => kind = .fd ∧ 0 ≤ fd ∧ 2 ^ 32 ≤ self.registeredFds.slots.length ∧
    self.registeredFds.nextIndex = i ∧ self.registeredFds.get i ≠ some fd
  | .registerBuffer buffer => kind = .buffer ∧ buffer.bytes ≠ [] ∧
    2 ^ 32 ≤ self.registeredBuffers.slots.length ∧
    self.registeredBuffers.nextIndex = i ∧ self.registeredBuffers.get i ≠ some buffer
  | _ => False

/-- **A call protects an index in use**: it stays in use, and what is in its slot stays
there. -/
def Protects (self : Registry) (kind : ResourceKind) (i : UInt32) (c : Call) : Prop :=
  i ∈ ((self.call c).table kind).inUse ∧
    ((self.call c).table kind).get i = (self.table kind).get i

variable {self : Registry} {kind : ResourceKind} {i : UInt32} {c : Call}

/-- **The calls that spoil a mark of their kind.** -/
theorem Sound.spoils_iff (h : self.Sound) (huse : i ∈ (self.table c.kind).inUse) :
    self.Effective c ∧ (self.table c.kind).Spoils i c.move ↔
      c.Unmarks c.kind i ∨ c.Replaces c.kind ∨ self.WritesOver c.kind i c := by
  cases c with
  | registerFd fd =>
    constructor
    · rintro ⟨⟨hvalid, -⟩, hindex, hother⟩
      have hlen := (h .fd).two_pow_le (hindex ▸ huse)
      exact Or.inr (Or.inr ⟨rfl, hvalid, hlen, hindex, hother⟩)
    · rintro (hc | hc | ⟨-, hvalid, -, hspoils⟩)
      · exact hc.elim
      · exact hc.elim
      · exact ⟨⟨hvalid, trivial⟩, hspoils⟩
  | registerBuffer buffer =>
    constructor
    · rintro ⟨⟨hvalid, -⟩, hindex, hother⟩
      have hlen := (h .buffer).two_pow_le (hindex ▸ huse)
      exact Or.inr (Or.inr ⟨rfl, hvalid, hlen, hindex, hother⟩)
    · rintro (hc | hc | ⟨-, hvalid, -, hspoils⟩)
      · exact hc.elim
      · exact hc.elim
      · exact ⟨⟨hvalid, trivial⟩, hspoils⟩
  | registerFixedFiles fds =>
    constructor
    · rintro ⟨⟨hvalid, -⟩, -⟩
      exact Or.inr (Or.inl ⟨rfl, hvalid⟩)
    · rintro (hc | ⟨-, hvalid⟩ | hc)
      · exact hc.elim
      · exact ⟨⟨hvalid, trivial⟩, trivial⟩
      · exact hc.elim
  | registerBufferSlots buffers =>
    constructor
    · rintro ⟨⟨hvalid, -⟩, -⟩
      exact Or.inr (Or.inl ⟨rfl, hvalid⟩)
    · rintro (hc | ⟨-, hvalid⟩ | hc)
      · exact hc.elim
      · exact ⟨⟨hvalid, trivial⟩, trivial⟩
      · exact hc.elim
  | markNotInUse handle =>
    constructor
    · rintro ⟨-, hspoils⟩
      exact Or.inl ⟨rfl, hspoils⟩
    · rintro (⟨-, hindex⟩ | hc | hc)
      · exact ⟨⟨trivial, trivial⟩, hindex⟩
      · exact hc.elim
      · exact hc.elim
  | _ =>
    -- emptying a slot and marking one spoil nothing
    refine iff_of_false (fun hc => hc.2) ?_
    rintro (hc | hc | hc)
    all_goals exact hc

/-- They spoil no mark of another kind. -/
theorem kind_of_spoils (h : c.Replaces kind ∨ self.WritesOver kind i c) : c.kind = kind := by
  cases c with
  | registerFd fd => exact h.elim False.elim fun h => h.1.symm
  | registerBuffer buffer => exact h.elim False.elim fun h => h.1.symm
  | registerFixedFiles fds => exact h.elim (fun h => h.1.symm) False.elim
  | registerBufferSlots buffers => exact h.elim (fun h => h.1.symm) False.elim
  | _ => exact h.elim False.elim False.elim

/-- **What is in use is protected from every call but its own**, unless everything of its kind is
registered anew, or something else at its index. -/
theorem protects_iff {ms : List (Transition.Move Registry Call)}
    (hrun : Transition.Run Step new ms self) (huse : i ∈ (self.table kind).inUse)
    (hother : ¬c.Unmarks kind i) :
    self.Protects kind i c ↔ ¬c.Replaces kind ∧ ¬self.WritesOver kind i c := by
  rw [← not_or]
  by_cases hk : c.kind = kind
  swap
  -- the call is about something else
  · refine iff_of_true ?_ fun h => hk (kind_of_spoils h)
    rw [Protects, table_call_of_ne hk]
    exact ⟨huse, rfl⟩
  subst hk
  have hspoils := (sound_of_run hrun).spoils_iff huse
  rw [or_iff_right hother] at hspoils
  rw [← hspoils]
  rcases self.table_call c with ⟨heff, ht⟩ | ⟨hnot, ht⟩
  · rw [and_iff_right heff, Protects, ht]
    exact SlotTable.keeps_iff huse heff.2
  · refine iff_of_true ?_ fun h => hnot h.1
    rw [Protects, ht]
    exact ⟨huse, rfl⟩

/-- A descriptor is registered and marked in use. -/
def fdInUse : List Call := [.registerFd 3, .markInUse (.fd ⟨0, 3⟩)]

/-- **It cannot be unregistered.** -/
theorem protects_unregisterFd : ∃ ms registry,
    Transition.Run Step new ms registry ∧ ms.map Transition.Move.label = fdInUse ∧
    0 ∈ (registry.table .fd).inUse ∧ registry.Protects .fd 0 (.unregisterFd ⟨0, 3⟩) := by
  have hrun : Transition.Run Step new _ _ :=
    ((Transition.Run.nil new).snoc (a := .registerFd 3) rfl).snoc
      (a := .markInUse (.fd ⟨0, 3⟩)) rfl
  have huse :
      0 ∈ (((new.call (.registerFd 3)).call (.markInUse (.fd ⟨0, 3⟩))).table .fd).inUse := by
    decide
  exact ⟨_, _, hrun, rfl, huse, (protects_iff hrun huse id).mpr ⟨id, id⟩⟩

/-- A fixed file is registered and marked in use. -/
def fixedFileInUse : List Call := [.registerFixedFiles [3], .markInUse (.fixedFile ⟨0, 3⟩)]

/-- **Registering another takes its place**, though it is in use. -/
theorem not_protects_registerFixedFiles : ∃ ms registry,
    Transition.Run Step new ms registry ∧ ms.map Transition.Move.label = fixedFileInUse ∧
    0 ∈ (registry.table .fixedFile).inUse ∧
    (registry.table .fixedFile).get 0 = some (3 : ℤ) ∧
    ((registry.call (.registerFixedFiles [4])).table .fixedFile).get 0 = some (4 : ℤ) ∧
    ¬registry.Protects .fixedFile 0 (.registerFixedFiles [4]) := by
  have hrun : Transition.Run Step new _ _ :=
    ((Transition.Run.nil new).snoc (a := .registerFixedFiles [3]) rfl).snoc
      (a := .markInUse (.fixedFile ⟨0, 3⟩)) rfl
  refine ⟨_, _, hrun, rfl, by decide, rfl, rfl, fun h => ?_⟩
  exact absurd h.1 (by decide)

end Registry

end SaferRing
