import SaferRing.Registry.InUse

/-!
# The operations that use a registry

Each operation marks what it uses when it is submitted, and marks it no longer in use when it
completes (`SaferRing.Users`). As long as one has not completed, unregistering what it uses
should be refused (`SaferRing.Users.Refused`). But a mark does not count: the first of several
operations to complete takes the mark of all away. `SaferRing.Users.refused_iff` says when that
does not happen: when an operation that completes is the only one on what it uses, or, since
fixed files and buffer slots are unregistered all at once, leaves another index of its kind
marked; and when none of these are registered anew while operations use them.
-/

namespace SaferRing

/-- **A registry and the operations that use it.** -/
structure Users where
  /-- The registry. -/
  registry : Registry
  /-- What the operations use that were submitted and have not completed. -/
  outstanding : List Handle

/-- Whether a call marks something, or takes a mark away. -/
def Call.isMark : Call → Bool
  | .markInUse _ | .markNotInUse _ => true
  | _ => false

namespace Users

/-- What happens. -/
inductive Event
  /-- An operation is submitted. -/
  | submitted (handle : Handle)
  /-- An operation completes. -/
  | completed (handle : Handle)
  /-- Something is registered or unregistered. -/
  | called (c : Call)

/-- Nothing is registered. -/
def new : Users := ⟨.new, []⟩

/-- **What happens to the registry and the operations**, if it can happen. An operation on what
is not registered is not submitted. -/
def step (self : Users) : Event → Option Users
  | .submitted handle =>
    let (result, registry) := self.registry.markInUse handle
    match result with
    | .ok () => some ⟨registry, handle :: self.outstanding⟩
    | .error _ => some { self with registry }
  | .completed handle =>
    if handle ∈ self.outstanding then
      some ⟨self.registry.markNotInUse handle, self.outstanding.erase handle⟩
    else none
  | .called c => if c.isMark then none else some { self with registry := self.registry.call c }

/-- The step relation. -/
abbrev Step (s : Users) (e : Event) (t : Users) : Prop := s.step e = some t

end Users

/-- **Unregistering what a handle names is refused**, as it is in use: by the handle it is
registered with, or, of fixed files and buffer slots, all at once. -/
def Registry.Refuses (self : Registry) : Handle → Prop
  | .fd h => ∃ fd, self.registeredFds.get h.index = some fd ∧
    (self.unregisterFd ⟨h.index, fd⟩).1 = .error .bufferInFlight
  | .buffer h => ∃ buffer, self.registeredBuffers.get h.index = some buffer ∧
    (self.unregisterBuffer ⟨h.index, buffer.bytes.length⟩).1 = .error .bufferInFlight
  | .fixedFile _ => self.unregisterFixedFiles.1 = .error .bufferInFlight
  | .bufferSlot _ => self.unregisterBufferSlots.1 = .error .bufferInFlight

/-- Whether a kind is unregistered all at once. -/
def ResourceKind.isBulk : ResourceKind → Bool
  | .fd | .buffer => false
  | .fixedFile | .bufferSlot => true

namespace Users

/-- **Unregistering what an operation uses is refused.** -/
def Refused (s : Users) : Prop := ∀ handle ∈ s.outstanding, s.registry.Refuses handle

/-- **A step does not forget an operation**: one that completes is the only one on what it uses,
or leaves another index of a kind that is unregistered all at once; and nothing that is used
is registered anew. -/
def Counts (s : Users) : Event → Prop
  | .submitted _ => True
  | .completed handle =>
    if handle.kind.isBulk then
      (∀ other ∈ s.outstanding.erase handle, other.kind ≠ handle.kind) ∨
        ∃ i ∈ (s.registry.table handle.kind).inUse, i ≠ handle.index
    else ∀ other ∈ s.outstanding.erase handle, other.kind = handle.kind →
      other.index ≠ handle.index
  | .called c => ∀ handle ∈ s.outstanding, ¬c.Replaces handle.kind

instance (s : Users) : DecidablePred (Counts s)
  | .submitted _ => inferInstanceAs (Decidable True)
  | .completed handle => inferInstanceAs (Decidable (if handle.kind.isBulk then
      (∀ other ∈ s.outstanding.erase handle, other.kind ≠ handle.kind) ∨
        ∃ i ∈ (s.registry.table handle.kind).inUse, i ≠ handle.index
    else ∀ other ∈ s.outstanding.erase handle, other.kind = handle.kind →
      other.index ≠ handle.index))
  | .called c => inferInstanceAs (Decidable (∀ handle ∈ s.outstanding, ¬c.Replaces handle.kind))

end Users

namespace Registry

variable {self : Registry} {kind : ResourceKind} {c : Call}

/-- A mark that has unregistering refused. -/
def Holds (self : Registry) (handle : Handle) : Prop :=
  if handle.kind.isBulk then (self.table handle.kind).inUse ≠ ∅
  else handle.index ∈ (self.table handle.kind).inUse

theorem holds_of_bulk {handle : Handle} (h : handle.kind.isBulk) :
    self.Holds handle ↔ (self.table handle.kind).inUse ≠ ∅ := by
  rw [Holds, if_pos h]

theorem holds_of_not_bulk {handle : Handle} (h : ¬handle.kind.isBulk) :
    self.Holds handle ↔ handle.index ∈ (self.table handle.kind).inUse := by
  rw [Holds, if_neg h]

/-- **A mark of the index holds**, of every kind. -/
theorem holds_of_mem {handle : Handle}
    (h : handle.index ∈ (self.table handle.kind).inUse) : self.Holds handle := by
  by_cases hbulk : handle.kind.isBulk
  · exact (holds_of_bulk hbulk).mpr (Finset.ne_empty_of_mem h)
  · exact (holds_of_not_bulk hbulk).mpr h

/-- Where a mark holds something is in use. -/
theorem Holds.ne_empty {handle : Handle} (h : self.Holds handle) :
    (self.table handle.kind).inUse ≠ ∅ := by
  by_cases hbulk : handle.kind.isBulk
  · exact (holds_of_bulk hbulk).mp h
  · exact Finset.ne_empty_of_mem ((holds_of_not_bulk hbulk).mp h)

/-- A mark that holds goes on to hold when nothing is marked less. -/
theorem Holds.mono {next : Registry} {handle : Handle} (hholds : self.Holds handle)
    (h : (self.table handle.kind).inUse ⊆ (next.table handle.kind).inUse) :
    next.Holds handle := by
  by_cases hbulk : handle.kind.isBulk
  · rw [holds_of_bulk hbulk] at hholds ⊢
    intro hempty
    rw [hempty] at h
    exact hholds (Finset.subset_empty.mp h)
  · rw [holds_of_not_bulk hbulk] at hholds ⊢
    exact h hholds

/-- Unregistering is refused for what is in use. -/
theorem unregisterSlot_eq {α : Type} (table : SlotTable α) (index : UInt32) {a : α}
    (h : table.get index = some a) (isOfHandle : α → Prop) [DecidablePred isOfHandle]
    (ha : isOfHandle a) :
    (unregisterSlot table index isOfHandle).1 = .error .bufferInFlight ↔ index ∈ table.inUse := by
  rw [unregisterSlot_of_get table index h isOfHandle ha]
  by_cases huse : index ∈ table.inUse
  · simp [huse]
  · simp [huse]

/-- Unregistering everything is refused when something is in use. -/
theorem unregisterSlots_eq {α : Type} (table : SlotTable α) :
    (unregisterSlots table).1 = .error .bufferInFlight ↔ table.inUse ≠ ∅ := by
  rw [unregisterSlots]
  by_cases huse : table.inUse = ∅
  · rw [if_neg (not_not.mpr huse)]
    simp [huse]
  · rw [if_pos huse]
    simp [huse]

/-- What is done with the answer leaves an error alone. -/
theorem map_eq_error {α β ε : Type} (f : α → β) {x : Except ε α} {e : ε} :
    x.map f = .error e ↔ x = .error e := by
  cases x <;> simp [Except.map]

/-- **A sound registry refuses exactly where a mark holds.** -/
theorem Sound.refuses_iff (h : self.Sound) (handle : Handle) :
    self.Refuses handle ↔ self.Holds handle := by
  cases handle with
  | fd registeredFd =>
    have hiff : ∀ fd, self.registeredFds.get registeredFd.index = some fd →
        ((self.unregisterFd ⟨registeredFd.index, fd⟩).1 = .error .bufferInFlight ↔
          registeredFd.index ∈ self.registeredFds.inUse) := fun fd hget =>
      (map_eq_error _).trans (unregisterSlot_eq _ _ hget (fun storedFd => storedFd = fd) rfl)
    constructor
    · rintro ⟨fd, hget, herror⟩
      exact (hiff fd hget).mp herror
    · intro huse
      obtain ⟨fd, hget⟩ := Option.isSome_iff_exists.mp (h .fd _ huse)
      exact ⟨fd, hget, (hiff fd hget).mpr huse⟩
  | buffer registeredBuffer =>
    have hiff : ∀ buffer, self.registeredBuffers.get registeredBuffer.index = some buffer →
        ((self.unregisterBuffer ⟨registeredBuffer.index, buffer.bytes.length⟩).1 =
          .error .bufferInFlight ↔ registeredBuffer.index ∈ self.registeredBuffers.inUse) :=
      fun buffer hget => unregisterSlot_eq _ _ hget
        (fun stored => stored.bytes.length = buffer.bytes.length) rfl
    constructor
    · rintro ⟨buffer, hget, herror⟩
      exact (hiff buffer hget).mp herror
    · intro huse
      obtain ⟨buffer, hget⟩ := Option.isSome_iff_exists.mp (h .buffer _ huse)
      exact ⟨buffer, hget, (hiff buffer hget).mpr huse⟩
  | fixedFile fixedFile => exact (map_eq_error _).trans (unregisterSlots_eq _)
  | bufferSlot bufferSlot => exact unregisterSlots_eq _

/-- Registering everything of a kind anew is about that kind, and is done. -/
theorem effective_of_replaces (h : c.Replaces kind) : self.Effective c ∧ c.kind = kind := by
  cases c with
  | registerFixedFiles fds => exact ⟨⟨h.2, trivial⟩, h.1.symm⟩
  | registerBufferSlots buffers => exact ⟨⟨h.2, trivial⟩, h.1.symm⟩
  | _ => exact h.elim

/-- **Registering everything of a kind anew takes all marks away.** -/
theorem inUse_of_replaces (h : c.Replaces kind) : ((self.call c).table kind).inUse = ∅ := by
  obtain ⟨heff, rfl⟩ : self.Effective c ∧ c.kind = kind := effective_of_replaces h
  rcases self.table_call c with ⟨-, ht⟩ | ⟨hnot, -⟩
  · rw [ht]
    cases c with
    | registerFixedFiles fds => rfl
    | registerBufferSlots buffers => rfl
    | _ => exact h.elim
  · exact absurd heff hnot

/-- **Nothing else but a mark changes what is in use.** -/
theorem inUse_call (hmark : c.isMark = false) (h : ¬c.Replaces kind) :
    ((self.call c).table kind).inUse = (self.table kind).inUse := by
  by_cases hk : c.kind = kind
  swap
  · rw [table_call_of_ne hk]
  subst hk
  rcases self.table_call c with ⟨heff, ht⟩ | ⟨-, ht⟩
  · rw [ht]
    cases c with
    | registerFixedFiles fds => exact absurd ⟨rfl, heff.1⟩ h
    | registerBufferSlots buffers => exact absurd ⟨rfl, heff.1⟩ h
    | markInUse handle => exact absurd hmark (by simp [Call.isMark])
    | markNotInUse handle => exact absurd hmark (by simp [Call.isMark])
    | _ => rfl
  · rw [ht]

/-- Marking takes no mark away. -/
theorem inUse_subset_markInUse (handle : Handle) (kind : ResourceKind) :
    (self.table kind).inUse ⊆ ((self.markInUse handle).2.table kind).inUse := by
  by_cases hk : handle.kind = kind
  · subst hk
    rcases self.markInUse_cases handle with ⟨-, -, ht⟩ | ⟨-, -, ht⟩
    · rw [ht]
      exact Finset.subset_insert _ _
    · rw [ht]
  · exact (congrArg SlotTable.inUse (table_call_of_ne (c := .markInUse handle) hk)).ge

/-- What an operation that completes takes away. -/
theorem table_markNotInUse (handle : Handle) : (self.markNotInUse handle).table handle.kind =
    (self.table handle.kind).unmark handle.index := by
  cases handle <;> rfl

/-- **Whether a mark still holds once an operation completed.** -/
theorem holds_markNotInUse {handle other : Handle} (hholds : self.Holds other) :
    (self.markNotInUse handle).Holds other ↔ (other.kind = handle.kind →
      if handle.kind.isBulk then ∃ i ∈ (self.table handle.kind).inUse, i ≠ handle.index
      else other.index ≠ handle.index) := by
  by_cases hk : other.kind = handle.kind
  swap
  · refine iff_of_true (hholds.mono ?_) fun h => absurd h hk
    exact (congrArg SlotTable.inUse
      (table_call_of_ne (c := .markNotInUse handle) fun h => hk h.symm)).ge
  have htable : ((self.markNotInUse handle).table other.kind).inUse =
      (self.table other.kind).inUse.erase handle.index := by
    rw [hk, table_markNotInUse]
    rfl
  rw [imp_iff_right hk]
  by_cases hbulk : other.kind.isBulk
  · rw [holds_of_bulk hbulk, htable, if_pos (hk ▸ hbulk), hk, ← Finset.nonempty_iff_ne_empty]
    constructor
    · rintro ⟨i, hi⟩
      exact ⟨i, Finset.mem_of_mem_erase hi, Finset.ne_of_mem_erase hi⟩
    · rintro ⟨i, hi, hne⟩
      exact ⟨i, Finset.mem_erase.mpr ⟨hne, hi⟩⟩
  · rw [holds_of_not_bulk hbulk] at hholds ⊢
    rw [htable, if_neg (hk ▸ hbulk), Finset.mem_erase, and_iff_left hholds]

end Registry

namespace Users

variable {s t : Users} {e : Event}

/-- A mark holds for every operation. -/
def Held (s : Users) : Prop := ∀ handle ∈ s.outstanding, s.registry.Holds handle

/-- Of a sound registry it is to be said which marks hold. -/
theorem refused_iff_held (h : s.registry.Sound) : s.Refused ↔ s.Held :=
  forall₂_congr fun handle _ => h.refuses_iff handle

/-- Each step is a call of the registry. -/
theorem registry_step (h : Step s e t) : ∃ c, t.registry = s.registry.call c := by
  cases e with
  | submitted handle =>
    refine ⟨.markInUse handle, ?_⟩
    rw [Step, step] at h
    rcases s.registry.markInUse_cases handle with ⟨-, hok, -⟩ | ⟨-, herror, -⟩
    · simp only [hok, Option.some.injEq] at h
      obtain rfl := h
      rfl
    · simp only [herror, Option.some.injEq] at h
      obtain rfl := h
      rfl
  | completed handle =>
    rw [Step, step, Option.ite_none_right_eq_some, Option.some_inj] at h
    obtain ⟨-, rfl⟩ := h
    exact ⟨.markNotInUse handle, rfl⟩
  | called c =>
    rw [Step, step, Option.ite_none_left_eq_some, Option.some_inj] at h
    obtain ⟨-, rfl⟩ := h
    exact ⟨c, rfl⟩

/-- **Submitting an operation keeps every mark**, and marks what it uses. -/
theorem held_submitted {handle : Handle} (hstep : Step s (.submitted handle) t) (hs : s.Held) :
    t.Held := by
  have hmono : ∀ other ∈ s.outstanding, (s.registry.markInUse handle).2.Holds other :=
    fun other hmem => (hs other hmem).mono (Registry.inUse_subset_markInUse _ _)
  rw [Step, step] at hstep
  rcases s.registry.markInUse_cases handle with ⟨-, hok, ht⟩ | ⟨-, herror, -⟩
  · simp only [hok, Option.some.injEq] at hstep
    obtain rfl := hstep
    intro other hmem
    rcases List.mem_cons.mp hmem with rfl | hmem
    · refine Registry.holds_of_mem ?_
      rw [ht]
      exact Finset.mem_insert_self _ _
    · exact hmono other hmem
  · simp only [herror, Option.some.injEq] at hstep
    obtain rfl := hstep
    exact hmono

/-- **An operation that completes leaves the others their marks exactly when it counts.** -/
theorem held_completed {handle : Handle} (hstep : Step s (.completed handle) t) (hs : s.Held) :
    t.Held ↔ Counts s (.completed handle) := by
  rw [Step, step, Option.ite_none_right_eq_some, Option.some_inj] at hstep
  obtain ⟨-, rfl⟩ := hstep
  have hiff : (∀ other ∈ s.outstanding.erase handle,
      (s.registry.markNotInUse handle).Holds other) ↔
      ∀ other ∈ s.outstanding.erase handle, other.kind = handle.kind →
        if handle.kind.isBulk then
          ∃ i ∈ (s.registry.table handle.kind).inUse, i ≠ handle.index
        else other.index ≠ handle.index :=
    forall₂_congr fun other hmem =>
      Registry.holds_markNotInUse (hs other (List.mem_of_mem_erase hmem))
  rw [Held, hiff, Counts]
  split
  · constructor
    · intro h
      by_cases hother : ∃ other ∈ s.outstanding.erase handle, other.kind = handle.kind
      · obtain ⟨other, hmem, hk⟩ := hother
        exact Or.inr (h other hmem hk)
      · exact Or.inl fun other hmem hk => hother ⟨other, hmem, hk⟩
    · rintro (hnone | hindex) other hmem hk
      · exact absurd hk (hnone other hmem)
      · exact hindex
  · exact Iff.rfl

/-- **A call leaves the marks exactly when it registers nothing anew that is used.** -/
theorem held_called {c : Call} (hstep : Step s (.called c) t) (hs : s.Held) :
    t.Held ↔ Counts s (.called c) := by
  rw [Step, step, Option.ite_none_left_eq_some, Option.some_inj] at hstep
  obtain ⟨hmark, rfl⟩ := hstep
  refine forall₂_congr fun handle hmem => ?_
  by_cases hreplaces : c.Replaces handle.kind
  · refine iff_of_false (fun h => ?_) (not_not.mpr hreplaces)
    exact h.ne_empty (Registry.inUse_of_replaces hreplaces)
  · refine iff_of_true ((hs handle hmem).mono ?_) hreplaces
    rw [Registry.inUse_call (by simpa using hmark) hreplaces]

/-- **A step keeps unregistering refused exactly when it does not forget an operation.** -/
theorem refused_step (hstep : Step s e t) (hsound : s.registry.Sound) (hs : s.Refused) :
    t.registry.Sound ∧ (t.Refused ↔ Counts s e) := by
  obtain ⟨c, hc⟩ := registry_step hstep
  have hkept : t.registry.Sound := hc ▸ hsound.call c
  have hheld : s.Held := (refused_iff_held hsound).mp hs
  refine ⟨hkept, (refused_iff_held hkept).trans ?_⟩
  cases e with
  | submitted handle => exact iff_of_true (held_submitted hstep hheld) trivial
  | completed handle => exact held_completed hstep hheld
  | called c => exact held_called hstep hheld

/-- **Unregistering what operations use is refused all along exactly when no step forgets an
operation.** -/
theorem refused_iff {ms : List (Transition.Move Users Event)}
    (hrun : Transition.Run Step new ms s) :
    Transition.Always Refused new ms ↔ Transition.Guarded Counts ms := by
  let Inv : Users → Prop := fun s => s.registry.Sound
  have hexact : ∀ s e t, Step s e t → Inv s → s.Refused → Inv t ∧ (t.Refused ↔ Counts s e) :=
    fun s e t hstep hsound hs => refused_step hstep hsound hs
  refine hrun.always_iff_step hexact Registry.sound_new fun handle hmem => ?_
  exact absurd hmem (by simp [new])

/-- Two operations on different descriptors, of which one completes. -/
def twoDescriptors : List Event :=
  [.called (.registerFd 3), .called (.registerFd 4), .submitted (.fd ⟨0, 3⟩),
    .submitted (.fd ⟨1, 4⟩), .completed (.fd ⟨0, 3⟩)]

/-- **Unregistering the other is refused.** -/
theorem refused_twoDescriptors : ∃ ms s, Transition.Run Step new ms s ∧
    ms.map Transition.Move.label = twoDescriptors ∧ s.outstanding = [.fd ⟨1, 4⟩] ∧
    Transition.Always Refused new ms := by
  have hend : (Transition.trace step new twoDescriptors).map (fun x =>
      (x.2.outstanding, x.1.all fun m => decide (Counts m.before m.label))) =
        some ([.fd ⟨1, 4⟩], true) := by
    decide
  obtain ⟨⟨ms, s⟩, htrace, hend⟩ := Option.map_eq_some_iff.mp hend
  obtain ⟨houtstanding, hcounts⟩ := Prod.mk.inj hend
  obtain ⟨hrun, hevents⟩ := Transition.run_of_trace htrace
  exact ⟨ms, s, hrun, hevents, houtstanding, (refused_iff hrun).mpr fun m hm =>
    of_decide_eq_true (List.all_eq_true.mp hcounts m hm)⟩

/-- Two operations on one descriptor, of which one completes. -/
def oneDescriptor : List Event :=
  [.called (.registerFd 3), .submitted (.fd ⟨0, 3⟩), .submitted (.fd ⟨0, 3⟩),
    .completed (.fd ⟨0, 3⟩)]

/-- **Unregistering it is not refused**, though the other has not completed. -/
theorem not_refused_oneDescriptor : ∃ ms s, Transition.Run Step new ms s ∧
    ms.map Transition.Move.label = oneDescriptor ∧ s.outstanding = [.fd ⟨0, 3⟩] ∧
    (s.registry.unregisterFd ⟨0, 3⟩).1.toOption = some () ∧ ¬s.Refused := by
  have hend : (Transition.trace step new oneDescriptor).map (fun x =>
      (x.2.outstanding, (x.2.registry.unregisterFd ⟨0, 3⟩).1.toOption,
        x.2.registry.registeredFds.get 0)) = some ([.fd ⟨0, 3⟩], some (), some 3) := by
    decide
  obtain ⟨⟨ms, s⟩, htrace, hend⟩ := Option.map_eq_some_iff.mp hend
  obtain ⟨houtstanding, hend⟩ := Prod.mk.inj hend
  obtain ⟨hok, hget⟩ := Prod.mk.inj hend
  obtain ⟨hrun, hevents⟩ := Transition.run_of_trace htrace
  refine ⟨ms, s, hrun, hevents, houtstanding, hok, fun hs => ?_⟩
  obtain ⟨fd, hfd, herror⟩ := hs (.fd ⟨0, 3⟩) (houtstanding ▸ List.mem_singleton_self _)
  obtain rfl := Option.some.inj (hget.symm.trans hfd)
  rw [herror] at hok
  exact absurd hok (by simp [Except.toOption])

end Users

end SaferRing
