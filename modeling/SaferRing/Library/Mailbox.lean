import Mathlib.Data.List.Nodup
import Mathlib.Data.List.Perm.Basic
import Mathlib.Logic.Function.Basic

/-!
# Waiting for completions that come in each other's company

Operations are in flight under ids, each with a resource it works on. Waiters wait
for them; whoever collects completions collects everybody's. A completion that is
not the collector's own is *kept* for the waiter it belongs to; a waiter that leaves
early leaves an *orphan* behind, which holds the resource until the completion
comes. Nothing in this file is about a program: ids `ι`, resources `β` and results
`ρ` are arbitrary, and so is what a result is copied into when it is kept.

`Mailbox.Step` says what can happen. Three bodies of facts hold of its runs.

* `Mailbox.Coherent.step` – **nothing in flight is let go of**: as long as ids are
  not reused while they mean something, and no orphan in flight is discarded, the
  resource of every operation in flight is held by its waiter or by its orphan.
* `Mailbox.Exact.step` and `Mailbox.not_exact_of_step` – **nothing is left over**,
  neither an orphan that is not in flight nor a result nobody waits for, exactly as
  long as no waiter leaves after its result was kept and no orphan is made for an
  operation that never was in flight.
* `Mailbox.Tracked.step` and `Mailbox.Tracked.resolve` – **every waiter gets its own
  result**, when no id is ever used twice; `Mailbox.Tracked.settled` and
  `Mailbox.Settled.step` – and it gets it once.
-/

namespace Mailbox

variable {ι β ρ : Type*}

/-! ### States and steps -/

/-- **The state of a mailbox.** -/
@[ext] structure State (ι β ρ : Type*) where
  /-- The operations under way, with their resources. -/
  pending : List (ι × β)
  /-- The completions to be collected. -/
  ready : List ((ι × β) × ρ)
  /-- The completions collected so far. -/
  delivered : List ((ι × β) × ρ)
  /-- The results kept for whoever waits for them. -/
  kept : ι → Option ρ
  /-- The resources of operations whose waiters left. -/
  orphan : ι → Option β
  /-- The waiters, by place, with what they wait for. -/
  live : ℕ → Option (ι × β)

namespace State

variable (s : State ι β ρ)

/-- The operations in flight: accepted, and their completions not collected. -/
def inFlight : List (ι × β) := s.pending ++ s.ready.map Prod.fst

/-- The ids in flight. -/
def ids : List ι := s.inFlight.map Prod.fst

/-- The ids of the completions to be collected. -/
def readyIds : List ι := s.ready.map fun c => c.1.1

/-- The ids of the completions collected. -/
def deliveredIds : List ι := s.delivered.map fun c => c.1.1

/-- An id that means nothing at present. -/
def Unused (id : ι) : Prop :=
  id ∉ s.ids ∧ s.kept id = none ∧ s.orphan id = none ∧ ∀ f x, s.live f = some x → x.1 ≠ id

/-- The resource of an operation is held, by its waiter or by its orphan. -/
def Holds (x : ι × β) : Prop := (∃ f, s.live f = some x) ∨ s.orphan x.1 = some x.2

section Departed

variable [DecidableEq ι]

/-- The state once the waiter at `f`, who waited for `x`, left an orphan behind. -/
def departed (f : ℕ) (x : ι × β) : State ι β ρ :=
  { s with
    orphan := Function.update s.orphan x.1 (some x.2)
    live := Function.update s.live f none }

end Departed

end State

/-- **What a step is seen to do.** -/
inductive Effect (ι ρ : Type*)
  /-- Nothing, or a waiter went on waiting. -/
  | quiet
  /-- An operation was accepted under an id. -/
  | accept (id : ι)
  /-- An orphan was made under an id that is not in flight. -/
  | strand (id : ι)
  /-- A completion came in. -/
  | complete
  /-- A waiter got its result. -/
  | resolve (f : ℕ) (result : ρ)
  /-- A waiter gave up because collecting failed. -/
  | giveUp (f : ℕ)
  /-- A waiter left. -/
  | leave (f : ℕ)
  /-- All orphans were discarded. -/
  | discard

section Step

variable [DecidableEq ι]

/-- What collecting does to the completions and the orphans, and what it keeps, on
behalf of the waiter for `id`. -/
structure Collected (copy : ρ → ρ) (id : ι) (s t : State ι β ρ) : Prop where
  pending : t.pending = s.pending
  ready : t.ready = []
  delivered : t.delivered = s.delivered ++ s.ready
  orphan : ∀ j, t.orphan j = if j ∈ s.readyIds then none else s.orphan j
  kept_same : ∀ j, j ∉ s.readyIds ∨ j = id → t.kept j = s.kept j
  kept_new : ∀ c ∈ s.ready, c.1.1 ≠ id →
    t.kept c.1.1 = if (s.orphan c.1.1).isSome then none else some (copy c.2)

/-- **The steps of a mailbox.** -/
inductive Step (copy : ρ → ρ) : State ι β ρ → Effect ι ρ → State ι β ρ → Prop
  /-- Nothing happens. -/
  | quiet (s : State ι β ρ) : Step copy s .quiet s
  /-- An operation is accepted, with a waiter at a free place. -/
  | accept {s : State ι β ρ} {f : ℕ} (id : ι) (b : β) (hf : s.live f = none) :
      Step copy s (.accept id) { s with
        pending := s.pending ++ [(id, b)]
        live := Function.update s.live f (some (id, b)) }
  /-- An orphan is made of nothing. -/
  | strand {s : State ι β ρ} (id : ι) (b : β) :
      Step copy s (.strand id) { s with orphan := Function.update s.orphan id (some b) }
  /-- An operation completes. -/
  | complete {s t : State ι β ρ} (hperm : t.inFlight.Perm s.inFlight)
      (hready : ∀ c ∈ s.ready, c ∈ t.ready)
      (hrest : (t.delivered, t.kept, t.orphan, t.live) = (s.delivered, s.kept, s.orphan, s.live)) :
      Step copy s .complete t
  /-- A waiter finds its result kept. -/
  | take {s : State ι β ρ} {f : ℕ} {x : ι × β} {v : ρ} (hf : s.live f = some x)
      (hv : s.kept x.1 = some v) :
      Step copy s (.resolve f (copy v)) { s with
        kept := Function.update s.kept x.1 none
        live := Function.update s.live f none }
  /-- A waiter cannot collect, and leaves. -/
  | giveUp {s : State ι β ρ} {f : ℕ} {x : ι × β} (hf : s.live f = some x)
      (hv : s.kept x.1 = none) :
      Step copy s (.giveUp f) (s.departed f x)
  /-- A waiter leaves. -/
  | leave {s : State ι β ρ} {f : ℕ} {x : ι × β} (hf : s.live f = some x) :
      Step copy s (.leave f) (s.departed f x)
  /-- A waiter collects, and its own completion is there. -/
  | find {s t : State ι β ρ} {f : ℕ} {x : ι × β} {c : (ι × β) × ρ} (hf : s.live f = some x)
      (hv : s.kept x.1 = none) (hcol : Collected copy x.1 s t) (hc : c ∈ s.ready)
      (hcx : c.1.1 = x.1) (ho : s.orphan x.1 = none)
      (hlive : t.live = Function.update s.live f none) :
      Step copy s (.resolve f (copy c.2)) t
  /-- A waiter collects, and its own completion is not there. -/
  | miss {s t : State ι β ρ} {f : ℕ} {x : ι × β} (hf : s.live f = some x)
      (hv : s.kept x.1 = none) (hcol : Collected copy x.1 s t)
      (hx : x.1 ∉ s.readyIds ∨ (s.orphan x.1).isSome) (hlive : t.live = s.live) :
      Step copy s .quiet t
  /-- All orphans are discarded. -/
  | discard {s : State ι β ρ} : Step copy s .discard { s with orphan := fun _ => none }

/-- A step to a state is a step to what equals it. -/
theorem Step.of_eq {copy : ρ → ρ} {s t t' : State ι β ρ} {e : Effect ι ρ} (h : Step copy s e t)
    (ht : t' = t) : Step copy s e t' :=
  ht ▸ h

end Step

/-! ### The ids in flight -/

section Ids

variable {s t : State ι β ρ}

/-- What a completion leaves as it was. -/
theorem rest_of_complete
    (h : (t.delivered, t.kept, t.orphan, t.live) = (s.delivered, s.kept, s.orphan, s.live)) :
    t.delivered = s.delivered ∧ t.kept = s.kept ∧ t.orphan = s.orphan ∧ t.live = s.live := by
  simpa using h

theorem mem_ids {id : ι} : id ∈ s.ids ↔ ∃ x ∈ s.inFlight, x.1 = id := List.mem_map

theorem ids_eq : s.ids = s.pending.map Prod.fst ++ s.readyIds := by
  simp [State.ids, State.inFlight, State.readyIds, Function.comp_def]

theorem mem_inFlight_of_ready {c : (ι × β) × ρ} (h : c ∈ s.ready) : c.1 ∈ s.inFlight :=
  List.mem_append_right _ (List.mem_map_of_mem h)

theorem mem_readyIds_of_ready {c : (ι × β) × ρ} (h : c ∈ s.ready) : c.1.1 ∈ s.readyIds :=
  List.mem_map_of_mem h

theorem readyIds_subset {id : ι} (h : id ∈ s.readyIds) : id ∈ s.ids := by
  rw [ids_eq]
  exact List.mem_append_right _ h

/-- An accepted operation is in flight, and nothing else is new. -/
theorem inFlight_accept_perm (x : ι × β) (live : ℕ → Option (ι × β)) :
    ({ s with pending := s.pending ++ [x], live } : State ι β ρ).inFlight.Perm
      (x :: s.inFlight) := by
  simp only [State.inFlight, List.append_assoc]
  exact List.perm_middle

theorem ids_accept_perm (x : ι × β) (live : ℕ → Option (ι × β)) :
    ({ s with pending := s.pending ++ [x], live } : State ι β ρ).ids.Perm (x.1 :: s.ids) :=
  (inFlight_accept_perm x live).map Prod.fst

section Collected

variable [DecidableEq ι] {copy : ρ → ρ} {id : ι}

theorem Collected.inFlight (h : Collected copy id s t) : t.inFlight = s.pending := by
  simp [State.inFlight, h.pending, h.ready]

theorem Collected.ids (h : Collected copy id s t) : t.ids = s.pending.map Prod.fst := by
  rw [State.ids, h.inFlight]

/-- What is in flight after collecting was not collected. -/
theorem Collected.notMem (h : Collected copy id s t) (hnd : s.ids.Nodup) {j : ι}
    (hj : j ∈ t.ids) : j ∈ s.ids ∧ j ∉ s.readyIds := by
  rw [ids_eq] at hnd ⊢
  rw [h.ids] at hj
  exact ⟨List.mem_append_left _ hj, fun hc => (List.nodup_append.mp hnd).2.2 j hj j hc rfl⟩

/-- What is in flight after collecting was so before. -/
theorem Collected.mem (h : Collected copy id s t) {x : ι × β} (hx : x ∈ t.inFlight) :
    x ∈ s.inFlight := by
  rw [h.inFlight] at hx
  exact List.mem_append_left _ hx

/-- An operation in flight that is not collected stays in flight. -/
theorem Collected.mem_of_notMem (h : Collected copy id s t) {x : ι × β} (hx : x ∈ s.inFlight)
    (hr : x.1 ∉ s.readyIds) : x ∈ t.inFlight := by
  rw [h.inFlight]
  rcases List.mem_append.mp hx with hx | hx
  · exact hx
  · obtain ⟨c, hc, rfl⟩ := List.mem_map.mp hx
    exact absurd (mem_readyIds_of_ready hc) hr

end Collected

end Ids

/-! ### The waiters -/

section Waiters

variable {live : ℕ → Option (ι × β)} {f g : ℕ} {x y : ι × β}

/-- The waiters once one is gone. -/
theorem update_none_eq_some :
    Function.update live f none g = some x ↔ g ≠ f ∧ live g = some x := by
  by_cases h : g = f
  · simp [h]
  · simp [h]

/-- The waiters once one is there. -/
theorem update_some_eq_some :
    Function.update live f (some y) g = some x ↔ g = f ∧ x = y ∨ g ≠ f ∧ live g = some x := by
  by_cases h : g = f
  · simp [h, eq_comm]
  · simp [h]

end Waiters

/-! ### The ids that mean something -/

section Known

/-- An id that is or was in use. -/
def State.Known (s : State ι β ρ) (id : ι) : Prop :=
  id ∈ s.ids ∨ id ∈ s.deliveredIds ∨ (∃ v, s.kept id = some v) ∨ (∃ b, s.orphan id = some b) ∨
    ∃ f x, s.live f = some x ∧ x.1 = id

variable {s t : State ι β ρ} {id : ι}

/-- An id that never was in use means nothing. -/
theorem State.unused_of_not_known (h : ¬s.Known id) : s.Unused id := by
  simp only [State.Known, not_or, not_exists, not_and] at h
  obtain ⟨hids, -, hkept, horphan, hlive⟩ := h
  exact ⟨hids, Option.eq_none_iff_forall_ne_some.mpr hkept,
    Option.eq_none_iff_forall_ne_some.mpr horphan, hlive⟩

variable [DecidableEq ι] {copy : ρ → ρ}

/-- Collecting brings no new id into use. -/
theorem Collected.known {j : ι} (h : Collected copy j s t)
    (hlive : ∀ f x, t.live f = some x → s.live f = some x) (hid : t.Known id) : s.Known id := by
  rcases hid with hid | hid | ⟨v, hv⟩ | ⟨b, hb⟩ | ⟨f, x, hf, hx⟩
  · rw [h.ids] at hid
    rw [State.Known, ids_eq]
    exact Or.inl (List.mem_append_left _ hid)
  · rw [State.deliveredIds, h.delivered, List.map_append, List.mem_append] at hid
    exact hid.elim (fun hid => Or.inr (Or.inl hid)) fun hid => Or.inl (readyIds_subset hid)
  · by_cases hr : id ∈ s.readyIds
    · exact Or.inl (readyIds_subset hr)
    · rw [h.kept_same id (Or.inl hr)] at hv
      exact Or.inr (Or.inr (Or.inl ⟨v, hv⟩))
  · rw [h.orphan] at hb
    split at hb
    · exact absurd hb (by simp)
    · exact Or.inr (Or.inr (Or.inr (Or.inl ⟨b, hb⟩)))
  · exact Or.inr (Or.inr (Or.inr (Or.inr ⟨f, x, hlive f x hf, hx⟩)))

/-- A waiter that leaves brings no new id into use. -/
theorem State.known_departed {f : ℕ} {x : ι × β} (hf : s.live f = some x)
    (hid : (s.departed f x).Known id) : s.Known id := by
  rcases hid with hid | hid | hv | ⟨b, hb⟩ | ⟨g, y, hg, hy⟩
  · exact Or.inl hid
  · exact Or.inr (Or.inl hid)
  · exact Or.inr (Or.inr (Or.inl hv))
  · by_cases h : id = x.1
    · exact Or.inr (Or.inr (Or.inr (Or.inr ⟨f, x, hf, h.symm⟩)))
    · exact Or.inr (Or.inr (Or.inr (Or.inl ⟨b, (Function.update_of_ne h ..).symm.trans hb⟩)))
  · exact Or.inr (Or.inr (Or.inr (Or.inr ⟨g, y, (update_none_eq_some.mp hg).2, hy⟩)))

/-- **Only an acceptance, or an orphan made of nothing, brings an id into use.** -/
theorem State.Known.of_step {e : Effect ι ρ} (hstep : Step copy s e t) (hid : t.Known id) :
    s.Known id ∨ e = .accept id ∨ e = .strand id := by
  -- an id is known as one in flight, collected, kept, an orphan's or a waiter's, and each step
  -- is looked at for each of these
  cases hstep with
  | quiet => exact Or.inl hid
  | @accept f j b hf =>
    rcases hid with hid | hid | hv | hb | ⟨g, x, hg, hx⟩
    · rw [(ids_accept_perm (j, b) _).mem_iff, List.mem_cons] at hid
      rcases hid with rfl | hid
      · exact Or.inr (Or.inl rfl)
      · exact Or.inl (Or.inl hid)
    · exact Or.inl (Or.inr (Or.inl hid))
    · exact Or.inl (Or.inr (Or.inr (Or.inl hv)))
    · exact Or.inl (Or.inr (Or.inr (Or.inr (Or.inl hb))))
    · rcases update_some_eq_some.mp hg with ⟨-, rfl⟩ | ⟨-, hg⟩
      · exact Or.inr (Or.inl (congrArg Effect.accept hx))
      · exact Or.inl (Or.inr (Or.inr (Or.inr (Or.inr ⟨g, x, hg, hx⟩))))
  | @strand j b =>
    rcases hid with hid | hid | hv | ⟨c, hc⟩ | hl
    · exact Or.inl (Or.inl hid)
    · exact Or.inl (Or.inr (Or.inl hid))
    · exact Or.inl (Or.inr (Or.inr (Or.inl hv)))
    · by_cases h : id = j
      · exact Or.inr (Or.inr (congrArg Effect.strand h.symm))
      · refine Or.inl (Or.inr (Or.inr (Or.inr (Or.inl ⟨c, ?_⟩))))
        exact (Function.update_of_ne h ..).symm.trans hc
    · exact Or.inl (Or.inr (Or.inr (Or.inr (Or.inr hl))))
  | complete hperm _ hrest =>
    obtain ⟨hdel, hkept, horphan, hlive⟩ := rest_of_complete hrest
    have hids : t.ids.Perm s.ids := hperm.map Prod.fst
    left
    rwa [State.Known, hids.mem_iff, State.deliveredIds, hdel, hkept, horphan, hlive] at hid
  | @take f x v hf hv =>
    left
    rcases hid with hid | hid | ⟨w, hw⟩ | hb | ⟨g, y, hg, hy⟩
    · exact Or.inl hid
    · exact Or.inr (Or.inl hid)
    · have hne : id ≠ x.1 := by
        rintro rfl
        simp at hw
      exact Or.inr (Or.inr (Or.inl ⟨w, (Function.update_of_ne hne ..).symm.trans hw⟩))
    · exact Or.inr (Or.inr (Or.inr (Or.inl hb)))
    · exact Or.inr (Or.inr (Or.inr (Or.inr ⟨g, y, (update_none_eq_some.mp hg).2, hy⟩)))
  | giveUp hf => exact Or.inl (State.known_departed hf hid)
  | leave hf => exact Or.inl (State.known_departed hf hid)
  | find hf _ hcol _ _ _ hlive =>
    exact Or.inl (hcol.known (fun g x hg => (update_none_eq_some.mp (hlive ▸ hg)).2) hid)
  | miss _ _ hcol _ hlive => exact Or.inl (hcol.known (fun g x hg => hlive ▸ hg) hid)
  | discard =>
    rcases hid with hid | hid | hv | ⟨b, hb⟩ | hl
    · exact Or.inl (Or.inl hid)
    · exact Or.inl (Or.inr (Or.inl hid))
    · exact Or.inl (Or.inr (Or.inr (Or.inl hv)))
    · exact absurd hb (by simp)
    · exact Or.inl (Or.inr (Or.inr (Or.inr (Or.inr hl))))

end Known

/-! ### Nothing in flight is let go of -/

/-- **A coherent state**: every id in flight is in flight once and has nothing kept;
each waiter has its own id, no orphan under it, and an operation in flight or a result
kept; and every operation in flight is held. -/
structure Coherent (s : State ι β ρ) : Prop where
  nodup : s.ids.Nodup
  kept_out : ∀ {id v}, s.kept id = some v → id ∉ s.ids
  live_inj : ∀ {f g x y}, s.live f = some x → s.live g = some y → x.1 = y.1 → f = g
  live_orphan : ∀ {f x}, s.live f = some x → s.orphan x.1 = none
  known : ∀ {f x}, s.live f = some x → x ∈ s.inFlight ∨ ∃ v, s.kept x.1 = some v
  held : ∀ x ∈ s.inFlight, s.Holds x

/-- **The guard of retention**: an id that is used anew means nothing, and orphans are
discarded only when none is in flight. -/
def Retains (s : State ι β ρ) : Effect ι ρ → Prop
  | .accept id => s.Unused id
  | .strand id => s.Unused id
  | .discard => ∀ x ∈ s.inFlight, s.orphan x.1 = none
  | _ => True

namespace Coherent

variable {s t : State ι β ρ}

/-- A waiter and an operation in flight under its id agree on the resource. -/
theorem eq_of_live (h : Coherent s) {f : ℕ} {x y : ι × β} (hf : s.live f = some x)
    (hy : y ∈ s.inFlight) (hxy : y.1 = x.1) : y = x := by
  rcases h.held y hy with ⟨g, hg⟩ | ho
  · have hgf := h.live_inj hg hf hxy
    rw [hgf, hf] at hg
    exact (Option.some.inj hg).symm
  · rw [hxy, h.live_orphan hf] at ho
    exact absurd ho (by simp)

/-- A waiter who misses its completion misses it because it is not there. -/
theorem notMem_of_miss (h : Coherent s) {f : ℕ} {x : ι × β} (hf : s.live f = some x)
    (hx : x.1 ∉ s.readyIds ∨ (s.orphan x.1).isSome) : x.1 ∉ s.readyIds := by
  rcases hx with hx | hx
  · exact hx
  · rw [h.live_orphan hf] at hx
    exact absurd hx (by simp)

/-- A completion moves an operation within those in flight. -/
theorem complete (h : Coherent s) (hperm : t.inFlight.Perm s.inFlight)
    (hrest : (t.delivered, t.kept, t.orphan, t.live) = (s.delivered, s.kept, s.orphan, s.live)) :
    Coherent t := by
  obtain ⟨-, hkept, horphan, hlive⟩ := rest_of_complete hrest
  have hids : t.ids.Perm s.ids := hperm.map Prod.fst
  refine ⟨hids.nodup_iff.mpr h.nodup, fun {j v} hv => ?_, fun {g g' x y} hg hg' hxy => ?_,
    fun {g x} hg => ?_, fun {g x} hg => ?_, fun x hx => ?_⟩
  · rw [hids.mem_iff]
    exact h.kept_out (hkept ▸ hv)
  · exact h.live_inj (hlive ▸ hg) (hlive ▸ hg') hxy
  · rw [horphan]
    exact h.live_orphan (hlive ▸ hg)
  · rw [hperm.mem_iff, hkept]
    exact h.known (hlive ▸ hg)
  · have := h.held x (hperm.mem_iff.mp hx)
    rwa [State.Holds, ← hlive, ← horphan] at this

/-- A new operation and its waiter. -/
theorem accept (h : Coherent s) {f : ℕ} {id : ι} (b : β) (hf : s.live f = none)
    (hid : s.Unused id) :
    Coherent ({ s with
      pending := s.pending ++ [(id, b)]
      live := Function.update s.live f (some (id, b)) } : State ι β ρ) := by
  obtain ⟨hfl, hkept, horphan, hlive⟩ := hid
  have hperm := ids_accept_perm (s := s) (id, b) (Function.update s.live f (some (id, b)))
  refine ⟨?_, fun {j v} hv => ?_, fun {g g' x y} hg hg' hxy => ?_, fun {g x} hg => ?_,
    fun {g x} hg => ?_, fun x hx => ?_⟩
  · rw [hperm.nodup_iff]
    exact List.nodup_cons.mpr ⟨hfl, h.nodup⟩
  · rw [hperm.mem_iff, List.mem_cons, not_or]
    refine ⟨fun hc => ?_, h.kept_out hv⟩
    rw [hc] at hv
    exact absurd (hkept.symm.trans hv) (by simp)
  · rcases update_some_eq_some.mp hg with ⟨hgf, hx⟩ | ⟨-, hx⟩ <;>
      rcases update_some_eq_some.mp hg' with ⟨hgf', hy⟩ | ⟨-, hy⟩
    · exact hgf.trans hgf'.symm
    · exact absurd (hxy.symm.trans (congrArg Prod.fst hx)) (hlive _ _ hy)
    · exact absurd (hxy.trans (congrArg Prod.fst hy)) (hlive _ _ hx)
    · exact h.live_inj hx hy hxy
  · rcases update_some_eq_some.mp hg with ⟨-, rfl⟩ | ⟨-, hx⟩
    · exact horphan
    · exact h.live_orphan hx
  · have hmem := (inFlight_accept_perm (s := s) (id, b)
      (Function.update s.live f (some (id, b)))).mem_iff (a := x)
    rcases update_some_eq_some.mp hg with ⟨-, rfl⟩ | ⟨-, hx⟩
    · exact Or.inl (hmem.mpr List.mem_cons_self)
    · exact (h.known hx).imp_left fun hx => hmem.mpr (List.mem_cons_of_mem _ hx)
  · rcases List.mem_cons.mp ((inFlight_accept_perm (id, b) _).mem_iff.mp hx) with rfl | hx
    · exact Or.inl ⟨f, by simp⟩
    · rcases h.held x hx with ⟨g, hg⟩ | ho
      · have hgf : g ≠ f := fun hc => by simp [hc, hf] at hg
        exact Or.inl ⟨g, update_some_eq_some.mpr (Or.inr ⟨hgf, hg⟩)⟩
      · exact Or.inr ho

/-- Discarding the orphans, none of which is in flight. -/
theorem discard (h : Coherent s) (hno : ∀ x ∈ s.inFlight, s.orphan x.1 = none) :
    Coherent ({ s with orphan := fun _ => none } : State ι β ρ) := by
  refine ⟨h.nodup, h.kept_out, h.live_inj, fun _ => rfl, h.known, fun x hx => ?_⟩
  rcases h.held x hx with hl | ho
  · exact Or.inl hl
  · exact absurd ((hno x hx).symm.trans ho) (by simp)

variable [DecidableEq ι]

/-- An orphan under an id that meant nothing. -/
theorem strand (h : Coherent s) {id : ι} (b : β) (hid : s.Unused id) :
    Coherent ({ s with orphan := Function.update s.orphan id (some b) } : State ι β ρ) := by
  obtain ⟨hfl, -, -, hlive⟩ := hid
  refine ⟨h.nodup, h.kept_out, h.live_inj, fun {g x} hg => ?_, h.known, fun x hx => ?_⟩
  · change Function.update s.orphan id (some b) x.1 = none
    rw [Function.update_of_ne (hlive g x hg)]
    exact h.live_orphan hg
  · have hne : x.1 ≠ id := fun hc => hfl (mem_ids.mpr ⟨x, hx, hc⟩)
    rcases h.held x hx with hg | ho
    · exact Or.inl hg
    · exact Or.inr ((Function.update_of_ne hne ..).trans ho)

/-- A waiter takes a kept result: its operation was in flight no more. -/
theorem take (h : Coherent s) {f : ℕ} {x : ι × β} {v : ρ} (hf : s.live f = some x)
    (hv : s.kept x.1 = some v) :
    Coherent ({ s with
      kept := Function.update s.kept x.1 none
      live := Function.update s.live f none } : State ι β ρ) := by
  refine ⟨h.nodup, fun {j w} hw => ?_, fun {g g' y z} hg hg' hyz => ?_, fun {g y} hg => ?_,
    fun {g y} hg => ?_, fun y hy => ?_⟩
  · by_cases hj : j = x.1
    · have hw : Function.update s.kept x.1 none j = some w := hw
      simp [hj] at hw
    · have hw : Function.update s.kept x.1 none j = some w := hw
      rw [Function.update_of_ne hj] at hw
      exact h.kept_out hw
  · exact h.live_inj (update_none_eq_some.mp hg).2 (update_none_eq_some.mp hg').2 hyz
  · exact h.live_orphan (update_none_eq_some.mp hg).2
  · obtain ⟨hgf, hg⟩ := update_none_eq_some.mp hg
    have hne : y.1 ≠ x.1 := fun hc => hgf (h.live_inj hg hf hc)
    exact (h.known hg).imp_right fun ⟨w, hw⟩ => ⟨w, (Function.update_of_ne hne ..).trans hw⟩
  -- the waiter that goes held nothing in flight: its result was kept
  · rcases h.held y hy with ⟨g, hg⟩ | ho
    · refine Or.inl ⟨g, update_none_eq_some.mpr ⟨?_, hg⟩⟩
      rintro rfl
      obtain rfl := Option.some.inj (hf.symm.trans hg)
      exact h.kept_out hv (mem_ids.mpr ⟨x, hy, rfl⟩)
    · exact Or.inr ho

/-- A waiter leaves, and an orphan holds what it held. -/
theorem departed (h : Coherent s) {f : ℕ} {x : ι × β} (hf : s.live f = some x) :
    Coherent (s.departed f x) := by
  refine ⟨h.nodup, h.kept_out, fun {g g' y z} hg hg' hyz => ?_, fun {g y} hg => ?_,
    fun {g y} hg => h.known (update_none_eq_some.mp hg).2, fun y hy => ?_⟩
  · exact h.live_inj (update_none_eq_some.mp hg).2 (update_none_eq_some.mp hg').2 hyz
  · obtain ⟨hgf, hg⟩ := update_none_eq_some.mp hg
    have hne : y.1 ≠ x.1 := fun hc => hgf (h.live_inj hg hf hc)
    change Function.update s.orphan x.1 (some x.2) y.1 = none
    rw [Function.update_of_ne hne]
    exact h.live_orphan hg
  -- what the waiter held is in flight still, and the orphan holds it
  · by_cases hyx : y.1 = x.1
    · obtain rfl := h.eq_of_live hf hy hyx
      exact Or.inr (Function.update_self ..)
    · rcases h.held y hy with ⟨g, hg⟩ | ho
      · refine Or.inl ⟨g, update_none_eq_some.mpr ⟨?_, hg⟩⟩
        rintro rfl
        exact hyx (congrArg Prod.fst (Option.some.inj (hg.symm.trans hf)))
      · exact Or.inr ((Function.update_of_ne hyx ..).trans ho)

/-- What collecting leaves, whether or not the waiter who collects goes. -/
theorem collected {copy : ρ → ρ} (h : Coherent s) {f : ℕ} {x : ι × β} (hf : s.live f = some x)
    (hcol : Collected copy x.1 s t)
    (hlive : t.live = s.live ∧ x.1 ∉ s.readyIds ∨
      t.live = Function.update s.live f none ∧ x.1 ∈ s.readyIds) :
    Coherent t := by
  have hsub : ∀ {g y}, t.live g = some y → s.live g = some y := by
    intro g y hg
    rcases hlive with ⟨hl, -⟩ | ⟨hl, -⟩
    · exact hl ▸ hg
    · exact (update_none_eq_some.mp (hl ▸ hg)).2
  refine ⟨?_, fun {j w} hw hj => ?_, fun {g g' y z} hg hg' hyz => ?_, fun {g y} hg => ?_,
    fun {g y} hg => ?_, fun y hy => ?_⟩
  · rw [hcol.ids]
    exact (List.nodup_append.mp (ids_eq ▸ h.nodup)).1
  · obtain ⟨hj, hr⟩ := hcol.notMem h.nodup hj
    rw [hcol.kept_same j (Or.inl hr)] at hw
    exact h.kept_out hw hj
  · exact h.live_inj (hsub hg) (hsub hg') hyz
  · rw [hcol.orphan, h.live_orphan (hsub hg), ite_self]
  -- a completion collected for another waiter is kept for it, since it has no orphan
  · by_cases hr : y.1 ∈ s.readyIds
    · obtain ⟨c, hc, hcy⟩ := List.mem_map.mp hr
      have hne : y.1 ≠ x.1 := by
        intro hyx
        obtain rfl := h.live_inj (hsub hg) hf hyx
        rcases hlive with ⟨-, hx⟩ | ⟨hl, -⟩
        · exact hx (hyx ▸ hr)
        · exact (update_none_eq_some.mp (hl ▸ hg)).1 rfl
      have hkept := hcol.kept_new c hc (hcy.trans_ne hne)
      rw [hcy, h.live_orphan (hsub hg)] at hkept
      exact Or.inr ⟨_, hkept⟩
    · rw [hcol.kept_same _ (Or.inl hr)]
      exact (h.known (hsub hg)).imp_left fun hy => hcol.mem_of_notMem hy hr
  · obtain ⟨-, hr⟩ := hcol.notMem h.nodup (mem_ids.mpr ⟨y, hy, rfl⟩)
    rcases h.held y (hcol.mem hy) with ⟨g, hg⟩ | ho
    · refine Or.inl ⟨g, ?_⟩
      rcases hlive with ⟨hl, -⟩ | ⟨hl, hx⟩
      · rwa [hl]
      · rw [hl]
        refine update_none_eq_some.mpr ⟨?_, hg⟩
        rintro rfl
        obtain rfl := Option.some.inj (hf.symm.trans hg)
        exact hr hx
    · exact Or.inr (by rwa [hcol.orphan, if_neg hr])

/-- **A step keeps a state coherent**, under the guard of retention. -/
theorem step {copy : ρ → ρ} {e : Effect ι ρ} (hstep : Step copy s e t) (he : Retains s e)
    (h : Coherent s) : Coherent t := by
  cases hstep with
  | quiet => exact h
  | accept id b hf => exact h.accept b hf he
  | strand id b => exact h.strand b he
  | complete hperm _ hrest => exact h.complete hperm hrest
  | take hf hv => exact h.take hf hv
  | giveUp hf => exact h.departed hf
  | leave hf => exact h.departed hf
  | find hf _ hcol hc hcx _ hlive =>
    exact h.collected hf hcol (Or.inr ⟨hlive, hcx ▸ mem_readyIds_of_ready hc⟩)
  | miss hf _ hcol hx hlive =>
    exact h.collected hf hcol (Or.inl ⟨hlive, h.notMem_of_miss hf hx⟩)
  | discard => exact h.discard he

end Coherent

/-! ### Nothing is left over -/

/-- **An exact state**: every orphan is in flight, and every kept result has its
waiter. -/
structure Exact (s : State ι β ρ) : Prop where
  orphan_inFlight : ∀ {id b}, s.orphan id = some b → id ∈ s.ids
  kept_live : ∀ {id v}, s.kept id = some v → ∃ f x, s.live f = some x ∧ x.1 = id

/-- **The guard of exactness**: no orphan is made of nothing, and no waiter leaves whose
result was kept. -/
def Tidies (s : State ι β ρ) : Effect ι ρ → Prop
  | .strand _ => False
  | .leave f => ∀ x, s.live f = some x → s.kept x.1 = none
  | _ => True

section Exact

variable [DecidableEq ι] {s t : State ι β ρ} {copy : ρ → ρ} {e : Effect ι ρ}

/-- A waiter with nothing kept leaves an orphan that is in flight. -/
theorem Exact.departed (h : Exact s) (hc : Coherent s) {f : ℕ} {x : ι × β}
    (hf : s.live f = some x) (hv : s.kept x.1 = none) : Exact (s.departed f x) := by
  refine ⟨fun {id b} hb => ?_, fun {id v} hw => ?_⟩
  · by_cases hid : id = x.1
    · rcases hc.known hf with hx | ⟨v, hw⟩
      · exact mem_ids.mpr ⟨x, hx, hid.symm⟩
      · exact absurd (hv.symm.trans hw) (by simp)
    · exact h.orphan_inFlight ((Function.update_of_ne hid ..).symm.trans hb)
  · obtain ⟨g, y, hg, rfl⟩ := h.kept_live hw
    refine ⟨g, y, update_none_eq_some.mpr ⟨?_, hg⟩, rfl⟩
    rintro rfl
    obtain rfl := Option.some.inj (hf.symm.trans hg)
    exact absurd (hv.symm.trans hw) (by simp)

/-- Collecting leaves an exact state: what is kept is for a waiter, since what is in
flight is held. -/
theorem Exact.collected (h : Exact s) (hc : Coherent s) {f : ℕ} {x : ι × β}
    (hf : s.live f = some x) (hv : s.kept x.1 = none) (hcol : Collected copy x.1 s t)
    (hlive : t.live = s.live ∨ t.live = Function.update s.live f none) : Exact t := by
  have hstay : ∀ {g y}, s.live g = some y → y.1 ≠ x.1 → t.live g = some y := by
    intro g y hg hne
    rcases hlive with hl | hl
    · rwa [hl]
    · rw [hl]
      refine update_none_eq_some.mpr ⟨?_, hg⟩
      rintro rfl
      exact hne (congrArg Prod.fst (Option.some.inj (hg.symm.trans hf)))
  refine ⟨fun {id b} hb => ?_, fun {id v} hw => ?_⟩
  · rw [hcol.orphan] at hb
    by_cases hr : id ∈ s.readyIds
    · simp [hr] at hb
    · rw [if_neg hr] at hb
      obtain ⟨y, hy, rfl⟩ := mem_ids.mp (h.orphan_inFlight hb)
      exact mem_ids.mpr ⟨y, hcol.mem_of_notMem hy hr, rfl⟩
  · by_cases hr : id ∉ s.readyIds ∨ id = x.1
    · rw [hcol.kept_same _ hr] at hw
      obtain ⟨g, y, hg, rfl⟩ := h.kept_live hw
      refine ⟨g, y, hstay hg fun hyx => ?_, rfl⟩
      rw [hyx, hv] at hw
      exact absurd hw (by simp)
    -- a result newly kept is of an operation that was in flight: had it an orphan and no
    -- waiter, the result would not have been kept
    · obtain ⟨hr, hne⟩ := not_or.mp hr
      obtain ⟨c, hready, rfl⟩ := List.mem_map.mp (not_not.mp hr)
      rw [hcol.kept_new c hready hne] at hw
      rcases hc.held c.1 (mem_inFlight_of_ready hready) with ⟨g, hg⟩ | ho
      · exact ⟨g, c.1, hstay hg hne, rfl⟩
      · simp [ho] at hw

/-- **A step keeps a state exact**, under the guard of exactness. -/
theorem Exact.step (hstep : Step copy s e t) (hr : Retains s e) (he : Tidies s e)
    (hc : Coherent s) (h : Exact s) : Exact t := by
  cases hstep with
  | quiet => exact h
  | @accept f id b hf =>
    have hperm := ids_accept_perm (s := s) (id, b) (Function.update s.live f (some (id, b)))
    refine ⟨fun hb => hperm.mem_iff.mpr (List.mem_cons_of_mem _ (h.orphan_inFlight hb)),
      fun hw => ?_⟩
    obtain ⟨g, y, hg, rfl⟩ := h.kept_live hw
    refine ⟨g, y, update_some_eq_some.mpr (Or.inr ⟨fun hgf => ?_, hg⟩), rfl⟩
    simp [hgf, hf] at hg
  | strand => exact absurd he (by simp [Tidies])
  | complete hperm _ hrest =>
    obtain ⟨-, hkept, horphan, hlive⟩ := rest_of_complete hrest
    have hids : t.ids.Perm s.ids := hperm.map Prod.fst
    refine ⟨fun hb => hids.mem_iff.mpr (h.orphan_inFlight (horphan ▸ hb)), fun hw => ?_⟩
    obtain ⟨g, y, hg, hy⟩ := h.kept_live (hkept ▸ hw)
    exact ⟨g, y, hlive ▸ hg, hy⟩
  | @take f x v hf hv =>
    refine ⟨h.orphan_inFlight, fun {id w} hw => ?_⟩
    have hid : id ≠ x.1 := by
      rintro rfl
      simp at hw
    obtain ⟨g, y, hg, rfl⟩ := h.kept_live ((Function.update_of_ne hid ..).symm.trans hw)
    refine ⟨g, y, update_none_eq_some.mpr ⟨?_, hg⟩, rfl⟩
    rintro rfl
    exact hid (congrArg Prod.fst (Option.some.inj (hg.symm.trans hf)))
  | giveUp hf hv => exact h.departed hc hf hv
  | leave hf => exact h.departed hc hf (he _ hf)
  | find hf hv hcol _ _ _ hlive => exact h.collected hc hf hv hcol (Or.inr hlive)
  | miss hf hv hcol _ hlive => exact h.collected hc hf hv hcol (Or.inl hlive)
  | discard => exact ⟨fun hb => absurd hb (by simp), h.kept_live⟩

omit [DecidableEq ι] in
/-- Once nothing is in flight, an exact state has no orphans. -/
theorem Exact.orphan_eq_none (h : Exact s) (hs : s.inFlight = []) (id : ι) :
    s.orphan id = none := by
  rcases ho : s.orphan id with _ | b
  · rfl
  · obtain ⟨x, hx, -⟩ := mem_ids.mp (h.orphan_inFlight ho)
    rw [hs] at hx
    exact absurd hx (by simp)

end Exact

/-! ### Every waiter gets its own result -/

/-- **A tracked state**: no id was ever used twice; what was collected for a waiter is
kept for it; and what is kept was collected. -/
structure Tracked (copy : ρ → ρ) (s : State ι β ρ) : Prop where
  once : (s.deliveredIds ++ s.ids).Nodup
  live_delivered : ∀ {f x}, s.live f = some x → ∀ c ∈ s.delivered, c.1.1 = x.1 →
    c.1 = x ∧ s.kept x.1 = some (copy c.2)
  kept_delivered : ∀ {id v}, s.kept id = some v → ∃ c ∈ s.delivered, c.1.1 = id ∧ v = copy c.2

/-- The guard of tracking: a new id is not one of a completion collected. -/
def Renews (s : State ι β ρ) : Effect ι ρ → Prop
  | .accept id => id ∉ s.deliveredIds
  | _ => True

section Tracked

variable [DecidableEq ι] {s t : State ι β ρ} {copy : ρ → ρ} {e : Effect ι ρ}

/-- Collecting, for a tracked state. -/
theorem Tracked.collected (h : Tracked copy s) (hc : Coherent s) {f : ℕ} {x : ι × β}
    (hf : s.live f = some x) (hcol : Collected copy x.1 s t)
    (hlive : t.live = s.live ∧ x.1 ∉ s.readyIds ∨ t.live = Function.update s.live f none) :
    Tracked copy t := by
  have hsub : ∀ {g y}, t.live g = some y → s.live g = some y := by
    intro g y hg
    rcases hlive with ⟨hl, -⟩ | hl
    · exact hl ▸ hg
    · exact (update_none_eq_some.mp (hl ▸ hg)).2
  have honce := h.once
  refine ⟨?_, fun {g y} hg c hcd hcy => ?_, fun {id v} hw => ?_⟩
  -- collecting moves ids from those in flight to those delivered
  · rw [State.deliveredIds, hcol.delivered, List.map_append, hcol.ids, List.append_assoc]
    rw [ids_eq] at honce
    exact ((List.perm_append_comm.append_left _).nodup_iff).mp honce
  · rw [hcol.delivered, List.mem_append] at hcd
    rcases hcd with hcd | hready
    -- delivered before: no id is delivered twice, so this collecting did not touch it
    · have hr : y.1 ∉ s.readyIds := fun hr =>
        (List.nodup_append.mp honce).2.2 c.1.1 (List.mem_map_of_mem hcd) y.1
          (readyIds_subset hr) hcy
      rw [hcol.kept_same _ (Or.inl hr)]
      exact h.live_delivered (hsub hg) c hcd hcy
    · have hne : c.1.1 ≠ x.1 := by
        intro hcx
        obtain rfl := hc.live_inj (hsub hg) hf (hcy.symm.trans hcx)
        rcases hlive with ⟨-, hx⟩ | hl
        · exact hx (hcx ▸ mem_readyIds_of_ready hready)
        · exact (update_none_eq_some.mp (hl ▸ hg)).1 rfl
      have hkept := hcol.kept_new c hready hne
      rw [hcy, hc.live_orphan (hsub hg)] at hkept
      exact ⟨hc.eq_of_live (hsub hg) (mem_inFlight_of_ready hready) hcy, hkept⟩
  · rw [hcol.delivered]
    by_cases hr : id ∉ s.readyIds ∨ id = x.1
    · rw [hcol.kept_same _ hr] at hw
      obtain ⟨c, hcd, hcv⟩ := h.kept_delivered hw
      exact ⟨c, List.mem_append_left _ hcd, hcv⟩
    · obtain ⟨hr, hne⟩ := not_or.mp hr
      obtain ⟨c, hready, rfl⟩ := List.mem_map.mp (not_not.mp hr)
      rw [hcol.kept_new c hready hne] at hw
      refine ⟨c, List.mem_append_right _ hready, rfl, ?_⟩
      by_cases ho : (s.orphan c.1.1).isSome
      · simp [ho] at hw
      · rw [if_neg ho] at hw
        exact (Option.some.inj hw).symm

/-- **A step keeps a state tracked**, when ids are new. -/
theorem Tracked.step (hstep : Step copy s e t) (he : Renews s e) (hr : Retains s e)
    (hc : Coherent s) (h : Tracked copy s) : Tracked copy t := by
  cases hstep with
  | quiet => exact h
  | @accept f id b hf =>
    have hperm := ids_accept_perm (s := s) (id, b) (Function.update s.live f (some (id, b)))
    refine ⟨?_, fun {g x} hg c hcd hcx => ?_, h.kept_delivered⟩
    · have hmid : (s.deliveredIds ++ id :: s.ids).Nodup := by
        refine List.nodup_middle.mpr (List.nodup_cons.mpr ⟨fun hmem => ?_, h.once⟩)
        exact (List.mem_append.mp hmem).elim he hr.1
      exact ((hperm.append_left _).nodup_iff).mpr hmid
    · rcases update_some_eq_some.mp hg with ⟨-, rfl⟩ | ⟨-, hx⟩
      · exact absurd (List.mem_map.mpr ⟨c, hcd, hcx⟩) he
      · exact h.live_delivered hx c hcd hcx
  | strand => exact ⟨h.once, h.live_delivered, h.kept_delivered⟩
  | complete hperm _ hrest =>
    obtain ⟨hdel, hkept, -, hlive⟩ := rest_of_complete hrest
    have hids : t.ids.Perm s.ids := hperm.map Prod.fst
    refine ⟨?_, ?_, ?_⟩
    · rw [State.deliveredIds, hdel]
      exact ((hids.append_left _).nodup_iff).mpr h.once
    · rw [hdel, hkept, hlive]
      exact h.live_delivered
    · rw [hdel, hkept]
      exact h.kept_delivered
  | @take f x v hf hv =>
    refine ⟨h.once, fun {g y} hg c hcd hcy => ?_, fun {id w} hw => ?_⟩
    · obtain ⟨hgf, hg⟩ := update_none_eq_some.mp hg
      have hne : y.1 ≠ x.1 := fun hc' => hgf (hc.live_inj hg hf hc')
      obtain ⟨hcx, hk⟩ := h.live_delivered hg c hcd hcy
      exact ⟨hcx, (Function.update_of_ne hne ..).trans hk⟩
    · have hid : id ≠ x.1 := by
        rintro rfl
        simp at hw
      exact h.kept_delivered ((Function.update_of_ne hid ..).symm.trans hw)
  | giveUp | leave =>
    exact ⟨h.once, fun hg => h.live_delivered (update_none_eq_some.mp hg).2, h.kept_delivered⟩
  | find hf _ hcol _ _ _ hlive => exact h.collected hc hf hcol (Or.inr hlive)
  | miss hf _ hcol hx hlive =>
    exact h.collected hc hf hcol (Or.inl ⟨hlive, hc.notMem_of_miss hf hx⟩)
  | discard => exact ⟨h.once, h.live_delivered, h.kept_delivered⟩

/-- **A waiter gets its own result**: a completion of its operation that was
collected. -/
theorem Tracked.resolve (h : Tracked copy s) (hc : Coherent s)
    (hcopy : ∀ v, copy (copy v) = copy v) {f : ℕ} {v : ρ}
    (hstep : Step copy s (.resolve f v) t) :
    ∃ c ∈ t.delivered, s.live f = some c.1 ∧ v = copy c.2 := by
  cases hstep with
  | @take _ x w hf hw =>
    obtain ⟨c, hcd, hcx, rfl⟩ := h.kept_delivered hw
    obtain ⟨rfl, -⟩ := h.live_delivered hf c hcd hcx
    exact ⟨c, hcd, hf, hcopy c.2⟩
  | @find _ _ x c hf _ hcol hready hcx =>
    obtain rfl := hc.eq_of_live hf (mem_inFlight_of_ready hready) hcx
    refine ⟨c, ?_, hf, rfl⟩
    rw [hcol.delivered]
    exact List.mem_append_right _ hready

end Tracked

/-! ### A result is taken once -/

/-- **An id is settled**: its completion was collected, and nobody waits for it. -/
def Settled (id : ι) (s : State ι β ρ) : Prop :=
  id ∈ s.deliveredIds ∧ ∀ f x, s.live f = some x → x.1 ≠ id

section Settled

variable [DecidableEq ι] {s t : State ι β ρ} {copy : ρ → ρ} {e : Effect ι ρ} {id : ι}

/-- What a step collects stays collected. -/
theorem mem_deliveredIds_of_step (hstep : Step copy s e t) (h : id ∈ s.deliveredIds) :
    id ∈ t.deliveredIds := by
  have hcol : ∀ {j}, Collected copy j s t → id ∈ t.deliveredIds := by
    intro j hcol
    rw [State.deliveredIds, hcol.delivered, List.map_append]
    exact List.mem_append_left _ h
  cases hstep with
  | complete _ _ hrest =>
    obtain ⟨hdel, -⟩ := rest_of_complete hrest
    rwa [State.deliveredIds, hdel]
  | find _ _ hc => exact hcol hc
  | miss _ _ hc => exact hcol hc
  | quiet | accept | strand | take | giveUp | leave | discard => exact h

/-- A step makes no waiter, but for an operation it accepts. -/
theorem live_of_step (hstep : Step copy s e t) {f : ℕ} {x : ι × β} (h : t.live f = some x) :
    s.live f = some x ∨ e = .accept x.1 := by
  cases hstep with
  | quiet | strand | discard => exact Or.inl h
  | accept =>
    rcases update_some_eq_some.mp h with ⟨-, rfl⟩ | ⟨-, h⟩
    · exact Or.inr rfl
    · exact Or.inl h
  | complete _ _ hrest =>
    obtain ⟨-, -, -, hlive⟩ := rest_of_complete hrest
    exact Or.inl (hlive ▸ h)
  | take | giveUp | leave => exact Or.inl (update_none_eq_some.mp h).2
  | find _ _ _ _ _ _ hlive =>
    rw [hlive] at h
    exact Or.inl (update_none_eq_some.mp h).2
  | miss _ _ _ _ hlive => exact Or.inl (hlive ▸ h)

/-- **What is settled stays settled**, when ids are new. -/
theorem Settled.step (h : Settled id s) (hstep : Step copy s e t) (he : Renews s e) :
    Settled id t := by
  refine ⟨mem_deliveredIds_of_step hstep h.1, fun f x hf => ?_⟩
  rcases live_of_step hstep hf with hf | rfl
  · exact h.2 f x hf
  · rintro rfl
    exact he h.1

/-- **A waiter that got its result settles its id.** -/
theorem Tracked.settled (h : Tracked copy s) (hc : Coherent s)
    (hcopy : ∀ v, copy (copy v) = copy v) {f : ℕ} {v : ρ} {x : ι × β} (hf : s.live f = some x)
    (hstep : Step copy s (.resolve f v) t) : Settled x.1 t := by
  obtain ⟨c, hcd, hfc, -⟩ := h.resolve hc hcopy hstep
  obtain rfl := Option.some.inj (hf.symm.trans hfc)
  refine ⟨List.mem_map_of_mem hcd, fun g y hg hyx => ?_⟩
  have hgone : t.live = Function.update s.live f none := by
    cases hstep with
    | take => rfl
    | find _ _ _ _ _ _ hlive => exact hlive
  rw [hgone] at hg
  obtain ⟨hgf, hg⟩ := update_none_eq_some.mp hg
  exact hgf (hc.live_inj hg hf hyx)

end Settled

/-! ### Among strangers -/

/-- **Waiters among strangers**: operations may be in flight that nobody here waits for, and
results may be kept that nobody asks for; but each waiter has an id of its own, which is
no orphan's, and nobody else's operation is in flight under it. -/
structure Alone (s : State ι β ρ) : Prop where
  live_inj : ∀ {f g x y}, s.live f = some x → s.live g = some y → x.1 = y.1 → f = g
  live_orphan : ∀ {f x}, s.live f = some x → s.orphan x.1 = none
  own : ∀ {f x}, s.live f = some x → ∀ y ∈ s.inFlight, y.1 = x.1 → y = x

/-- An id that no waiter and no orphan has. -/
def State.Free (s : State ι β ρ) (id : ι) : Prop :=
  s.orphan id = none ∧ ∀ f x, s.live f = some x → x.1 ≠ id

/-- The guard among strangers: an id that is used anew is nobody's. -/
def Intrudes (s : State ι β ρ) : Effect ι ρ → Prop
  | .accept id => s.Free id
  | .strand id => s.Free id
  | _ => True

section Alone

variable [DecidableEq ι] {s t : State ι β ρ} {copy : ρ → ρ} {e : Effect ι ρ} {f : ℕ} {x : ι × β}

/-- A waiter leaves. -/
theorem Alone.departed (h : Alone s) (hf : s.live f = some x) : Alone (s.departed f x) := by
  refine ⟨fun {g g' y z} hg hg' hyz => ?_, fun {g y} hg => ?_,
    fun {g y} hg => h.own (update_none_eq_some.mp hg).2⟩
  · exact h.live_inj (update_none_eq_some.mp hg).2 (update_none_eq_some.mp hg').2 hyz
  · obtain ⟨hgf, hg⟩ := update_none_eq_some.mp hg
    have hne : y.1 ≠ x.1 := fun hc => hgf (h.live_inj hg hf hc)
    exact (Function.update_of_ne hne ..).trans (h.live_orphan hg)

/-- Collecting leaves the waiters alone. -/
theorem Alone.collected {id : ι} (h : Alone s) (hcol : Collected copy id s t)
    (hlive : ∀ {g y}, t.live g = some y → s.live g = some y) : Alone t := by
  refine ⟨fun hg hg' => h.live_inj (hlive hg) (hlive hg'), fun {g y} hg => ?_,
    fun hg y hy => h.own (hlive hg) y (hcol.mem hy)⟩
  rw [hcol.orphan, h.live_orphan (hlive hg), ite_self]

/-- **A step leaves the waiters alone**, when ids in flight are different. -/
theorem Alone.step (h : Alone s) (hstep : Step copy s e t) (he : Intrudes s e)
    (hnd : t.ids.Nodup) : Alone t := by
  cases hstep with
  | quiet => exact h
  | @accept g id b hg =>
    obtain ⟨horphan, hfree⟩ := he
    have hmem : (id, b) ∈ ({ s with pending := s.pending ++ [(id, b)] } : State ι β ρ).inFlight :=
      (inFlight_accept_perm (id, b) s.live).mem_iff.mpr List.mem_cons_self
    refine ⟨fun {g g' y z} hg hg' hyz => ?_, fun {g y} hg => ?_, fun {g y} hg z hz hzy => ?_⟩
    · rcases update_some_eq_some.mp hg with ⟨hgf, hx⟩ | ⟨-, hx⟩ <;>
        rcases update_some_eq_some.mp hg' with ⟨hgf', hy⟩ | ⟨-, hy⟩
      · exact hgf.trans hgf'.symm
      · exact absurd (hyz.symm.trans (congrArg Prod.fst hx)) (hfree _ _ hy)
      · exact absurd (hyz.trans (congrArg Prod.fst hy)) (hfree _ _ hx)
      · exact h.live_inj hx hy hyz
    · rcases update_some_eq_some.mp hg with ⟨-, rfl⟩ | ⟨-, hx⟩
      · exact horphan
      · exact h.live_orphan hx
    · rcases update_some_eq_some.mp hg with ⟨-, rfl⟩ | ⟨-, hx⟩
      -- ids in flight are different, so nobody else's operation is under the new one
      · exact List.inj_on_of_nodup_map hnd hz hmem hzy
      · rcases List.mem_cons.mp ((inFlight_accept_perm (id, b) _).mem_iff.mp hz) with rfl | hz
        · exact absurd hzy.symm (hfree _ _ hx)
        · exact h.own hx z hz hzy
  | @strand id b =>
    refine ⟨h.live_inj, fun {g y} hg => ?_, h.own⟩
    exact (Function.update_of_ne (he.2 g y hg) ..).trans (h.live_orphan hg)
  | complete hperm _ hrest =>
    obtain ⟨-, -, horphan, hlive⟩ := rest_of_complete hrest
    refine ⟨fun hg hg' => h.live_inj (hlive ▸ hg) (hlive ▸ hg'), fun {g y} hg => ?_,
      fun {g y} hg z hz => h.own (hlive ▸ hg) z (hperm.mem_iff.mp hz)⟩
    rw [horphan]
    exact h.live_orphan (hlive ▸ hg)
  | take hf =>
    exact ⟨fun hg hg' => h.live_inj (update_none_eq_some.mp hg).2 (update_none_eq_some.mp hg').2,
      fun hg => h.live_orphan (update_none_eq_some.mp hg).2,
      fun hg => h.own (update_none_eq_some.mp hg).2⟩
  | giveUp hf => exact h.departed hf
  | leave hf => exact h.departed hf
  | find hf _ hcol _ _ _ hlive =>
    exact h.collected hcol fun hg => (update_none_eq_some.mp (hlive ▸ hg)).2
  | miss _ _ hcol _ hlive => exact h.collected hcol fun hg => hlive ▸ hg
  | discard => exact ⟨h.live_inj, fun _ => rfl, h.own⟩

end Alone

end Mailbox
