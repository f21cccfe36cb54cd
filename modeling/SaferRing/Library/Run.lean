import Mathlib.Algebra.BigOperators.Group.List.Basic
import Mathlib.Algebra.Ring.Nat

/-!
# Runs of a labelled transition system

Everything in this file is about an arbitrary step relation
`step : σ → α → σ → Prop`: from a state, under a label, to a state. A
`Transition.Run` records the moves a system makes, in order, each with the state
it started from and the state it led to, so that a property of a run can speak
of its steps and not only of where it ends.

Three rules carry the developments built on it:

* `Transition.Run.invariant` – what every step preserves holds at the end of a
  run, and `Transition.Run.always` – so it holds at every state of it;
* `Transition.Run.always_iff` – **the exact rule**: when a step keeps a property
  precisely if the step meets a guard, the property holds all along a run
  precisely if every step of the run meets the guard;
* `Transition.Run.counted` – an invariant that depends on how much has been spent
  so far, for systems whose correctness holds within a budget.

`Transition.Run.refines` transfers runs along a forward simulation, with what their
moves show, and `Transition.Run.simulate` without; where one system is part of another,
`Transition.Run.map` does it move by move.
-/

namespace Transition

variable {σ α : Type*}

/-- **One move of a run**: the state it is made in, its label, and the state it
leads to. -/
structure Move (σ α : Type*) where
  /-- The state the move is made in. -/
  before : σ
  /-- The label of the move. -/
  label : α
  /-- The state the move leads to. -/
  after : σ

/-- A move seen as one of another system. -/
def Move.map {τ β : Type*} (f : σ → τ) (g : α → β) (m : Move σ α) : Move τ β :=
  ⟨f m.before, g m.label, f m.after⟩

/-- **The runs of a transition system**, with their moves in order. -/
inductive Run (step : σ → α → σ → Prop) : σ → List (Move σ α) → σ → Prop
  /-- The run that makes no move. -/
  | nil (s : σ) : Run step s [] s
  /-- A run, followed by one more step. -/
  | snoc {s t u : σ} {ms : List (Move σ α)} {a : α} :
      Run step s ms t → step t a u → Run step s (ms ++ [⟨t, a, u⟩]) u

/-- A property holds **all along** the moves of a run started in `s`. -/
def Always (P : σ → Prop) (s : σ) (ms : List (Move σ α)) : Prop :=
  P s ∧ ∀ m ∈ ms, P m.after

/-- Every move of a run meets a guard, read off the state it is made in and its
label. -/
def Guarded (C : σ → α → Prop) (ms : List (Move σ α)) : Prop :=
  ∀ m ∈ ms, C m.before m.label

/-- What the moves of a run spend, by their labels. -/
def spent (cost : α → ℕ) (ms : List (Move σ α)) : ℕ :=
  (ms.map fun m => cost m.label).sum

section Lists

variable {P : σ → Prop} {C D : σ → α → Prop} {s t u : σ} {a : α} {ms : List (Move σ α)}

@[simp] theorem always_nil : Always P s ([] : List (Move σ α)) ↔ P s := by
  simp [Always]

theorem always_snoc :
    Always P s (ms ++ [⟨t, a, u⟩]) ↔ Always P s ms ∧ P u := by
  simp only [Always, List.forall_mem_append, List.forall_mem_singleton, and_assoc]

@[simp] theorem guarded_nil : Guarded C ([] : List (Move σ α)) := by
  simp [Guarded]

theorem guarded_snoc :
    Guarded C (ms ++ [⟨t, a, u⟩]) ↔ Guarded C ms ∧ C t a := by
  simp only [Guarded, List.forall_mem_append, List.forall_mem_singleton]

theorem Guarded.and (h : Guarded C ms) (h' : Guarded D ms) :
    Guarded (fun s a => C s a ∧ D s a) ms :=
  fun m hm => ⟨h m hm, h' m hm⟩

@[simp] theorem spent_nil (cost : α → ℕ) : spent cost ([] : List (Move σ α)) = 0 := rfl

theorem spent_append (cost : α → ℕ) (ms ms' : List (Move σ α)) :
    spent cost (ms ++ ms') = spent cost ms + spent cost ms' := by
  simp [spent]

@[simp] theorem spent_snoc (cost : α → ℕ) :
    spent cost (ms ++ [⟨t, a, u⟩]) = spent cost ms + cost a := by
  simp [spent]

end Lists

namespace Run

variable {step : σ → α → σ → Prop} {s t : σ} {ms : List (Move σ α)}

/-- A run of one step. -/
theorem single {a : α} (h : step s a t) : Run step s [⟨s, a, t⟩] t :=
  (Run.nil s).snoc h

/-- A run without moves stays where it is. -/
theorem eq_of_nil (h : Run step s [] t) : t = s := by
  generalize hms : [] = ms at h
  cases h with
  | nil => rfl
  | snoc => exact absurd hms (by simp)

/-- Runs compose. -/
theorem append {u : σ} {ms' : List (Move σ α)} (h : Run step s ms t)
    (h' : Run step t ms' u) : Run step s (ms ++ ms') u := by
  induction h' with
  | nil => simpa using h
  | snoc _ hstep ih =>
    rw [← List.append_assoc]
    exact ih.snoc hstep

/-- **A run splits at a place**: it reaches the state the move there is made in, makes it, and
goes on. -/
theorem split_at {ms₁ ms₂ : List (Move σ α)} {m : Move σ α}
    (h : Run step s (ms₁ ++ m :: ms₂) t) :
    Run step s ms₁ m.before ∧ step m.before m.label m.after ∧ Run step m.after ms₂ t := by
  -- induction on the run; its last move is the one at the place, or comes after it
  generalize hms : ms₁ ++ m :: ms₂ = ms at h
  induction h generalizing ms₂ with
  | nil => exact absurd hms (by simp)
  | @snoc t u ms a hrun hstep ih =>
    rcases List.eq_nil_or_concat ms₂ with rfl | ⟨rest, m', rfl⟩
    · obtain ⟨rfl, hm⟩ := List.append_inj' hms rfl
      obtain rfl := List.singleton_inj.mp hm
      exact ⟨hrun, hstep, Run.nil u⟩
    · rw [List.concat_eq_append, ← List.cons_append, ← List.append_assoc] at hms
      obtain ⟨hfirst, hlast⟩ := List.append_inj' hms rfl
      obtain rfl := List.singleton_inj.mp hlast
      obtain ⟨h₁, hmid, h₂⟩ := ih hfirst
      rw [List.concat_eq_append]
      exact ⟨h₁, hmid, h₂.snoc hstep⟩

/-- **A move of a run splits it**: the run reaches the state the move is made
in, makes it, and goes on. -/
theorem split (h : Run step s ms t) {m : Move σ α} (hm : m ∈ ms) :
    ∃ ms₁ ms₂, ms = ms₁ ++ m :: ms₂ ∧ Run step s ms₁ m.before ∧
      step m.before m.label m.after ∧ Run step m.after ms₂ t := by
  obtain ⟨ms₁, ms₂, rfl⟩ := List.append_of_mem hm
  exact ⟨ms₁, ms₂, rfl, h.split_at⟩

/-- Every move of a run is a step of the system. -/
theorem step_of_mem (h : Run step s ms t) {m : Move σ α} (hm : m ∈ ms) :
    step m.before m.label m.after := by
  obtain ⟨-, -, -, -, hstep, -⟩ := h.split hm
  exact hstep

/-- **A run seen as a run of another system**, state by state and label by label. -/
theorem map {τ β : Type*} {step' : τ → β → τ → Prop} {f : σ → τ} {g : α → β}
    (hstep : ∀ s a t, step s a t → step' (f s) (g a) (f t)) (h : Run step s ms t) :
    Run step' (f s) (ms.map (Move.map f g)) (f t) := by
  induction h with
  | nil => exact Run.nil _
  | snoc _ hs ih =>
    rw [List.map_append]
    exact ih.snoc (hstep _ _ _ hs)

/-- A guarded run is a run of the guarded system. -/
theorem restrict {C : σ → α → Prop} (h : Run step s ms t) (hC : Guarded C ms) :
    Run (fun s a t => step s a t ∧ C s a) s ms t := by
  induction h with
  | nil => exact Run.nil _
  | snoc _ hs ih =>
    obtain ⟨hC, ha⟩ := guarded_snoc.mp hC
    exact (ih hC).snoc ⟨hs, ha⟩

/-- **The invariant rule**, under a guard on the moves: what every guarded step
preserves holds where a guarded run ends. -/
theorem invariant {Inv : σ → Prop} {C : σ → α → Prop}
    (hstep : ∀ s a t, step s a t → C s a → Inv s → Inv t)
    (h : Run step s ms t) (hC : Guarded C ms) (h₀ : Inv s) : Inv t := by
  induction h with
  | nil => exact h₀
  | snoc _ hs ih =>
    obtain ⟨hC, ha⟩ := guarded_snoc.mp hC
    exact hstep _ _ _ hs ha (ih hC)

/-- The invariant rule, for what every step preserves. -/
theorem preserves (Inv : σ → Prop) (hstep : ∀ s a t, step s a t → Inv s → Inv t)
    (h : Run step s ms t) (h₀ : Inv s) : Inv t := by
  have hguarded : ∀ s a t, step s a t → True → Inv s → Inv t := fun s a t hs _ => hstep s a t hs
  exact h.invariant hguarded (fun _ _ => trivial) h₀

/-- The invariant rule, for every state of a guarded run. -/
theorem always {Inv : σ → Prop} {C : σ → α → Prop}
    (hstep : ∀ s a t, step s a t → C s a → Inv s → Inv t)
    (h : Run step s ms t) (hC : Guarded C ms) (h₀ : Inv s) : Always Inv s ms := by
  induction h with
  | nil => exact always_nil.mpr h₀
  | snoc hrun hs ih =>
    obtain ⟨hC, ha⟩ := guarded_snoc.mp hC
    exact always_snoc.mpr ⟨ih hC, hstep _ _ _ hs ha (hrun.invariant hstep hC h₀)⟩

/-- **The invariant rule, with a condition on where the run ends**: one that a step does not
bring about. -/
theorem always_of_end (Inv Q : σ → Prop) {P : σ → Prop} {C : σ → α → Prop}
    (hstep : ∀ s a t, step s a t → C s a → Inv s → Inv t)
    (hback : ∀ s a t, step s a t → Q t → Q s) (hP : ∀ s, Inv s → Q s → P s)
    (h : Run step s ms t) (hC : Guarded C ms) (h₀ : Inv s) (hQ : Q t) : Always P s ms := by
  induction h with
  | nil => exact always_nil.mpr (hP _ h₀ hQ)
  | snoc hrun hs ih =>
    obtain ⟨hC, ha⟩ := guarded_snoc.mp hC
    exact always_snoc.mpr ⟨ih hC (hback _ _ _ hs hQ),
      hP _ (hstep _ _ _ hs ha (hrun.invariant hstep hC h₀)) hQ⟩

/-- What holds all along a run holds where it ends. -/
theorem of_always {P : σ → Prop} (h : Run step s ms t) (hP : Always P s ms) : P t := by
  cases h with
  | nil => exact hP.1
  | snoc => exact (always_snoc.mp hP).2

/-- What holds all along a run holds of the state each of its moves is made in. -/
theorem before_of_always {P : σ → Prop} (h : Run step s ms t) (hP : Always P s ms)
    {m : Move σ α} (hm : m ∈ ms) : P m.before := by
  induction h with
  | nil => exact absurd hm List.not_mem_nil
  | @snoc t u ms a hrun hs ih =>
    obtain ⟨hP, -⟩ := always_snoc.mp hP
    rcases List.mem_append.mp hm with hm | hm
    · exact ih hP hm
    · -- the last move is made where the moves before it led
      obtain rfl := List.mem_singleton.mp hm
      exact hrun.of_always hP

/-- **The exact rule.** Suppose that, from a state where the invariant and the
property hold, a step that meets the guard keeps both, and a step that does not
breaks the property. Then the property holds all along a run exactly when every
step of the run meets the guard. -/
theorem always_iff {Inv P : σ → Prop} {C : σ → α → Prop}
    (hkeep : ∀ s a t, step s a t → C s a → Inv s → P s → Inv t ∧ P t)
    (hbreak : ∀ s a t, step s a t → ¬C s a → Inv s → P s → ¬P t)
    (h : Run step s ms t) (h₀ : Inv s) (hP : P s) :
    Always P s ms ↔ Guarded C ms := by
  have hboth : ∀ {ms : List (Move σ α)} {t : σ}, Run step s ms t → Guarded C ms →
      Inv t ∧ P t := by
    intro ms t hr hC
    let Both : σ → Prop := fun x => Inv x ∧ P x
    have hstep : ∀ x a y, step x a y → C x a → Both x → Both y :=
      fun x a y hs hc hi => hkeep x a y hs hc hi.1 hi.2
    have hboth : Both t := hr.invariant hstep hC ⟨h₀, hP⟩
    exact hboth
  -- induction on the run: as long as its steps meet the guard both properties hold, so that
  -- the next step keeps `P` or breaks it as it meets the guard or not
  induction h with
  | nil => simpa using hP
  | snoc hrun hs ih =>
    rw [always_snoc, guarded_snoc]
    refine (and_congr_left' ih).trans (and_congr_right fun hC => ?_)
    obtain ⟨hi, hp⟩ := hboth hrun hC
    exact ⟨fun hu => by_contra fun hn => hbreak _ _ _ hs hn hi hp hu,
      fun hc => (hkeep _ _ _ hs hc hi hp).2⟩

/-- The exact rule, where it is known of each step what it takes to keep the property, and the
invariant is kept in any case. -/
theorem always_iff_step {Inv P : σ → Prop} {C : σ → α → Prop}
    (hexact : ∀ s a t, step s a t → Inv s → P s → Inv t ∧ (P t ↔ C s a))
    (h : Run step s ms t) (h₀ : Inv s) (hP : P s) : Always P s ms ↔ Guarded C ms := by
  have hkeep : ∀ s a t, step s a t → C s a → Inv s → P s → Inv t ∧ P t := by
    intro s a t hs hC hi hp
    obtain ⟨hinv, hiff⟩ := hexact s a t hs hi hp
    exact ⟨hinv, hiff.mpr hC⟩
  have hbreak : ∀ s a t, step s a t → ¬C s a → Inv s → P s → ¬P t :=
    fun s a t hs hC hi hp ht => hC ((hexact s a t hs hi hp).2.mp ht)
  exact h.always_iff hkeep hbreak h₀ hP

/-- **The counted rule**: an invariant indexed by what has been spent so far,
kept by every guarded step that stays within the budget. -/
theorem counted {cost : α → ℕ} {budget : ℕ} {Inv : ℕ → σ → Prop} {C : σ → α → Prop}
    (hstep : ∀ n s a t, step s a t → C s a → n + cost a < budget → Inv n s →
      Inv (n + cost a) t)
    (h : Run step s ms t) (hC : Guarded C ms) (hms : spent cost ms < budget)
    (h₀ : Inv 0 s) : Inv (spent cost ms) t := by
  induction h with
  | nil => simpa using h₀
  | snoc _ hs ih =>
    obtain ⟨hC, ha⟩ := guarded_snoc.mp hC
    rw [spent_snoc] at hms ⊢
    exact hstep _ _ _ _ hs ha hms (ih hC (by omega))

/-- The counted rule, at the state every move of the run is made in: what has
been spent before the move, and the move itself, stay within the budget. -/
theorem counted_mem {cost : α → ℕ} {budget : ℕ} {Inv : ℕ → σ → Prop} {C : σ → α → Prop}
    (hstep : ∀ n s a t, step s a t → C s a → n + cost a < budget → Inv n s →
      Inv (n + cost a) t)
    (h : Run step s ms t) (hC : Guarded C ms) (hms : spent cost ms < budget)
    (h₀ : Inv 0 s) {m : Move σ α} (hm : m ∈ ms) :
    ∃ n, n + cost m.label < budget ∧ Inv n m.before := by
  obtain ⟨ms₁, ms₂, rfl, h₁, -, -⟩ := h.split hm
  have hlt : spent cost ms₁ + cost m.label < budget := by
    -- the moves up to `m` spend no more than the whole run
    simp only [spent, List.map_append, List.map_cons, List.sum_append, List.sum_cons] at hms ⊢
    omega
  have hC₁ : Guarded C ms₁ := fun m' hm' => hC m' (List.mem_append_left _ hm')
  exact ⟨spent cost ms₁, hlt, h₁.counted hstep hC₁ (by omega) h₀⟩

/-- **Trace refinement**: where every step of one system is matched by a run of another that
shows the same, so is every run. -/
theorem refines {τ β γ : Type*} {step' : τ → β → τ → Prop} {R : σ → τ → Prop}
    {C : σ → α → Prop} (shows : Move σ α → List γ) (shows' : Move τ β → List γ)
    (hstep : ∀ s a t x, step s a t → C s a → R s x →
      ∃ ms y, Run step' x ms y ∧ R t y ∧ ms.flatMap shows' = shows ⟨s, a, t⟩)
    (h : Run step s ms t) (hC : Guarded C ms) {x : τ} (h₀ : R s x) :
    ∃ ms' y, Run step' x ms' y ∧ R t y ∧ ms'.flatMap shows' = ms.flatMap shows := by
  induction h with
  | nil => exact ⟨[], x, Run.nil x, h₀, rfl⟩
  | snoc _ hs ih =>
    obtain ⟨hC, ha⟩ := guarded_snoc.mp hC
    obtain ⟨ms', y, hrun, hR, hshows⟩ := ih hC
    obtain ⟨ms'', z, hrun', hR', hshows'⟩ := hstep _ _ _ _ hs ha hR
    refine ⟨ms' ++ ms'', z, hrun.append hrun', hR', ?_⟩
    rw [List.flatMap_append, List.flatMap_append, List.flatMap_singleton, hshows, hshows']

/-- **Forward simulation**: where every step of one system is matched by a run of
another, so is every run. -/
theorem simulate {τ β : Type*} {step' : τ → β → τ → Prop} {R : σ → τ → Prop}
    {C : σ → α → Prop}
    (hstep : ∀ s a t x, step s a t → C s a → R s x → ∃ ms y, Run step' x ms y ∧ R t y)
    (h : Run step s ms t) (hC : Guarded C ms) {x : τ} (h₀ : R s x) :
    ∃ ms' y, Run step' x ms' y ∧ R t y := by
  let silent : Move σ α → List Unit := fun _ => []
  let silent' : Move τ β → List Unit := fun _ => []
  obtain ⟨ms', y, hrun, hR, -⟩ := h.refines silent silent'
    (fun s a t x hs ha hR =>
      let ⟨ms', y, hrun, hR⟩ := hstep s a t x hs ha hR
      ⟨ms', y, hrun, hR, List.flatMap_eq_nil_iff.mpr fun _ _ => rfl⟩)
    hC h₀
  exact ⟨ms', y, hrun, hR⟩

end Run

/-! ### Systems that compute their steps -/

section Trace

variable {step : σ → α → Option σ} {s t : σ} {labels : List α} {ms : List (Move σ α)}

/-- Take steps under labels one after the other, as long as they can happen. -/
def trace (step : σ → α → Option σ) : σ → List α → Option (List (Move σ α) × σ)
  | s, [] => some ([], s)
  | s, a :: rest =>
    match step s a with
    | none => none
    | some t => (trace step t rest).map fun (ms, u) => (⟨s, a, t⟩ :: ms, u)

/-- **What is traced is a run**, under the labels given. -/
theorem run_of_trace (h : trace step s labels = some (ms, t)) :
    Run (fun s a t => step s a = some t) s ms t ∧ ms.map Move.label = labels := by
  induction labels generalizing s ms with
  | nil =>
    obtain ⟨rfl, rfl⟩ := Prod.mk.inj (Option.some.inj h)
    exact ⟨.nil s, rfl⟩
  | cons a rest ih =>
    rw [trace] at h
    rcases hstep : step s a with _ | u
    · rw [hstep] at h
      exact absurd h (by simp)
    · rw [hstep] at h
      obtain ⟨⟨ms', t'⟩, hrest, hms⟩ := Option.map_eq_some_iff.mp h
      obtain ⟨rfl, rfl⟩ := Prod.mk.inj hms
      obtain ⟨hrun, hlabels⟩ := ih hrest
      have hfirst : Run (fun s a t => step s a = some t) s [⟨s, a, u⟩] u := Run.single hstep
      exact ⟨hfirst.append hrun, congrArg (a :: ·) hlabels⟩

end Trace

end Transition
