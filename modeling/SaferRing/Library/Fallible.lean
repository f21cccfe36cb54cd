import Mathlib.Logic.Basic

/-!
# Programs that can fail

A `Fallible` program reads and writes a state, step by step, and can throw an error; what it
wrote before it throws stays written. It is **atomic** (`Fallible.Atomic`) when an error leaves
the state as it was.

Whether a program is atomic is decided by the order of its steps. What only reads
(`Fallible.Reads`) can come before (`Fallible.Reads.bind_atomic`), and what cannot throw
(`Fallible.Succeeds`) can come after (`Fallible.Atomic.bind_succeeds`), so that a program that
makes all of its checks before its first write is atomic. A program for a part of the state
(`Fallible.Part`) is atomic for all of it (`Fallible.Atomic.zoom`).
-/

universe u

/-- **A program that can fail**, with an error, a state and a result. -/
abbrev Fallible (ε σ α : Type u) : Type u := ExceptT ε (StateM σ) α

namespace Fallible

variable {ε σ τ α β : Type u}

/-- What a program answers, and the state it leaves, also when it throws. -/
def exec (p : Fallible ε σ α) (s : σ) : Except ε α × σ := StateT.run (ExceptT.run p) s

/-- Throw an error, in a certain case. -/
def failIf (c : Prop) [Decidable c] (e : ε) : Fallible ε σ PUnit :=
  if c then throw e else pure ⟨⟩

/-- **A part of a state**, which is read and written. -/
structure Part (σ τ : Type u) where
  /-- Read the part. -/
  get : σ → τ
  /-- Write the part. -/
  put : τ → σ → σ
  /-- Writing what was read changes nothing. -/
  put_get : ∀ s, put (get s) s = s

/-- Run a program on a part of the state. -/
def zoom (part : Part σ τ) (p : Fallible ε τ α) : Fallible ε σ α :=
  ExceptT.mk fun s => ((p.exec (part.get s)).1, part.put (p.exec (part.get s)).2 s)

/-! ### What a program does -/

section Exec

variable (s : σ)

@[simp] theorem exec_pure (a : α) : (pure a : Fallible ε σ α).exec s = (.ok a, s) := rfl

@[simp] theorem exec_throw (e : ε) : (throw e : Fallible ε σ α).exec s = (.error e, s) := rfl

@[simp] theorem exec_get : (get : Fallible ε σ σ).exec s = (.ok s, s) := rfl

@[simp] theorem exec_modify (f : σ → σ) :
    (modify f : Fallible ε σ PUnit).exec s = (.ok ⟨⟩, f s) := rfl

@[simp] theorem exec_zoom (part : Part σ τ) (p : Fallible ε τ α) :
    (zoom part p).exec s = ((p.exec (part.get s)).1, part.put (p.exec (part.get s)).2 s) := rfl

/-- **One program after another**: the second is run unless the first throws. -/
theorem exec_bind (p : Fallible ε σ α) (f : α → Fallible ε σ β) :
    (p >>= f).exec s =
      match p.exec s with
      | (.ok a, t) => (f a).exec t
      | (.error e, t) => (.error e, t) := by
  rw [exec, ExceptT.run_bind, StateT.run_bind]
  rcases h : p.exec s with ⟨e | a, t⟩
  · rw [exec] at h
    rw [h]
    rfl
  · rw [exec] at h
    rw [h]
    rfl

/-- A result is passed on changed. -/
@[simp] theorem exec_map (p : Fallible ε σ α) (g : α → β) :
    (g <$> p).exec s = ((p.exec s).1.map g, (p.exec s).2) := by
  rw [← bind_pure_comp, exec_bind]
  rcases p.exec s with ⟨e | a, t⟩ <;> rfl

/-- The second program is run where the first one ended. -/
theorem exec_bind_of_ok {p : Fallible ε σ α} {f : α → Fallible ε σ β} {s t : σ} {a : α}
    (h : p.exec s = (.ok a, t)) : (p >>= f).exec s = (f a).exec t := by
  rw [exec_bind, h]

/-- The second program is not run. -/
theorem exec_bind_of_error {p : Fallible ε σ α} {f : α → Fallible ε σ β} {s t : σ} {e : ε}
    (h : p.exec s = (.error e, t)) : (p >>= f).exec s = (.error e, t) := by
  rw [exec_bind, h]

theorem exec_failIf_pos {c : Prop} [Decidable c] (hc : c) (e : ε) :
    (failIf c e : Fallible ε σ PUnit).exec s = (.error e, s) := by
  rw [failIf, if_pos hc]
  rfl

theorem exec_failIf_neg {c : Prop} [Decidable c] (hc : ¬c) (e : ε) :
    (failIf c e : Fallible ε σ PUnit).exec s = (.ok ⟨⟩, s) := by
  rw [failIf, if_neg hc]
  rfl

/-- **A loop of checks** throws at the first that fails. -/
theorem exec_forM_failIf (c : α → Prop) [DecidablePred c] (e : α → ε) (as : List α) :
    (as.forM fun a => (failIf (c a) (e a) : Fallible ε σ PUnit)).exec s =
      match as.find? fun a => decide (c a) with
      | some a => (.error (e a), s)
      | none => (.ok ⟨⟩, s) := by
  induction as with
  | nil => rfl
  | cons a as ih =>
    rw [List.forM]
    by_cases hc : c a
    · have hfind : (a :: as).find? (fun a => decide (c a)) = some a :=
        List.find?_cons_of_pos (decide_eq_true hc)
      rw [exec_bind_of_error (exec_failIf_pos s hc (e a)), hfind]
    · have hfind : (a :: as).find? (fun a => decide (c a)) = as.find? fun a => decide (c a) :=
        List.find?_cons_of_neg (by simpa using hc)
      rw [exec_bind_of_ok (exec_failIf_neg s hc (e a)), ih, hfind]

end Exec

/-! ### Programs that only read, and programs that cannot throw -/

/-- **A program only reads** when it leaves the state as it was. -/
def Reads (p : Fallible ε σ α) : Prop := ∀ s, (p.exec s).2 = s

/-- **A program succeeds** when it does not throw, in whatever state. -/
def Succeeds (p : Fallible ε σ α) : Prop := ∀ s e, (p.exec s).1 ≠ .error e

/-- **A program is atomic** when an error leaves the state as it was. -/
def Atomic (p : Fallible ε σ α) : Prop := ∀ s e, (p.exec s).1 = .error e → (p.exec s).2 = s

variable {p : Fallible ε σ α} {f : α → Fallible ε σ β}

theorem reads_pure (a : α) : (pure a : Fallible ε σ α).Reads := fun _ => rfl

theorem reads_throw (e : ε) : (throw e : Fallible ε σ α).Reads := fun _ => rfl

theorem reads_get : (get : Fallible ε σ σ).Reads := fun _ => rfl

theorem reads_failIf (c : Prop) [Decidable c] (e : ε) :
    (failIf c e : Fallible ε σ PUnit).Reads := by
  intro s
  by_cases hc : c
  · rw [exec_failIf_pos s hc]
  · rw [exec_failIf_neg s hc]

/-- Reading twice is reading. -/
theorem Reads.bind (hp : p.Reads) (hf : ∀ a, (f a).Reads) : (p >>= f).Reads := by
  intro s
  have hs := hp s
  rcases h : p.exec s with ⟨e | a, t⟩
  · rw [exec_bind_of_error h]
    rwa [h] at hs
  · rw [exec_bind_of_ok h, hf a t]
    rwa [h] at hs

/-- A loop whose body only reads does so. -/
theorem Reads.forM {body : α → Fallible ε σ PUnit} (h : ∀ a, (body a).Reads) (as : List α) :
    (as.forM body).Reads := by
  induction as with
  | nil => exact reads_pure _
  | cons a as ih => exact (h a).bind fun _ => ih

theorem succeeds_pure (a : α) : (pure a : Fallible ε σ α).Succeeds :=
  fun _ _ h => absurd h (by simp)

theorem succeeds_modify (g : σ → σ) : (modify g : Fallible ε σ PUnit).Succeeds :=
  fun _ _ h => absurd h (by simp)

/-- What succeeds twice succeeds. -/
theorem Succeeds.bind (hp : p.Succeeds) (hf : ∀ a, (f a).Succeeds) : (p >>= f).Succeeds := by
  intro s e
  rcases h : p.exec s with ⟨e' | a, t⟩
  · exact absurd (congrArg Prod.fst h) (hp s e')
  · rw [exec_bind_of_ok h]
    exact hf a t e

/-- A loop whose body succeeds does so. -/
theorem Succeeds.forM {body : α → Fallible ε σ PUnit} (h : ∀ a, (body a).Succeeds)
    (as : List α) : (as.forM body).Succeeds := by
  induction as with
  | nil => exact succeeds_pure _
  | cons a as ih => exact (h a).bind fun _ => ih

/-! ### Atomic programs -/

/-- What only reads is atomic. -/
theorem Reads.atomic (hp : p.Reads) : p.Atomic := fun s _ _ => hp s

/-- Either of two atomic programs. -/
theorem Atomic.ite {q : Fallible ε σ α} (c : Prop) [Decidable c] (hp : p.Atomic)
    (hq : q.Atomic) : (if c then p else q).Atomic := by
  split
  · exact hp
  · exact hq

/-- What cannot throw is atomic. -/
theorem Succeeds.atomic (hp : p.Succeeds) : p.Atomic := fun s e h => absurd h (hp s e)

/-- **Reading before an atomic program** leaves it atomic. -/
theorem Reads.bind_atomic (hp : p.Reads) (hf : ∀ a, (f a).Atomic) : (p >>= f).Atomic := by
  intro s e herror
  have hs := hp s
  rcases h : p.exec s with ⟨e' | a, t⟩
  · rw [exec_bind_of_error h]
    rwa [h] at hs
  · rw [exec_bind_of_ok h] at herror ⊢
    rw [hf a t e herror]
    rwa [h] at hs

/-- **What cannot throw after an atomic program** leaves it atomic. -/
theorem Atomic.bind_succeeds (hp : p.Atomic) (hf : ∀ a, (f a).Succeeds) : (p >>= f).Atomic := by
  intro s e herror
  rcases h : p.exec s with ⟨e' | a, t⟩
  · rw [exec_bind_of_error h]
    have hs := hp s e'
    rw [h] at hs
    exact hs rfl
  · rw [exec_bind_of_ok h] at herror
    exact absurd herror (hf a t e)

/-- What is done with the result does not matter. -/
theorem Atomic.map (hp : p.Atomic) (g : α → β) : (g <$> p).Atomic := by
  rw [← bind_pure_comp]
  exact hp.bind_succeeds fun a => succeeds_pure (g a)

/-- **What is atomic for a part of the state is so for all of it.** -/
theorem Atomic.zoom {q : Fallible ε τ α} (hq : q.Atomic) (part : Part σ τ) :
    (zoom part q).Atomic := by
  intro s e herror
  rw [exec_zoom, hq (part.get s) e herror]
  exact part.put_get s

end Fallible
