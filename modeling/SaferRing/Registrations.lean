import Mathlib.Algebra.Ring.Nat
import Mathlib.Data.List.Induction
import SaferRing.Operation

/-!
# Registrations

The tracker of the legacy operations draws their ids from a counter that wraps, and puts an
operation under its id without looking whether there is one already. Of a tracker that any
calls have led to (`SaferRing.OperationTracker.after`), the operations in flight are those that
were registered and not completed since (`SaferRing.OperationTracker.mem_after_iff`), each under
the id its number gives.

`SaferRing.OperationTracker.drawsFresh_iff` is that **every registration draws an id of its own
exactly when no operation is in flight for 2^64 registrations**.
-/

namespace SaferRing

namespace OperationTracker

/-! ### What can be called -/

/-- A call of a tracker. -/
inductive Call
  /-- `register_operation_with_buffer`, and without a buffer `register_operation`. -/
  | register (opType : OperationType) (fd : ℤ) (buffer : Option TrackedBuffer)
  /-- `complete_operation`. -/
  | complete (id : ℕ)
  deriving DecidableEq

/-- Whether a call registers an operation. -/
def Call.isRegister : Call → Bool
  | .register _ _ _ => true
  | .complete _ => false

/-- A tracker after a call. -/
def call (self : OperationTracker) : Call → OperationTracker
  | .register opType fd buffer => (self.registerOperationWithBuffer opType fd buffer).2
  | .complete id => (self.completeOperation id).2

/-- **A new tracker after calls.** -/
def after (calls : List Call) : OperationTracker := calls.foldl call new

/-- How many operations calls register. -/
def registrations (calls : List Call) : ℕ := calls.countP Call.isRegister

/-- The id of the operation registered after `n` others. -/
def drawnId (n : ℕ) : ℕ := (n + 1) % 2 ^ 64

/-- **The operation registered after `n` others is in flight**: its id was not completed
since. -/
def InFlightSince (calls : List Call) (n : ℕ) : Prop :=
  ∃ before c since, calls = before ++ c :: since ∧ c.isRegister ∧ registrations before = n ∧
    .complete (drawnId n) ∉ since

/-- **A call draws a fresh id**, if it draws one: under it no operation was in flight, there is
one operation more afterwards, and all that were there are as they were. -/
def Draws (self : OperationTracker) : Call → Prop
  | .register opType fd buffer =>
    let (id, later) := self.registerOperationWithBuffer opType fd buffer
    id ∉ self.inFlight ∧ later.count = self.count + 1 ∧
      ∀ j handle, self.inFlight.lookup j = some handle → later.inFlight.lookup j = some handle
  | .complete _ => True

/-- **All along calls, ids are drawn fresh.** -/
def DrawsFresh (calls : List Call) : Prop :=
  ∀ before c rest, calls = before ++ c :: rest → (after before).Draws c

/-- **No operation stays in flight for 2^64 registrations**: at each, every operation in flight
was registered less than 2^64 registrations before. -/
def InTime (calls : List Call) : Prop :=
  ∀ before c rest, calls = before ++ c :: rest → c.isRegister →
    ∀ n, InFlightSince before n → registrations before < n + 2 ^ 64

/-! ### What is in flight -/

section InFlight

variable {calls before rest : List Call} {c : Call} {n m : ℕ}

theorem after_concat : after (calls ++ [c]) = (after calls).call c := by
  rw [after, List.foldl_append]
  rfl

theorem registrations_append :
    registrations (before ++ rest) = registrations before + registrations rest :=
  List.countP_append ..

theorem registrations_concat_register (h : c.isRegister) :
    registrations (calls ++ [c]) = registrations calls + 1 := by
  rw [registrations_append, registrations, registrations, List.countP_singleton, if_pos h]

theorem registrations_concat_complete (h : ¬c.isRegister) :
    registrations (calls ++ [c]) = registrations calls := by
  rw [registrations_append, registrations, registrations, List.countP_singleton, if_neg h,
    Nat.add_zero]

/-- **The counter counts the registrations.** -/
theorem nextId_after : (after calls).nextId = drawnId (registrations calls) := by
  induction calls using List.reverseRecOn with
  | nil => rfl
  | append_singleton calls c ih =>
    rw [after_concat]
    cases c with
    | register opType fd buffer =>
      rw [registrations_concat_register rfl]
      change wrappingAdd (after calls).nextId 1 = _
      rw [ih, drawnId, drawnId, wrappingAdd]
      omega
    | complete id =>
      rw [registrations_concat_complete (by simp [Call.isRegister])]
      exact ih

/-- What is in flight after one more call. -/
theorem inFlightSince_concat :
    InFlightSince (calls ++ [c]) n ↔
      InFlightSince calls n ∧ c ≠ .complete (drawnId n) ∨
        c.isRegister ∧ n = registrations calls := by
  constructor
  · rintro ⟨before, c', since, heq, hreg, hn, hsince⟩
    rcases List.eq_nil_or_concat since with rfl | ⟨since, last, rfl⟩
    · obtain ⟨rfl, hc⟩ := List.append_inj' heq rfl
      obtain rfl := List.singleton_inj.mp hc
      exact Or.inr ⟨hreg, hn.symm⟩
    · rw [List.concat_eq_append, ← List.cons_append, ← List.append_assoc] at heq
      obtain ⟨rfl, hc⟩ := List.append_inj' heq rfl
      obtain rfl := List.singleton_inj.mp hc
      rw [List.concat_eq_append, List.mem_append, List.mem_singleton, not_or] at hsince
      exact Or.inl ⟨⟨before, c', since, rfl, hreg, hn, hsince.1⟩, Ne.symm hsince.2⟩
  · rintro (⟨⟨before, c', since, rfl, hreg, hn, hsince⟩, hc⟩ | ⟨hreg, rfl⟩)
    · refine ⟨before, c', since ++ [c], by simp, hreg, hn, ?_⟩
      rw [List.mem_append, List.mem_singleton, not_or]
      exact ⟨hsince, Ne.symm hc⟩
    · exact ⟨calls, c, [], rfl, hreg, rfl, List.not_mem_nil⟩

/-- **What a tracker has in flight** are the operations registered and not completed since. -/
theorem mem_after_iff {id : ℕ} :
    id ∈ (after calls).inFlight ↔ ∃ n, InFlightSince calls n ∧ drawnId n = id := by
  induction calls using List.reverseRecOn with
  | nil =>
    refine ⟨fun h => absurd h (AList.notMem_empty _), ?_⟩
    rintro ⟨n, ⟨before, c, since, heq, -⟩, -⟩
    exact absurd heq (by simp)
  | append_singleton calls c ih =>
    rw [after_concat]
    simp only [inFlightSince_concat]
    cases c with
    | register opType fd buffer =>
      change id ∈ ((after calls).inFlight.insert (after calls).nextId _) ↔ _
      rw [AList.mem_insert, ih, nextId_after]
      constructor
      · rintro (rfl | ⟨n, hn, hid⟩)
        · exact ⟨registrations calls, Or.inr ⟨rfl, rfl⟩, rfl⟩
        · exact ⟨n, Or.inl ⟨hn, by simp⟩, hid⟩
      · rintro ⟨n, ⟨hn, -⟩ | ⟨-, rfl⟩, hid⟩
        · exact Or.inr ⟨n, hn, hid⟩
        · exact Or.inl hid.symm
    | complete done =>
      change id ∈ ((after calls).completeOperation done).2.inFlight ↔ _
      rw [mem_completeOperation, ih]
      constructor
      · rintro ⟨hne, n, hn, hid⟩
        refine ⟨n, Or.inl ⟨hn, fun hc => hne ?_⟩, hid⟩
        rw [Call.complete.inj hc, hid]
      · rintro ⟨n, ⟨hn, hc⟩ | ⟨hreg, -⟩, hid⟩
        · exact ⟨fun heq => hc (by rw [hid, heq]), n, hn, hid⟩
        · exact absurd hreg (by simp [Call.isRegister])

/-- An operation in flight was registered before. -/
theorem InFlightSince.lt (h : InFlightSince calls n) : n < registrations calls := by
  obtain ⟨before, c, since, rfl, hreg, rfl, -⟩ := h
  have hmore : registrations (c :: since) = registrations since + 1 :=
    List.countP_cons_of_pos hreg
  rw [registrations_append, hmore]
  omega

/-- What is in flight now was in flight ever since it was registered. -/
theorem InFlightSince.of_append (h : InFlightSince (before ++ rest) n)
    (hn : n < registrations before) : InFlightSince before n := by
  induction rest using List.reverseRecOn with
  | nil => rwa [List.append_nil] at h
  | append_singleton rest c ih =>
    rw [← List.append_assoc] at h
    rcases inFlightSince_concat.mp h with ⟨h, -⟩ | ⟨-, hlast⟩
    · exact ih h
    · rw [hlast, registrations_append] at hn
      omega

/-- Of so many registrations each has its place. -/
theorem exists_registration (h : m < registrations calls) :
    ∃ before c rest, calls = before ++ c :: rest ∧ c.isRegister ∧ registrations before = m := by
  induction calls using List.reverseRecOn with
  | nil => exact absurd h (Nat.not_lt_zero m)
  | append_singleton calls c ih =>
    by_cases hlt : m < registrations calls
    · obtain ⟨before, c', rest, rfl, hreg, hm⟩ := ih hlt
      exact ⟨before, c', rest ++ [c], by simp, hreg, hm⟩
    · by_cases hreg : c.isRegister
      · rw [registrations_concat_register hreg] at h
        exact ⟨calls, c, [], rfl, hreg, by omega⟩
      · rw [registrations_concat_complete hreg] at h
        exact absurd h hlt

/-! ### Fresh ids -/

/-- **A fresh id is one that nothing in flight has.** -/
theorem draws_iff {self : OperationTracker} (hreg : c.isRegister) :
    self.Draws c ↔ self.nextId ∉ self.inFlight := by
  cases c with
  | complete id => exact absurd hreg (by simp [Call.isRegister])
  | register opType fd buffer =>
    refine ⟨And.left, fun hfresh => ⟨hfresh, ?_, fun j handle hj => ?_⟩⟩
    · have hkeys := List.erase_of_not_mem (mt AList.mem_keys.mpr hfresh)
      change (self.inFlight.insert self.nextId _).keys.length = self.inFlight.keys.length + 1
      rw [AList.keys_insert, hkeys, List.length_cons]
    · have hne : j ≠ self.nextId := by
        rintro rfl
        exact hfresh (AList.lookup_isSome.mp (by rw [hj]; rfl))
      exact (AList.lookup_insert_ne hne).trans hj

/-- Which registrations draw a fresh id, by what is in flight. -/
theorem draws_after_iff (hreg : c.isRegister) :
    (after calls).Draws c ↔
      ∀ n, InFlightSince calls n → drawnId n ≠ drawnId (registrations calls) := by
  rw [draws_iff hreg, nextId_after, mem_after_iff, not_exists]
  exact forall_congr' fun n => not_and

/-- **The ids are drawn fresh exactly when no operation stays in flight for 2^64
registrations.** -/
theorem drawsFresh_iff (calls : List Call) : DrawsFresh calls ↔ InTime calls := by
  constructor
  · intro h before c rest heq hreg n hn
    by_contra hlate
    -- the registration 2^64 after the one of the operation drew the same id
    have hlast : n + 2 ^ 64 < registrations (before ++ [c]) := by
      rw [registrations_concat_register hreg]
      omega
    obtain ⟨early, c', mid, hsplit, hreg', hcount⟩ := exists_registration hlast
    have hcalls : calls = early ++ c' :: (mid ++ rest) := by
      rw [heq, ← List.singleton_append, ← List.append_assoc, hsplit, List.append_assoc,
        List.cons_append]
    have hflight : InFlightSince early n := by
      rcases List.eq_nil_or_concat mid with rfl | ⟨mid, last, rfl⟩
      · obtain ⟨rfl, -⟩ := List.append_inj' hsplit rfl
        exact hn
      · rw [List.concat_eq_append, ← List.cons_append, ← List.append_assoc] at hsplit
        obtain ⟨rfl, -⟩ := List.append_inj' hsplit rfl
        exact hn.of_append (by omega)
    refine (draws_after_iff hreg').mp (h early c' _ hcalls) n hflight ?_
    rw [hcount, drawnId, drawnId]
    omega
  · intro h before c rest heq
    by_cases hreg : c.isRegister
    · refine (draws_after_iff hreg).mpr fun n hn hid => ?_
      have hlt := hn.lt
      have hlate := h before c rest heq hreg n hn
      rw [drawnId, drawnId] at hid
      omega
    · cases c with
      | register opType fd buffer => exact absurd rfl hreg
      | complete id => trivial

/-- Operations that complete as soon as they are registered, `k` of them, after one other. -/
def others (k : ℕ) : List Call :=
  (List.range k).flatMap fun n => [.register .read 4 none, .complete (drawnId (n + 1))]

theorem registrations_others (k : ℕ) : registrations (others k) = k := by
  induction k with
  | zero => rfl
  | succ k ih =>
    rw [others, List.range_succ, List.flatMap_append, registrations_append]
    exact congrArg (· + 1) ih

/-- The read registered first is in flight as long as its id does not come around. -/
theorem inFlightSince_others {k : ℕ} (hk : k < 2 ^ 64) :
    InFlightSince (.register .read 3 none :: others k) 0 := by
  refine ⟨[], _, _, rfl, rfl, rfl, fun hmem => ?_⟩
  obtain ⟨n, hn, hc⟩ := List.mem_flatMap.mp hmem
  have hid : drawnId 0 = drawnId (n + 1) := by simpa using hc
  have hlt := List.mem_range.mp hn
  rw [drawnId, drawnId] at hid
  omega

/-- **A read that stays in flight** while as many others are registered and complete as there are
ids but one is overwritten by the next registration, which draws its id again. -/
theorem not_drawsFresh_longRead :
    ¬DrawsFresh (.register .read 3 none :: others (2 ^ 64 - 1) ++ [.register .read 5 none]) := by
  intro h
  have hcount : registrations (.register .read 3 none :: others (2 ^ 64 - 1)) = 2 ^ 64 := by
    rw [registrations, List.countP_cons_of_pos rfl, ← registrations, registrations_others]
    omega
  refine (draws_after_iff rfl).mp (h _ _ [] rfl) 0 (inFlightSince_others (by omega)) ?_
  rw [hcount]
  rfl

end InFlight

end OperationTracker

end SaferRing
