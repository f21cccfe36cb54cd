import SaferRing.Backend.IoUring

/-!
# The lengths of what is queued

A buffer has as many bytes as an address has room for, and an entry of the submission queue has
32 bits for their number. The number is cast, so that a buffer of more bytes is read or written in
part, and nobody is told: `SaferRing.IoUringBackend.keepsLength_iff`.
-/

namespace SaferRing

/-- The number of bytes of an entry; one that accepts a connection has none. -/
def Opcode.len : Opcode → Option ℕ
  | .read _ _ len _ | .write _ _ len _ | .send _ _ len | .recv _ _ len => some len
  | .accept .. => none

/-- The number of bytes of an entry is the one asked for, cast to 32 bits. -/
theorem Request.len_toEntry {request : Request} {entry : Entry} {len : ℕ}
    (h : request.toEntry = .ok entry) (hlen : entry.opcode.len = some len) :
    len = asU32 request.bufferLen := by
  rw [toEntry] at h
  split at h
  case h_3 =>
    obtain rfl := Except.ok.inj h
    cases hlen
  case h_6 | h_7 => cases h
  all_goals
    obtain rfl := Except.ok.inj h
    exact (Option.some.inj hlen).symm

namespace IoUringBackend

variable {K : IoUring}

section

variable (b : IoUringBackend K) (request : Request)

/-- A submission puts an entry in the queue. -/
def Pushes (entry : Entry) : Prop :=
  request.toEntry = .ok entry ∧ ∃ ring, K.push b.ring entry = some ring

/-- **A submission keeps the length** of the buffer, or refuses it. -/
structure KeepsLength : Prop where
  /-- An entry is queued with the length that was asked for, if it has one. -/
  length : ∀ entry, b.Pushes request entry →
    ∀ len, entry.opcode.len = some len → len = request.bufferLen
  /-- A length of more than 32 bits is rejected, and then nothing is queued. -/
  rejected : 2 ^ 32 ≤ request.bufferLen → (∀ entry, ¬b.Pushes request entry) ∧
    ∀ choice, ∃ e, b.submitOperation request choice = (.error e, b)

end

variable {b : IoUringBackend K} {request : Request}

/-- **An entry is queued unless the submission fails early.** -/
theorem exists_pushes : (∃ entry, b.Pushes request entry) ↔ ¬b.FailsEarly request := by
  rcases request.toEntry_cases with ⟨hvec, e, he⟩ | ⟨hvec, entry, he, -⟩
  · refine iff_of_false (fun ⟨entry, hentry, _⟩ => ?_) fun hearly => hearly (Or.inl hvec)
    exact absurd (he.symm.trans hentry) (by simp)
  rw [FailsEarly, hvec]
  rcases hfull : K.isFull b.ring with _ | _
  · obtain ⟨ring, hpush, -⟩ := K.push_queued b.ring entry hfull
    exact iff_of_true ⟨entry, he, ring, hpush⟩ (by simp)
  · refine iff_of_false (fun ⟨entry, _, ring, hpush⟩ => ?_) (by simp)
    exact absurd ((K.push_full b.ring entry hfull).symm.trans hpush) (by simp)

/-- **A submission keeps the length exactly when it has 32 bits**, or fails before anything is
queued. -/
theorem keepsLength_iff (b : IoUringBackend K) (request : Request) :
    b.KeepsLength request ↔ request.bufferLen < 2 ^ 32 ∨ b.FailsEarly request := by
  refine ⟨fun h => ?_, ?_⟩
  · by_contra hnot
    obtain ⟨hlong, hlate⟩ := not_or.mp hnot
    obtain ⟨entry, hpushes⟩ := exists_pushes.mpr hlate
    exact (h.rejected (Nat.not_lt.mp hlong)).1 entry hpushes
  · rintro (hshort | hearly)
    · refine ⟨fun entry hpushes len hlen => ?_, fun hlong => absurd hshort (Nat.not_lt.mpr hlong)⟩
      rw [Request.len_toEntry hpushes.1 hlen, asU32, Nat.mod_eq_of_lt hshort]
    · have hnone : ∀ entry, ¬b.Pushes request entry := fun entry hpushes =>
        exists_pushes.mp ⟨entry, hpushes⟩ hearly
      refine ⟨fun entry hpushes => absurd hpushes (hnone entry), fun _ => ⟨hnone, fun choice => ?_⟩⟩
      rcases b.submitOperation_cases request choice with ⟨-, hsub⟩ | ⟨_, _, hlate, -⟩
      · exact hsub
      · exact absurd hearly hlate

/-- A read of eight bytes more than 32 bits can count. -/
def longRead : Request := ⟨.read, 3, 0, some 4096, 2 ^ 32 + 8, 1, .owned 0⟩

/-- **It is accepted as a read of eight bytes.** -/
theorem not_keepsLength_longRead :
    (ofQueues.submitOperation longRead ⟨none, 0, []⟩).1 = .ok () ∧
    IoUring.queues.queued (ofQueues.submitOperation longRead ⟨none, 0, []⟩).2.ring =
      [⟨.read 3 (some 4096) 8 0, 1⟩] ∧
    ¬ofQueues.KeepsLength longRead := by
  refine ⟨rfl, rfl, fun h => ?_⟩
  have hpushes : ofQueues.Pushes longRead ⟨.read 3 (some 4096) 8 0, 1⟩ := ⟨rfl, _, rfl⟩
  exact absurd (h.length _ hpushes 8 rfl) (by decide)

end IoUringBackend

end SaferRing
