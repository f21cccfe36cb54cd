import SaferRing.Ownership.Sharing
import SaferRing.SafeOperations

/-!
# Whose buffer an owned submission uses

An owned submission asks its buffer where the bytes are, and a buffer that is not the user's
answers with the null pointer and no bytes. Nobody looks at this answer, so the request goes to
the backend all the same: `SaferRing.OwnedCall.usesOwn_iff`.
-/

namespace SaferRing

/-- **Who asks for bytes that are not the user's** gets none, at the null pointer. -/
theorem BufferOwnership.asPtrAndLen_of_not_user {o : BufferOwnership} (h : ¬o.isUserOwned) :
    o.asPtrAndLen = (none, 0) := by
  cases o with
  | user buf => exact absurd rfl h
  | kernel buf id => rfl
  | returning => rfl

namespace OwnedCall

/-- How many bytes the call asks for. -/
def wanted (call : OwnedCall) (buffer : OwnedBuffer) : ℕ :=
  match call with
  | .writeAtOwned _ _ len => len
  | _ => buffer.size

/-- The call writes some bytes, of a number it names. -/
def WritesSome (call : OwnedCall) : Prop :=
  match call with
  | .writeAtOwned _ _ len => 0 < len
  | _ => False

section

variable (call : OwnedCall) (ring : Ring) (heap : Heap) (buffer : OwnedBuffer)

/-- **The call hands a request to the backend**, which has it then if it accepts. -/
def Hands (request : Request) : Prop :=
  (call.submit ring heap buffer (.ok ())).2.backend = ring.backend.accepted request

/-- **The call fails**: the backend has nothing from it, and its future says so. -/
def Fails : Prop :=
  ∀ answer, (call.submit ring heap buffer answer).2.backend = ring.backend ∧
    ∀ ring' waker fail, ((call.submit ring heap buffer answer).1.poll ring' waker fail).1 =
      .ready (.error (.io (.other SafeOperationFuture.texts.failed)))

/-- **The call uses a buffer of the user's only**, whose bytes are at `addr`. -/
structure UsesOwn (addr : ℕ) : Prop where
  /-- A request is made of a buffer that the user owns, if it has enough bytes. -/
  hands : (∃ request, call.Hands ring heap buffer request) ↔
    (heap.cell buffer.inner).isUserOwned ∧ call.wanted buffer ≤ buffer.size
  /-- It is about the bytes of the buffer. -/
  own : ∀ request, call.Hands ring heap buffer request →
    request.bufferPtr = some addr ∧ request.bufferLen = call.wanted buffer
  /-- Without a request the call fails. -/
  fails : (¬∃ request, call.Hands ring heap buffer request) → call.Fails ring heap buffer

end

variable {call : OwnedCall} {ring : Ring} {heap : Heap} {buffer : OwnedBuffer}

/-- **A call hands over its request**, if it gets as far as the backend. -/
theorem hands_iff {request : Request} : call.Hands ring heap buffer request ↔
    call.Fits heap buffer ∧ request = call.request heap buffer ring.nextSubmissionId := by
  rw [Hands]
  rcases call.submit_cases ring heap buffer (.ok ()) with ⟨-, hfit, hsub⟩ | ⟨hnot, hsub⟩
  · rw [hsub]
    refine ⟨fun h => ⟨hfit, ?_⟩, fun ⟨_, h⟩ => by rw [h]; rfl⟩
    have hpending := congrArg Backend.pending h
    exact (List.singleton_injective (List.append_cancel_left hpending)).symm
  · rw [hsub]
    refine iff_of_false (fun h => ?_) fun ⟨hfit, _⟩ => hnot ⟨rfl, hfit⟩
    have hpending := congrArg Backend.pending h
    exact absurd hpending (by simp [Backend.accepted, Ring.drawn])

theorem exists_hands :
    (∃ request, call.Hands ring heap buffer request) ↔ call.Fits heap buffer :=
  ⟨fun ⟨_, hhands⟩ => (hands_iff.mp hhands).1, fun hfits => ⟨_, hands_iff.mpr ⟨hfits, rfl⟩⟩⟩

/-- **A call that does not get as far fails.** -/
theorem fails_of_not_fits (h : ¬call.Fits heap buffer) : call.Fails ring heap buffer := by
  intro answer
  rcases call.submit_cases ring heap buffer answer with ⟨-, hfit, -⟩ | ⟨-, hsub⟩
  · exact absurd hfit h
  · rw [hsub]
    exact ⟨rfl, fun ring' waker fail => rfl⟩

/-- Of a buffer that the user owns a call gets as many bytes as there are. -/
theorem fits_iff_of_user {addr : ℕ}
    (h : buffer.asPtrAndLen heap = (some addr, buffer.size)) :
    call.Fits heap buffer ↔ call.wanted buffer ≤ buffer.size := by
  cases call with
  | writeAtOwned fd offset len => rw [Fits, h, wanted]
  | _ => exact iff_of_true trivial (Nat.le_refl _)

/-- Of any other buffer it gets none. -/
theorem fits_iff_of_not_user (h : ¬(heap.cell buffer.inner).isUserOwned) :
    call.Fits heap buffer ↔ ¬call.WritesSome := by
  cases call with
  | writeAtOwned fd offset len =>
    rw [Fits, OwnedBuffer.asPtrAndLen, BufferOwnership.asPtrAndLen_of_not_user h, WritesSome,
      Nat.not_lt]
  | _ => exact iff_of_true trivial id

/-- The request names the place of the bytes that the buffer tells. -/
theorem bufferPtr_request {id : ℕ} :
    (call.request heap buffer id).bufferPtr = (buffer.asPtrAndLen heap).1 := by
  cases call <;> rfl

/-- And as many bytes as were asked for. -/
theorem bufferLen_request {id : ℕ} (h : (buffer.asPtrAndLen heap).2 = buffer.size) :
    (call.request heap buffer id).bufferLen = call.wanted buffer := by
  cases call with
  | writeAtOwned fd offset len => rfl
  | _ => exact h

/-- **A buffer that the user owns is used** as it should be. -/
theorem usesOwn_of_user {box : BoxedSlice} (h : heap.cell buffer.inner = .user box)
    (hsize : box.bytes.length = buffer.size) : call.UsesOwn ring heap buffer box.addr := by
  have hinfo : buffer.asPtrAndLen heap = (some box.addr, buffer.size) := by
    rw [OwnedBuffer.asPtrAndLen, h, ← hsize]
    rfl
  have howned : (heap.cell buffer.inner).isUserOwned := by
    rw [h]
    rfl
  refine ⟨?_, fun request hhands => ?_, fun hnone => ?_⟩
  · rw [exists_hands, fits_iff_of_user hinfo]
    exact (and_iff_right howned).symm
  · obtain ⟨-, rfl⟩ := hands_iff.mp hhands
    exact ⟨by rw [bufferPtr_request, hinfo], bufferLen_request (by rw [hinfo])⟩
  · exact fails_of_not_fits fun hfits => hnone (exists_hands.mpr hfits)

/-- **A buffer that the user does not own is used all the same**, unless some bytes of it are to
be written at an offset. -/
theorem usesOwn_iff_of_not_user {addr : ℕ} (h : ¬(heap.cell buffer.inner).isUserOwned) :
    call.UsesOwn ring heap buffer addr ↔ call.WritesSome := by
  have hfits : call.Fits heap buffer ↔ ¬call.WritesSome := fits_iff_of_not_user h
  refine ⟨fun huses => ?_, fun hsome => ?_⟩
  · by_contra hsome
    exact h (huses.hands.mp (exists_hands.mpr (hfits.mpr hsome))).1
  · have hnone : ¬∃ request, call.Hands ring heap buffer request :=
      fun hhands => hfits.mp (exists_hands.mp hhands) hsome
    exact ⟨iff_of_false hnone fun ⟨howned, _⟩ => h howned,
      fun request hhands => absurd ⟨request, hhands⟩ hnone,
      fun _ => fails_of_not_fits fun hfit => hfits.mp hfit hsome⟩

/-- **An owned submission uses a buffer of the user's only, exactly when it is one or some bytes
of it are to be written at an offset**: in these cases the submission is made of the bytes of the
buffer, or it fails. -/
theorem usesOwn_iff {made : OwnedBuffer × Heap} {addr : ℕ}
    {ms : List (Transition.Move Sharing Sharing.Event)} {s : Sharing}
    (hmade : ∃ heap, (∃ n, made = OwnedBuffer.new heap addr n) ∨
      ∃ data, made = OwnedBuffer.fromSlice heap addr data)
    (hrun : Transition.Run Sharing.Step (.new made) ms s) (hmem : buffer ∈ s.handles)
    (call : OwnedCall) (ring : Ring) :
    call.UsesOwn ring s.heap buffer addr ↔
      (s.heap.cell buffer.inner).isUserOwned ∨ call.WritesSome := by
  have hstep : ∀ s e t, Sharing.Step s e t → Sharing.Placed addr made.1.size s →
      Sharing.Placed addr made.1.size t := fun s e t hstep h => h.step hstep
  obtain ⟨hnamed, bytes, hcustody, hlen⟩ := hrun.preserves _ hstep (Sharing.placed_new hmade)
  obtain ⟨hcell, hsize⟩ := hnamed buffer hmem
  by_cases howned : (s.heap.cell buffer.inner).isUserOwned
  · cases hcustody with
    | user huser hguards =>
      rw [← hcell] at huser
      exact iff_of_true (usesOwn_of_user huser (hlen.trans hsize.symm)) (Or.inl howned)
    | kernel id hkernel hguards =>
      exact absurd howned (by simp [hcell, hkernel, BufferOwnership.isUserOwned])
    | guard hreturning hguards =>
      exact absurd howned (by simp [hcell, hreturning, BufferOwnership.isUserOwned])
  · exact (usesOwn_iff_of_not_user howned).trans (or_iff_right howned).symm

/-- A guard has the bytes of a buffer, through another handle. -/
def heldByGuard : List Sharing.Event := [.cloneHandle 0, .tryAccess 1]

/-- **A read is submitted at the null pointer**, and so is a write of no bytes. -/
theorem not_usesOwn_heldByGuard : ∃ ms s,
    Transition.Run Sharing.Step (.new (OwnedBuffer.new .empty 4096 8)) ms s ∧
    ms.map Transition.Move.label = heldByGuard ∧ (⟨0, 8, 0⟩ : OwnedBuffer) ∈ s.handles ∧
    (readOwned 3).Hands .new s.heap ⟨0, 8, 0⟩ ⟨.read, 3, 0, none, 0, 1, .owned 0⟩ ∧
    ¬(readOwned 3).UsesOwn .new s.heap ⟨0, 8, 0⟩ 4096 ∧
    ¬(writeAtOwned 3 0 0).UsesOwn .new s.heap ⟨0, 8, 0⟩ 4096 := by
  have hend : (Transition.trace Sharing.step (.new (OwnedBuffer.new .empty 4096 8))
      heldByGuard).map (fun x => (x.2.heap.cell 0, x.2.handles)) =
        some (.returning, [⟨0, 8, 0⟩, ⟨0, 8, 0⟩]) := by
    decide
  obtain ⟨⟨ms, s⟩, htrace, hend⟩ := Option.map_eq_some_iff.mp hend
  obtain ⟨hcell, hhandles⟩ : s.heap.cell 0 = .returning ∧
    s.handles = [⟨0, 8, 0⟩, ⟨0, 8, 0⟩] := Prod.mk.inj hend
  obtain ⟨hrun, hlabels⟩ := Transition.run_of_trace htrace
  have howned : ¬(s.heap.cell 0).isUserOwned := by
    rw [hcell]
    decide
  have hrequest : (readOwned 3).request s.heap ⟨0, 8, 0⟩ 1 = ⟨.read, 3, 0, none, 0, 1, .owned 0⟩ :=
    by simp [request, OwnedBuffer.asPtrAndLen, BufferOwnership.asPtrAndLen_of_not_user howned]
  refine ⟨ms, s, hrun, hlabels, by simp [hhandles], hands_iff.mpr ⟨trivial, hrequest.symm⟩,
    fun h => ?_, fun h => ?_⟩
  · exact (usesOwn_iff_of_not_user howned).mp h
  · exact absurd ((usesOwn_iff_of_not_user howned).mp h) (Nat.lt_irrefl 0)

/-- The guard has come and gone. -/
def givenBackByGuard : List Sharing.Event := heldByGuard ++ [.dropGuard 0]

/-- **A write is submitted where the bytes are.** -/
theorem usesOwn_givenBackByGuard : ∃ ms s,
    Transition.Run Sharing.Step (.new (OwnedBuffer.new .empty 4096 8)) ms s ∧
    ms.map Transition.Move.label = givenBackByGuard ∧
    (writeAtOwned 3 0 4).UsesOwn .new s.heap ⟨0, 8, 0⟩ 4096 := by
  have hend : (Transition.trace Sharing.step (.new (OwnedBuffer.new .empty 4096 8))
      givenBackByGuard).map (fun x => ((x.2.heap.cell 0).isUserOwned, x.2.handles)) =
        some (true, [⟨0, 8, 0⟩, ⟨0, 8, 0⟩]) := by
    decide
  obtain ⟨⟨ms, s⟩, htrace, hend⟩ := Option.map_eq_some_iff.mp hend
  obtain ⟨howned, hhandles⟩ : (s.heap.cell 0).isUserOwned = true ∧
    s.handles = [⟨0, 8, 0⟩, ⟨0, 8, 0⟩] := Prod.mk.inj hend
  obtain ⟨hrun, hlabels⟩ := Transition.run_of_trace htrace
  have hmem : (⟨0, 8, 0⟩ : OwnedBuffer) ∈ s.handles := by simp [hhandles]
  exact ⟨ms, s, hrun, hlabels,
    (usesOwn_iff ⟨.empty, Or.inl ⟨8, rfl⟩⟩ hrun hmem (writeAtOwned 3 0 4) .new).mpr
      (Or.inl howned)⟩

end OwnedCall

end SaferRing
