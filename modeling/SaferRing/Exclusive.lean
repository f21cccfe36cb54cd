import SaferRing.Numbering

/-!
# Who may touch a buffer in flight

While an operation is in flight, the cell of its buffer should say that the kernel owns
the bytes for it (`SaferRing.Exclusive`); then no handle gives access, and no second
submission gets through. `accept_safe` does hand its buffer to the kernel. The four
submissions of a read or a write do not: they only ask where the bytes are
(`SaferRing.OwnedBuffer.asPtrAndLen`), and the cell goes on saying that userspace owns
them. `SaferRing.exclusive_iff` is that a run is exclusive exactly when no such submission
is accepted.

A cell never changes between being the kernel's and not being so
(`SaferRing.kernelOwner_step`), and every handle, guard and future of a user stays on the
side of the cells that are not (`SaferRing.Separate`).
-/

namespace SaferRing

open Transition (Move)

/-- **The kernel has the buffers in flight to itself**: the cell of each names its operation,
no handle gives access, and a submission through a handle does not reach the backend. -/
def Exclusive (w : World) : Prop :=
  ∀ r ∈ w.inFlight, ∀ c, r.caller = .owned c →
    (w.heap.cell c).kernelOwner = some r.userData ∧
    (∀ b : OwnedBuffer, b.inner = c → (b.tryAccess w.heap).1 = none) ∧
    ∀ h b call answer response w', w.handles[h]? = some b → b.inner = c →
      Step w ⟨.owned call h answer, response⟩ w' → w'.inFlight = w.inFlight

/-- No read and no write is accepted. -/
def NoneAccepted (w : World) (e : Event) : Prop :=
  ∀ call h answer b, e.action = .owned call h answer → w.handles[h]? = some b →
    ¬(answer = .ok () ∧ call.Fits w.heap b)

/-! ### What is in flight after a step -/

section InFlight

variable {w w' : World} {e : Event} {s t : Ring} {q : Request}

/-- Collecting puts nothing in flight. -/
theorem Ring.Collects.mem (h : s.Collects t) (hq : q ∈ t.backend.inFlight) :
    q ∈ s.backend.inFlight := by
  rcases h.backend with hb | hb
  · rwa [hb] at hq
  · rw [hb, Backend.inFlight_drained] at hq
    exact List.mem_append_left _ hq

/-- A legacy submission puts a legacy operation in flight, or nothing. -/
theorem Ring.mem_inFlight_submit {operation : Operation Building}
    {answer : Except SaferRingError Unit}
    (hq : q ∈ (s.submit operation answer).2.backend.inFlight) :
    q ∈ s.backend.inFlight ∨ q.caller = .legacy := by
  rcases s.submit_cases operation answer with ⟨_, -, h⟩ | ⟨_, -, -, h⟩ | ⟨-, -, h⟩
  · rw [h] at hq
    exact Or.inl hq
  · rw [h] at hq
    exact Or.inl hq
  · rw [h] at hq
    rcases Backend.mem_inFlight_accepted.mp hq with rfl | hq
    · exact Or.inr (Ring.caller_legacyRequest _)
    · exact Or.inl hq

/-- **What a step puts in flight**: a legacy operation; the read or write it accepts; or the
`accept_safe` it accepts. -/
theorem inFlight_step (hstep : Step w e w') (hq : q ∈ w'.inFlight) :
    q ∈ w.inFlight ∨ q.caller = .legacy ∨
      (∃ call h answer b, e.action = .owned call h answer ∧ w.handles[h]? = some b ∧
        answer = .ok () ∧ call.Fits w.heap b ∧ q.caller = .owned b.inner) ∨
      ∃ fd addr, e.action = .acceptSafe fd addr (.ok ()) ∧
        w'.heap = acceptHeap w.heap addr w.ring.nextSubmissionId ∧
        q = acceptRequest w.heap fd addr w.ring.nextSubmissionId := by
  obtain ⟨action, response⟩ := e
  cases action with
  | owned call h answer =>
    obtain ⟨b, hb, ⟨ha, hfit, rfl⟩ | ⟨-, rfl⟩⟩ := hstep.owned
    · rcases Backend.mem_inFlight_accepted.mp hq with rfl | hq
      · exact Or.inr (Or.inr (Or.inl
          ⟨call, h, answer, b, rfl, hb, ha, hfit, OwnedCall.caller_request⟩))
      · exact Or.inl hq
    · exact Or.inl hq
  | acceptSafe fd addr answer =>
    rcases hstep.acceptSafe with ⟨rfl, rfl⟩ | ⟨_, -, rfl⟩
    · rcases Backend.mem_inFlight_accepted.mp hq with rfl | hq
      · exact Or.inr (Or.inr (Or.inr ⟨fd, addr, rfl, rfl, rfl⟩))
      · exact Or.inl hq
    · exact Or.inl hq
  | submit operation answer =>
    obtain ⟨-, rfl⟩ := Prod.mk.inj (Option.some.inj hstep)
    exact (Ring.mem_inFlight_submit hq).imp_right Or.inl
  | submitBatch batch config answers =>
    obtain ⟨result, ring, hcall, hw⟩ := hstep.submitBatch
    let P : ℕ → Ring → Prop := fun _ ring =>
      ∀ q ∈ ring.backend.inFlight, q ∈ w.inFlight ∨ q.caller = .legacy
    have hnext : ∀ k operation ring, Ring.checkBatch batch config = .ok () →
        batch.operations[k]? = some operation →
        (∀ j < k, Ring.Accepts answers batch.operations j) → P k ring →
        P (k + 1) (ring.submit operation (answers k)).2 := by
      intro k operation ring _ _ _ hP q hq
      rcases Ring.mem_inFlight_submit hq with hq | hq
      · exact hP q hq
      · exact Or.inr hq
    have hzero : P 0 w.ring := fun q hq => Or.inl hq
    obtain ⟨k, -, hP⟩ := Ring.submitBatch_invariant hnext hzero
    rw [hcall] at hP
    rcases hw with ⟨_, -, rfl⟩ | ⟨_, -, rfl⟩ <;> exact (hP q hq).imp_right Or.inl
  | pollFuture f waker fail =>
    obtain ⟨_, _, _, ring, -, hpoll, -, rfl⟩ := hstep.pollFuture
    have hq : q ∈ ring.backend.inFlight := hq
    left
    rcases (OwnedFuture.poll_frame hpoll).1 with hb | hb
    · rwa [hb] at hq
    · rw [hb, Backend.inFlight_drained] at hq
      exact List.mem_append_left _ hq
  | dropFuture f =>
    obtain ⟨future, -, rfl⟩ := hstep.dropFuture
    have hq : q ∈ (future.drop w.ring).backend.inFlight := hq
    rw [(future.drop_frame w.ring).1] at hq
    exact Or.inl hq
  | pollBatch | dropBatch | tryComplete | waitForCompletion | tryCompleteById
  | pollOperationCompletion =>
    exact Or.inl ((hstep.collects trivial).mem hq)
  | complete i result =>
    obtain ⟨backend, hb, rfl⟩ := hstep.complete
    exact Or.inl ((Backend.complete_perm hb).subset hq)
  | processCompletions =>
    obtain ⟨-, rfl⟩ := Prod.mk.inj (Option.some.inj hstep)
    exact Or.inl hq
  | newBuffer | fromSlice | cloneHandle | dropHandle | dropGuard | tryAccess =>
    rw [hstep.buffer trivial] at hq
    exact Or.inl hq

end InFlight

/-! ### The cells -/

/-- A cell that exists and is **not the kernel's**. -/
def UserSide (heap : Heap) (c : ℕ) : Prop := c < heap.next ∧ (heap.cell c).kernelOwner = none

/-- **Users hold nothing of the kernel's**: neither by a handle, nor by a guard, nor by the
future of a read or a write; and the cells in flight are all there. -/
structure Separate (w : World) : Prop where
  handle : ∀ b ∈ w.handles, UserSide w.heap b.inner
  guard : ∀ g ∈ w.guards, UserSide w.heap g.ownership
  future : ∀ (future : SafeOperationFuture) (op : SafeOperation) (b : OwnedBuffer),
    some (.safe future) ∈ w.futures → future.operation = some op → op.buffer = some b →
    UserSide w.heap b.inner
  inFlight : ∀ r ∈ w.inFlight, ∀ c, r.caller = .owned c → c < w.heap.next

/-- Cells are only added, and none changes sides. -/
structure Heap.Grows (s t : Heap) : Prop where
  next : s.next ≤ t.next
  cell : ∀ c < s.next, (t.cell c).kernelOwner = (s.cell c).kernelOwner

section Cells

variable {s t : Heap} {c : ℕ} {o : BufferOwnership}

theorem Heap.Grows.refl (s : Heap) : s.Grows s := ⟨le_refl _, fun _ _ => rfl⟩

/-- A cell is allocated. -/
theorem Heap.grows_alloc (s : Heap) (o : BufferOwnership) : s.Grows (s.alloc o).2 :=
  ⟨Nat.le_succ _, fun c hc => by rw [Heap.cell_alloc_of_ne _ _ hc.ne]⟩

/-- A cell is written, and stays on its side. -/
theorem Heap.grows_set (h : o.kernelOwner = (s.cell c).kernelOwner) : s.Grows (s.set c o) := by
  refine ⟨le_refl _, fun d _ => ?_⟩
  by_cases hd : d = c
  · rw [hd, Heap.cell_set_self, h]
  · rw [Heap.cell_set_of_ne _ _ hd]

/-- The cell `accept_safe` makes, and hands to the kernel. -/
theorem grows_acceptHeap (s : Heap) (addr id : ℕ) : s.Grows (acceptHeap s addr id) := by
  refine ⟨Nat.le_succ _, fun c hc => ?_⟩
  rw [acceptHeap, Heap.cell_set_of_ne _ _ hc.ne, Heap.cell_alloc_of_ne _ _ hc.ne]

theorem kernelOwner_acceptHeap (s : Heap) (addr id : ℕ) :
    ((acceptHeap s addr id).cell s.next).kernelOwner = some id := by
  rw [acceptHeap, Heap.cell_set_self]
  rfl

theorem UserSide.grows (h : UserSide s c) (hg : s.Grows t) : UserSide t c :=
  ⟨Nat.lt_of_lt_of_le h.1 hg.next, (hg.cell c h.1).trans h.2⟩

end Cells

section Steps

variable {w w' : World} {e : Event}

/-- An attempt to access leaves the cell on its side. -/
theorem grows_tryAccess (b : OwnedBuffer) (heap : Heap) : heap.Grows (b.tryAccess heap).2 := by
  have hside := @BufferOwnership.kernelOwner_tryAccess (heap.cell b.inner)
  unfold OwnedBuffer.tryAccess
  split
  · rename_i hcall
    rw [hcall] at hside
    exact Heap.grows_set hside
  · rename_i hcall
    rw [hcall] at hside
    exact Heap.grows_set hside

/-- **No cell changes sides.** -/
theorem kernelOwner_step (h : Separate w) (hstep : Step w e w') : w.heap.Grows w'.heap := by
  by_cases hown : e.action.IsOwned
  swap
  · rw [legacy_frame hstep hown]
    exact Heap.Grows.refl _
  obtain ⟨action, response⟩ := e
  cases action with
  | newBuffer | fromSlice =>
    obtain ⟨-, rfl⟩ := Prod.mk.inj (Option.some.inj hstep)
    exact Heap.grows_alloc _ _
  | tryAccess i =>
    obtain ⟨buffer, _, hw⟩ := Option.map_eq_some_iff.mp hstep
    have hgrows := grows_tryAccess buffer w.heap
    split at hw
    all_goals
      rename_i hcall
      rw [hcall] at hgrows
      obtain ⟨-, rfl⟩ := Prod.mk.inj hw
      exact hgrows
  | dropGuard g =>
    obtain ⟨guard, hg, hw⟩ := Option.map_eq_some_iff.mp hstep
    obtain ⟨-, rfl⟩ := Prod.mk.inj hw
    -- the drop looks at nothing, but no guard is of a cell of the kernel's
    exact Heap.grows_set (h.guard guard (List.mem_of_getElem? hg)).2.symm
  | acceptSafe fd addr answer =>
    rcases hstep.acceptSafe with ⟨-, rfl⟩ | ⟨_, -, rfl⟩ <;> exact grows_acceptHeap _ _ _
  | owned call i answer =>
    obtain ⟨_, -, ⟨-, -, rfl⟩ | ⟨-, rfl⟩⟩ := hstep.owned <;> exact Heap.Grows.refl _
  | pollFuture f waker fail =>
    obtain ⟨_, _, _, _, -, -, -, rfl⟩ := hstep.pollFuture
    exact Heap.Grows.refl _
  | dropFuture f =>
    obtain ⟨_, -, rfl⟩ := hstep.dropFuture
    exact Heap.Grows.refl _
  | cloneHandle | dropHandle | complete =>
    obtain ⟨_, _, hw⟩ := Option.map_eq_some_iff.mp hstep
    obtain ⟨-, rfl⟩ := Prod.mk.inj hw
    exact Heap.Grows.refl _
  | _ => exact absurd hown (by simp [Action.IsOwned])

/-- A guard is of the cell of its handle. -/
theorem ownership_of_tryAccess {b : OwnedBuffer} {guard : BufferAccessGuard}
    (h : b.tryAccess s = (some guard, t)) : guard.ownership = b.inner := by
  unfold OwnedBuffer.tryAccess at h
  split at h
  · obtain ⟨hguard, -⟩ := Prod.mk.inj h
    rw [← Option.some.inj hguard]
  · exact absurd (Prod.mk.inj h).1 (by simp)

/-- A new buffer is in a new cell, and the user's. -/
theorem userSide_alloc (heap : Heap) (buf : BoxedSlice) :
    UserSide (heap.alloc (.user buf)).2 heap.next :=
  ⟨Nat.lt_succ_self _, by rw [Heap.cell_alloc_self]; rfl⟩

/-- What a poll hands back is the buffer of the operation. -/
theorem buffer_of_handsBack {future polled : OwnedFuture} {ring ring' : Ring} {waker : Waker}
    {fail : Option SaferRingError} {answer : Poll SafeOutput}
    (hpoll : future.poll ring waker fail = some (answer, polled, ring')) {b : OwnedBuffer}
    (hb : b ∈ future.handsBack answer) :
    ∃ x op, future = .safe x ∧ x.operation = some op ∧ op.buffer = some b := by
  cases future with
  | accept => exact absurd hb (by simp [OwnedFuture.handsBack])
  | safe x =>
    refine ⟨x, ?_⟩
    rcases hop : x.operation with _ | op
    · simp only [OwnedFuture.poll, SafeOperationFuture.poll, hop, pollOperation, Option.some.injEq,
        Prod.mk.injEq] at hpoll
      rw [← hpoll.1] at hb
      exact absurd hb (by simp [OwnedFuture.handsBack])
    · refine ⟨op, rfl, rfl, ?_⟩
      have hop : (OwnedFuture.safe x).operation = some op := hop
      rw [OwnedFuture.poll_eq hop] at hpoll
      obtain ⟨rfl, -, -⟩ : _ = answer ∧ _ ∧ _ := by simpa using hpoll
      simp only [pollOperation] at hb
      split at hb
      · exact absurd hb (by simp [OwnedFuture.handsBack])
      · split at hb
        · split at hb
          · exact absurd hb (by simp [OwnedFuture.handsBack])
          · rename_i buffer hbuf
            unfold settle at hb
            split at hb
            · rw [hbuf, List.mem_singleton.mp hb]
            · exact absurd hb (by simp [OwnedFuture.handsBack])
        · exact absurd hb (by simp [OwnedFuture.handsBack])
        · exact absurd hb (by simp [OwnedFuture.handsBack])

namespace Separate

theorem new : Separate World.new := by
  refine ⟨fun b hb => ?_, fun g hg => ?_, fun future op b hf => ?_, fun r hr => ?_⟩
  · exact absurd hb (by simp [World.new])
  · exact absurd hg (by simp [World.new])
  · exact absurd hf (by simp [World.new])
  · exact absurd hr (by simp [World.new, Ring.new, Backend.new, Backend.inFlight])

/-- The cells in flight are there after a step. -/
theorem inFlight_step (h : Separate w) (hstep : Step w e w') :
    ∀ r ∈ w'.inFlight, ∀ c, r.caller = .owned c → c < w'.heap.next := by
  intro r hr c hc
  have hgrows := kernelOwner_step h hstep
  rcases SaferRing.inFlight_step hstep hr with
    hr | hleg | ⟨call, i, answer, b, -, hb, -, -, hcaller⟩ | ⟨fd, addr, -, hheap, rfl⟩
  · exact Nat.lt_of_lt_of_le (h.inFlight r hr c hc) hgrows.next
  · exact absurd (hc.symm.trans hleg) (by simp)
  · obtain rfl := Caller.owned.inj (hcaller.symm.trans hc)
    exact Nat.lt_of_lt_of_le (h.handle b (List.mem_of_getElem? hb)).1 hgrows.next
  · obtain rfl := Caller.owned.inj hc
    rw [hheap]
    exact Nat.lt_succ_self _

/-- What is held stays on its side, when nothing new is held. -/
theorem of_held (h : Separate w) (hstep : Step w e w')
    (hhandle : ∀ b ∈ w'.handles, b ∈ w.handles ∨ UserSide w'.heap b.inner)
    (hguard : ∀ g ∈ w'.guards, g ∈ w.guards ∨ UserSide w'.heap g.ownership)
    (hfuture : ∀ (future : SafeOperationFuture) (op : SafeOperation) (b : OwnedBuffer),
      some (.safe future) ∈ w'.futures → future.operation = some op → op.buffer = some b →
      UserSide w.heap b.inner) : Separate w' := by
  have hgrows := kernelOwner_step h hstep
  refine ⟨fun b hb => ?_, fun g hg => ?_, fun future op b hf hop hb => ?_,
    h.inFlight_step hstep⟩
  · rcases hhandle b hb with hb | hb
    · exact (h.handle b hb).grows hgrows
    · exact hb
  · rcases hguard g hg with hg | hg
    · exact (h.guard g hg).grows hgrows
    · exact hg
  · exact (hfuture future op b hf hop hb).grows hgrows

/-- The same, when the futures stay as they are. -/
theorem of_futures_eq (h : Separate w) (hstep : Step w e w') (hfutures : w'.futures = w.futures)
    (hhandle : ∀ b ∈ w'.handles, b ∈ w.handles ∨ UserSide w'.heap b.inner)
    (hguard : ∀ g ∈ w'.guards, g ∈ w.guards ∨ UserSide w'.heap g.ownership) : Separate w' := by
  refine h.of_held hstep hhandle hguard fun future op b hf => ?_
  rw [hfutures] at hf
  exact h.future future op b hf

/-- The same, when a future is made that holds the buffer of a handle, or no buffer. -/
theorem of_future_made (h : Separate w) (hstep : Step w e w') {made : OwnedFuture}
    (hfutures : w'.futures = w.futures ++ [some made])
    (hmade : ∀ (future : SafeOperationFuture) (op : SafeOperation) (b : OwnedBuffer),
      made = .safe future → future.operation = some op → op.buffer = some b → b ∈ w.handles)
    (hhandle : ∀ b ∈ w'.handles, b ∈ w.handles) (hguard : w'.guards = w.guards) :
    Separate w' := by
  refine h.of_held hstep (fun b hb => Or.inl (hhandle b hb)) (fun g hg => Or.inl (hguard ▸ hg))
    fun future op b hf hop hb => ?_
  rw [hfutures] at hf
  rcases List.mem_append.mp hf with hf | hf
  · exact h.future future op b hf hop hb
  · have hsome := Option.some.inj (List.mem_singleton.mp hf)
    exact h.handle b (hmade future op b hsome.symm hop hb)

/-- What a poll hands back was held by the future, and so is what the future goes on to hold. -/
theorem pollFuture {f : ℕ} {waker : Waker} {fail : Option SaferRingError} {response : Response}
    (h : Separate w) (hstep : Step w ⟨.pollFuture f waker fail, response⟩ w') : Separate w' := by
  obtain ⟨future, answer, polled, ring, hf, hpoll, -, hw⟩ := hstep.pollFuture
  have hmem : some future ∈ w.futures := List.mem_of_getElem? hf
  refine h.of_held hstep ?_ ?_ ?_
  all_goals subst hw
  · intro b hb
    refine (List.mem_append.mp hb).imp_right fun hb => ?_
    obtain ⟨x, op, rfl, hop, hbuf⟩ := buffer_of_handsBack hpoll hb
    exact h.future x op b hmem hop hbuf
  · exact fun g hg => Or.inl hg
  · intro x op b hx hop hb
    rcases List.mem_or_eq_of_mem_set hx with hx | hx
    · exact h.future x op b hx hop hb
    · obtain rfl := Option.some.inj hx
      obtain ⟨hold, -⟩ := operation_of_poll hpoll hop
      cases future with
      | safe y => exact h.future y op b hmem hold hb
      | accept y =>
        rw [OwnedFuture.poll_eq hold] at hpoll
        exact absurd hpoll (by simp [OwnedFuture.withOperation])

/-- A guard is made of a handle. -/
theorem tryAccess {i : ℕ} {response : Response} (h : Separate w)
    (hstep : Step w ⟨.tryAccess i, response⟩ w') : Separate w' := by
  obtain ⟨b, hb, hw⟩ := Option.map_eq_some_iff.mp hstep
  have hside := (h.handle b (List.mem_of_getElem? hb)).grows (grows_tryAccess b w.heap)
  split at hw
  all_goals
    rename_i hcall
    rw [hcall] at hside
    obtain ⟨-, rfl⟩ := Prod.mk.inj hw
    refine h.of_futures_eq hstep rfl (fun b hb => Or.inl hb) fun g hg => ?_
  · refine (List.mem_append.mp hg).imp_right fun hg => ?_
    rw [List.mem_singleton.mp hg, ownership_of_tryAccess hcall]
    exact hside
  · exact Or.inl hg

/-- **A step keeps users and kernel apart.** -/
theorem step (h : Separate w) (hstep : Step w e w') : Separate w' := by
  by_cases hown : e.action.IsOwned
  swap
  · have hframe := legacy_frame hstep hown
    refine h.of_futures_eq hstep ?_ (fun b hb => Or.inl ?_) (fun g hg => Or.inl ?_)
    · rw [hframe]
    · rwa [hframe] at hb
    · rwa [hframe] at hg
  obtain ⟨action, response⟩ := e
  cases action with
  | newBuffer | fromSlice =>
    obtain ⟨-, rfl⟩ := Prod.mk.inj (Option.some.inj hstep)
    refine h.of_futures_eq hstep rfl (fun b hb => ?_) fun g hg => Or.inl hg
    refine (List.mem_append.mp hb).imp_right fun hb => ?_
    rw [List.mem_singleton.mp hb]
    exact userSide_alloc w.heap _
  | cloneHandle i =>
    obtain ⟨b, hb, hw⟩ := Option.map_eq_some_iff.mp hstep
    obtain ⟨-, rfl⟩ := Prod.mk.inj hw
    refine h.of_futures_eq hstep rfl (fun b' hb' => Or.inl ?_) fun g hg => Or.inl hg
    rcases List.mem_append.mp hb' with hb' | hb'
    · exact hb'
    · rw [List.mem_singleton.mp hb', OwnedBuffer.cloneHandle_eq]
      exact List.mem_of_getElem? hb
  | dropHandle i =>
    obtain ⟨_, _, hw⟩ := Option.map_eq_some_iff.mp hstep
    obtain ⟨-, rfl⟩ := Prod.mk.inj hw
    exact h.of_futures_eq hstep rfl (fun b hb => Or.inl (List.mem_of_mem_eraseIdx hb))
      fun g hg => Or.inl hg
  | tryAccess i => exact h.tryAccess hstep
  | dropGuard i =>
    obtain ⟨_, _, hw⟩ := Option.map_eq_some_iff.mp hstep
    obtain ⟨-, rfl⟩ := Prod.mk.inj hw
    exact h.of_futures_eq hstep rfl (fun b hb => Or.inl hb)
      fun g hg => Or.inl (List.mem_of_mem_eraseIdx hg)
  | owned call i answer =>
    obtain ⟨buffer, hb, hw⟩ := hstep.owned
    -- the future made holds the buffer of the handle
    have hmade : ∀ {made : SafeOperationFuture} {operation : SafeOperation},
        made.operation = some operation → operation.buffer = some buffer →
        ∀ (future : SafeOperationFuture) (op : SafeOperation) (b : OwnedBuffer),
          OwnedFuture.safe made = .safe future → future.operation = some op →
          op.buffer = some b → b ∈ w.handles := by
      intro made operation hmade hbuf future op b hfuture hop hb'
      obtain rfl := OwnedFuture.safe.inj hfuture
      obtain rfl := Option.some.inj (hmade.symm.trans hop)
      obtain rfl := Option.some.inj (hbuf.symm.trans hb')
      exact List.mem_of_getElem? hb
    rcases hw with ⟨-, -, rfl⟩ | ⟨-, rfl⟩
    · exact h.of_future_made hstep rfl (hmade rfl rfl) (fun b => List.mem_of_mem_eraseIdx) rfl
    · exact h.of_future_made hstep rfl (hmade rfl rfl) (fun b => List.mem_of_mem_eraseIdx) rfl
  | acceptSafe fd addr answer =>
    have hmade : ∀ {made : SafeAcceptFuture} (future : SafeOperationFuture) (op : SafeOperation)
        (b : OwnedBuffer), OwnedFuture.accept made = .safe future →
        future.operation = some op → op.buffer = some b → b ∈ w.handles :=
      fun _ _ _ hfuture => absurd hfuture (by simp)
    rcases hstep.acceptSafe with ⟨-, rfl⟩ | ⟨_, -, rfl⟩
    · exact h.of_future_made hstep rfl hmade (fun b hb => hb) rfl
    · exact h.of_future_made hstep rfl hmade (fun b hb => hb) rfl
  | pollFuture f waker fail => exact h.pollFuture hstep
  | dropFuture f =>
    obtain ⟨future, hf, rfl⟩ := hstep.dropFuture
    refine h.of_held hstep (fun b hb => Or.inl hb) (fun g hg => Or.inl hg)
      fun x op b hx => ?_
    rcases List.mem_or_eq_of_mem_set hx with hx | hx
    · exact h.future x op b hx
    · exact absurd hx (by simp)
  | complete i result =>
    obtain ⟨_, _, rfl⟩ := hstep.complete
    exact h.of_futures_eq hstep rfl (fun b hb => Or.inl hb) fun g hg => Or.inl hg
  | _ => exact absurd hown (by simp [Action.IsOwned])

end Separate

end Steps

/-! ### The runs -/

/-- What the kernel has to itself, no handle gives access to. -/
theorem tryAccess_eq_none {heap : Heap} {b : OwnedBuffer} {id : ℕ}
    (h : (heap.cell b.inner).kernelOwner = some id) : (b.tryAccess heap).1 = none := by
  have hnone := BufferOwnership.tryAccess_of_kernelOwner h
  unfold OwnedBuffer.tryAccess
  rw [hnone]

section Runs

variable {w w' : World} {e : Event}

/-- A world where users and kernel are apart is exclusive when the kernel's cells name their
operations: no handle is one of them. -/
theorem Separate.exclusive (h : Separate w) (hkernel : ∀ r ∈ w.inFlight, ∀ c,
    r.caller = .owned c → (w.heap.cell c).kernelOwner = some r.userData) : Exclusive w := by
  intro r hr c hc
  have hcell := hkernel r hr c hc
  refine ⟨hcell, ?_, ?_⟩
  · rintro b rfl
    exact tryAccess_eq_none hcell
  · rintro i b call answer response w' hb rfl -
    have huser := (h.handle b (List.mem_of_getElem? hb)).2
    exact absurd (huser.symm.trans hcell) (by simp)

/-- A step that accepts no read and no write keeps a world exclusive. -/
theorem exclusive_step (h : Separate w) (hx : Exclusive w) (hstep : Step w e w')
    (hnone : NoneAccepted w e) : Exclusive w' := by
  refine (h.step hstep).exclusive fun r hr c hc => ?_
  rcases inFlight_step hstep hr with
    hr | hleg | ⟨call, i, answer, b, he, hb, ha, hfit, -⟩ | ⟨fd, addr, -, hheap, rfl⟩
  · rw [(kernelOwner_step h hstep).cell c (h.inFlight r hr c hc)]
    exact (hx r hr c hc).1
  · exact absurd (hc.symm.trans hleg) (by simp)
  · exact absurd ⟨ha, hfit⟩ (hnone call i answer b he hb)
  · obtain rfl := Caller.owned.inj hc
    rw [hheap]
    exact kernelOwner_acceptHeap _ _ _

/-- **A read or a write that is accepted leaves its buffer with the user.** -/
theorem not_exclusive_step (h : Separate w) (hstep : Step w e w') (hsome : ¬NoneAccepted w e) :
    ¬Exclusive w' := by
  simp only [NoneAccepted, not_forall, not_not] at hsome
  obtain ⟨call, i, answer, b, he, hb, ha, hfit⟩ := hsome
  obtain ⟨action, response⟩ := e
  obtain rfl : action = .owned call i answer := he
  obtain ⟨buffer, hbuffer, ⟨-, -, rfl⟩ | ⟨hnot, -⟩⟩ := hstep.owned
  · obtain rfl := Option.some.inj (hb.symm.trans hbuffer)
    intro hx
    have hmem : call.request w.heap b w.ring.nextSubmissionId ∈
        (w.ring.drawn.accepted (call.request w.heap b w.ring.nextSubmissionId)).backend.inFlight :=
      Backend.mem_inFlight_accepted.mpr (Or.inl rfl)
    have hcell := (hx _ hmem b.inner OwnedCall.caller_request).1
    have huser := (h.handle b (List.mem_of_getElem? hb)).2
    exact absurd (huser.symm.trans hcell) (by simp)
  · obtain rfl := Option.some.inj (hb.symm.trans hbuffer)
    exact absurd ⟨ha, hfit⟩ hnot

end Runs

/-- **Along a run the kernel has every buffer in flight to itself exactly when no read and no
write is ever accepted**, so that `accept_safe` submits what is submitted. -/
theorem exclusive_iff {ms : List (Move World Event)} {w : World} (hrun : Run ms w) :
    Transition.Always Exclusive World.new ms ↔ Transition.Guarded NoneAccepted ms := by
  have hkeep : ∀ s e t, Step s e t → NoneAccepted s e → Separate s → Exclusive s →
      Separate t ∧ Exclusive t :=
    fun s e t hstep hnone hs hx => ⟨hs.step hstep, exclusive_step hs hx hstep hnone⟩
  have hbreak : ∀ s e t, Step s e t → ¬NoneAccepted s e → Separate s → Exclusive s →
      ¬Exclusive t :=
    fun s e t hstep hsome hs _ => not_exclusive_step hs hstep hsome
  have hnew : Exclusive World.new := fun r hr =>
    absurd hr (by simp [World.new, Ring.new, Backend.new, Backend.inFlight])
  exact hrun.always_iff hkeep hbreak Separate.new hnew

/-- A read is submitted, of a buffer that has a second handle. -/
def readWithClone : List Action :=
  [.newBuffer 4096 8, .cloneHandle 0, .owned (.readOwned 3) 0 (.ok ())]

/-- **The second handle gives access while the kernel reads**, and a second submission gets
through. -/
theorem not_exclusive_readWithClone : ∃ ms w, Run ms w ∧ actionsOf ms = readWithClone ∧
    w.inFlightIds = [1] ∧ ((⟨0, 8, 0⟩ : OwnedBuffer).tryAccess w.heap).1.isSome = true ∧
    (∃ response w', Step w ⟨.owned (.writeOwned 4) 0 (.ok ()), response⟩ w' ∧
      w'.inFlightIds = [1, 2]) ∧
    ¬Exclusive w := by
  obtain ⟨⟨ms, w⟩, htrace⟩ : ∃ x, World.new.trace readWithClone = some x :=
    Option.isSome_iff_exists.mp (by decide)
  obtain ⟨hrun, hacts⟩ := run_of_trace htrace
  have hend : (World.new.trace readWithClone).map (fun x => (x.2.inFlightIds,
      x.2.inFlight.map Request.caller, ((⟨0, 8, 0⟩ : OwnedBuffer).tryAccess x.2.heap).1.isSome,
      (x.2.step (.owned (.writeOwned 4) 0 (.ok ()))).map fun y => y.2.inFlightIds)) =
      some ([1], [.owned 0], true, some [1, 2]) := by
    decide
  rw [htrace] at hend
  obtain ⟨hids, hend⟩ := Prod.mk.inj (Option.some.inj hend)
  obtain ⟨hcallers, hend⟩ := Prod.mk.inj hend
  obtain ⟨haccess, hsecond⟩ := Prod.mk.inj hend
  obtain ⟨⟨response, w'⟩, hstep, hids'⟩ := Option.map_eq_some_iff.mp hsecond
  refine ⟨ms, w, hrun, hacts, hids, haccess, ⟨response, w', hstep, hids'⟩, fun hx => ?_⟩
  obtain ⟨r, hr, hc⟩ : ∃ r ∈ w.inFlight, r.caller = .owned 0 := by
    have hmem : Caller.owned 0 ∈ w.inFlight.map Request.caller := by
      rw [hcallers]
      exact List.mem_singleton_self _
    exact List.mem_map.mp hmem
  rw [(hx r hr 0 hc).2.1 ⟨0, 8, 0⟩ rfl] at haccess
  exact absurd haccess (by simp)

/-- A connection is accepted, and meanwhile a buffer is used. -/
def acceptAlone : List Action :=
  [.newBuffer 4096 8, .acceptSafe 3 8192 (.ok ()), .tryAccess 0, .pollFuture 0 7 none,
    .complete 0 (.ok 5), .pollFuture 0 7 none]

/-- All along that run, the kernel has the buffer of `accept_safe` to itself. -/
theorem exclusive_acceptAlone : ∃ ms w, Run ms w ∧ actionsOf ms = acceptAlone ∧
    Transition.Always Exclusive World.new ms := by
  obtain ⟨⟨ms, w⟩, htrace⟩ : ∃ x, World.new.trace acceptAlone = some x :=
    Option.isSome_iff_exists.mp (by decide)
  obtain ⟨hrun, hacts⟩ := run_of_trace htrace
  have hnone : ∀ a ∈ actionsOf ms, ∀ call h answer, a ≠ .owned call h answer := by
    rw [hacts]
    simp [acceptAlone]
  refine ⟨ms, w, hrun, hacts, (exclusive_iff hrun).mpr fun m hm call h answer b he => ?_⟩
  exact absurd he (hnone _ (List.mem_map_of_mem hm) call h answer)

end SaferRing
