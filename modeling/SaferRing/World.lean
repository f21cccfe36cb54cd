import SaferRing.Batch.Future
import SaferRing.Library.Run
import SaferRing.SafeOperations

/-!
# A ring and everything around it

A `SaferRing.World` is a ring together with what its users hold: buffer handles and
guards, owned futures and batch futures. `SaferRing.World.step` is what one
`SaferRing.Action` does to it – a call a user makes, a poll, a drop, or the kernel
completing an operation – so that the runs of `SaferRing.Step` are the interleavings
of all of these. What is not the program's to decide comes with the action: whether
the backend accepts, whether it fails, the order a hash map is emptied in, the
address of an allocation.

Futures and batches keep their place in a list, which is their identity; a dropped
one leaves `none`. The operation a live future waits for is
`SaferRing.World.Live`, and how each step changes it is read off with
`SaferRing.operationAt_set` and `SaferRing.operationAt_append`.
-/

namespace SaferRing

/-! ### Owned futures -/

/-- **A future of the owned interface.** -/
inductive OwnedFuture
  /-- Of a read or a write. -/
  | safe (future : SafeOperationFuture)
  /-- Of `accept_safe`. -/
  | accept (future : SafeAcceptFuture)
  deriving DecidableEq, Repr

/-- What a step answers. -/
inductive Response
  /-- Nothing. -/
  | done
  /-- Whether access was granted. -/
  | access (granted : Bool)
  /-- A future was made, at a place. -/
  | future (f : ℕ)
  /-- `Ring::submit` returned. -/
  | submitted (result : Except SaferRingError (Operation Submitted))
  /-- A batch was submitted, and its future made at a place. -/
  | batch (result : Except SaferRingError ℕ)
  /-- The future of a read or a write was polled. -/
  | polled (answer : Poll SafeOutput)
  /-- `accept_safe` was polled. -/
  | accepted (answer : Poll (Except SaferRingError ℤ))
  /-- A batch was polled. -/
  | batchPolled (answer : Poll (Except SaferRingError BatchResult))
  /-- `try_complete` or `wait_for_completion` returned. -/
  | completions (result : Except SaferRingError (List CompletionResult))
  /-- `try_complete_by_id` returned. -/
  | completion (result : Except SaferRingError (Option IoResult))
  /-- `poll_operation_completion` returned. -/
  | operation (result : Except SaferRingError (Option CompletionResult))
  /-- `process_completions` returned. -/
  | processed (result : Except SaferRingError ℕ)
  deriving DecidableEq

namespace OwnedFuture

variable (self : OwnedFuture)

/-- The operation the future holds. -/
def operation : OwnedFuture → Option SafeOperation
  | .safe future => future.operation
  | .accept future => future.operation

/-- The future with another operation. -/
def withOperation (operation : Option SafeOperation) : OwnedFuture → OwnedFuture
  | .safe _ => .safe ⟨operation⟩
  | .accept _ => .accept ⟨operation⟩

/-- The texts of its errors. -/
def texts : OwnedFuture → FutureTexts
  | .safe _ => SafeOperationFuture.texts
  | .accept _ => SafeAcceptFuture.texts

/-- What its user sees of the answer: of `accept_safe`, the descriptor. -/
def response (answer : Poll SafeOutput) : OwnedFuture → Response
  | .safe _ => .polled answer
  | .accept _ =>
    .accepted <| match answer with
      | .pending => .pending
      | .ready (.ok (fd, _)) => .ready (.ok (asRawFd fd))
      | .ready (.error e) => .ready (.error e)

/-- The handle its user gets back: the buffer of `accept_safe` is dropped. -/
def handsBack (answer : Poll SafeOutput) : OwnedFuture → List OwnedBuffer
  | .safe _ =>
    match answer with
    | .ready (.ok (_, buffer)) => [buffer]
    | _ => []
  | .accept _ => []

/-- Poll the future; `none` is the panic of an asynchronous function polled after it
returned. -/
def poll (ring : Ring) (waker : Waker) (fail : Option SaferRingError) :
    OwnedFuture → Option (Poll SafeOutput × OwnedFuture × Ring)
  | .safe future =>
    let (answer, future, ring) := future.poll ring waker fail
    some (answer, .safe future, ring)
  | .accept future =>
    -- `accept_safe` is an `async fn`: it panics when it is polled after it returned
    match future.operation with
    | none => none
    | some _ =>
      let (answer, future, ring) := future.poll ring waker fail
      some (answer, .accept future, ring)

/-- Drop the future, and the operation it holds. -/
def drop (ring : Ring) : Ring :=
  match self.operation with
  | some operation => ring.dropOperation operation
  | none => ring

@[simp] theorem operation_withOperation (o : Option SafeOperation) :
    (self.withOperation o).operation = o := by
  cases self <;> rfl

variable {self}

/-- Polling a future that holds an operation is polling the operation. -/
theorem poll_eq {op : SafeOperation} (h : self.operation = some op) (ring : Ring)
    (waker : Waker) (fail : Option SaferRingError) :
    self.poll ring waker fail =
      some ((pollOperation self.texts (some op) ring waker fail).1,
        self.withOperation (pollOperation self.texts (some op) ring waker fail).2.1,
        (pollOperation self.texts (some op) ring waker fail).2.2) := by
  cases self with
  | safe future =>
    have hop : future.operation = some op := h
    simp only [poll, SafeOperationFuture.poll, hop]
    rfl
  | accept future =>
    have hop : future.operation = some op := h
    simp only [poll, SafeAcceptFuture.poll, hop]
    rfl

end OwnedFuture

/-! ### Futures by their places -/

section Places

variable {α : Type} {slots : List (Option α)} {f g : ℕ} {a : α}

/-- Replacing what is at a place changes that place only. -/
theorem join_getElem?_set (h : slots[f]? = some (some a)) (slot : Option α) :
    ((slots.set f slot)[g]?).join = if g = f then slot else (slots[g]?).join := by
  obtain ⟨hf, -⟩ := List.getElem?_eq_some_iff.mp h
  by_cases hg : g = f
  · rw [if_pos hg, hg, List.getElem?_set_self hf]
    rfl
  · rw [if_neg hg, List.getElem?_set_ne (Ne.symm hg)]

/-- Putting back what is at a place changes nothing. -/
theorem set_eq_self {l : List α} (h : l[f]? = some a) : l.set f a = l := by
  obtain ⟨hf, hget⟩ := List.getElem?_eq_some_iff.mp h
  rw [← hget, List.set_getElem_self]

/-- What is new takes the next place. -/
theorem join_getElem?_append (slot : Option α) :
    ((slots ++ [slot])[g]?).join = if g = slots.length then slot else (slots[g]?).join := by
  by_cases hg : g = slots.length
  · rw [if_pos hg, hg, List.getElem?_concat_length]
    rfl
  · rw [if_neg hg]
    rcases Nat.lt_or_gt_of_ne hg with hlt | hgt
    · rw [List.getElem?_append_left hlt]
    · rw [List.getElem?_eq_none (by simp; omega), List.getElem?_eq_none (by omega)]

end Places

/-- The operation of the future at a place. -/
def operationAt (futures : List (Option OwnedFuture)) (f : ℕ) : Option SafeOperation :=
  (futures[f]?).join.bind OwnedFuture.operation

section OperationAt

variable {futures : List (Option OwnedFuture)} {f g : ℕ} {future : OwnedFuture}

theorem operationAt_eq (h : futures[f]? = some (some future)) :
    operationAt futures f = future.operation := by
  rw [operationAt, h]
  rfl

/-- Replacing a future changes the operation at its place only. -/
theorem operationAt_set (h : futures[f]? = some (some future)) (slot : Option OwnedFuture) :
    operationAt (futures.set f slot) g =
      if g = f then slot.bind OwnedFuture.operation else operationAt futures g := by
  rw [operationAt, join_getElem?_set h]
  exact apply_ite (fun o : Option OwnedFuture => o.bind OwnedFuture.operation) _ _ _

/-- A new future takes the next place. -/
theorem operationAt_append (slot : Option OwnedFuture) :
    operationAt (futures ++ [slot]) g =
      if g = futures.length then slot.bind OwnedFuture.operation else operationAt futures g := by
  rw [operationAt, join_getElem?_append]
  exact apply_ite (fun o : Option OwnedFuture => o.bind OwnedFuture.operation) _ _ _

end OperationAt

/-! ### The state and its steps -/

/-- **A ring and what its users hold.** -/
structure World where
  /-- The ring. -/
  ring : Ring
  /-- The cells of the buffers. -/
  heap : Heap
  /-- The handles users hold. -/
  handles : List OwnedBuffer
  /-- The guards users hold. -/
  guards : List BufferAccessGuard
  /-- The owned futures, in the order they were made. -/
  futures : List (Option OwnedFuture)
  /-- The batch futures, in the order they were made. -/
  batches : List (Option StandaloneBatchFuture)

/-- **What can happen**, with what the environment decides about it. -/
inductive Action
  /-- `OwnedBuffer::new`. -/
  | newBuffer (addr size : ℕ)
  /-- `OwnedBuffer::from_slice`. -/
  | fromSlice (addr : ℕ) (data : List UInt8)
  /-- `clone_handle`. -/
  | cloneHandle (h : ℕ)
  /-- A handle is dropped. -/
  | dropHandle (h : ℕ)
  /-- `try_access`. -/
  | tryAccess (h : ℕ)
  /-- A guard is dropped. -/
  | dropGuard (g : ℕ)
  /-- One of the four owned submissions, of the buffer a handle names. -/
  | owned (call : OwnedCall) (h : ℕ) (answer : Except SaferRingError Unit)
  /-- `accept_safe` is polled for the first time and submits its operation. It goes on to
  poll the future it made, which is a step of its own: the kernel may have completed
  the operation in between. -/
  | acceptSafe (fd : ℤ) (addr : ℕ) (answer : Except SaferRingError Unit)
  /-- An owned future is polled. -/
  | pollFuture (f : ℕ) (waker : Waker) (fail : Option SaferRingError)
  /-- An owned future is dropped. -/
  | dropFuture (f : ℕ)
  /-- `Ring::submit`. -/
  | submit (operation : Operation Building) (answer : Except SaferRingError Unit)
  /-- `submit_batch_standalone_with_config`. -/
  | submitBatch (batch : Batch) (config : BatchConfig)
    (answers : ℕ → Except SaferRingError Unit)
  /-- `poll_with_ring`. -/
  | pollBatch (b : ℕ) (waker : Waker) (cached : List (ℕ × IoResult))
    (fail : Option SaferRingError)
  /-- A batch future is dropped. -/
  | dropBatch (b : ℕ)
  /-- `try_complete`. -/
  | tryComplete (cached : List (ℕ × IoResult)) (fail : Option SaferRingError)
  /-- `wait_for_completion`. -/
  | waitForCompletion (cached : List (ℕ × IoResult)) (fail : Option SaferRingError)
  /-- `try_complete_by_id`, after `count` calls of it in the process. -/
  | tryCompleteById (operationId count : ℕ) (fail : Option SaferRingError)
  /-- `poll_operation_completion`. -/
  | pollOperationCompletion (operationId : ℕ) (fail : Option SaferRingError)
  /-- `process_completions`. -/
  | processCompletions
  /-- The kernel completes an operation. -/
  | complete (i : ℕ) (result : IoResult)

namespace World

/-- A world with nothing in it but a new ring. -/
def new : World := ⟨.new, .empty, [], [], [], []⟩

variable (self : World)

/-- Submit the buffer of a handle, which moves into the future. -/
def owned (call : OwnedCall) (h : ℕ) (answer : Except SaferRingError Unit) :
    Option (Response × World) :=
  match self.handles[h]? with
  | none => none
  | some buffer =>
    let (future, ring) := call.submit self.ring self.heap buffer answer
    some (.future self.futures.length,
      { self with
        ring
        handles := self.handles.eraseIdx h
        futures := self.futures ++ [some (.safe future)] })

/-- `accept_safe`, up to the future it waits for. A submission that fails ends it
there. -/
def acceptSafe (fd : ℤ) (addr : ℕ) (answer : Except SaferRingError Unit) : Response × World :=
  match self.ring.submitAccept self.heap fd addr answer with
  | (.error e, ring, heap) =>
    (.accepted (.ready (.error e)),
      { self with ring, heap, futures := self.futures ++ [some (.accept ⟨none⟩)] })
  | (.ok future, ring, heap) =>
    (.future self.futures.length,
      { self with ring, heap, futures := self.futures ++ [some (.accept future)] })

/-- Poll the future at a place. -/
def pollFuture (f : ℕ) (waker : Waker) (fail : Option SaferRingError) :
    Option (Response × World) :=
  match self.futures[f]? with
  | some (some future) =>
    match future.poll self.ring waker fail with
    | none => none
    | some (answer, polled, ring) =>
      some (future.response answer,
        { self with
          ring
          handles := self.handles ++ future.handsBack answer
          futures := self.futures.set f (some polled) })
  | _ => none

/-- Drop the future at a place. -/
def dropFuture (f : ℕ) : Option (Response × World) :=
  match self.futures[f]? with
  | some (some future) =>
    some (.done, { self with
      ring := future.drop self.ring
      futures := self.futures.set f none })
  | _ => none

/-- Submit a batch. -/
def submitBatch (batch : Batch) (config : BatchConfig)
    (answers : ℕ → Except SaferRingError Unit) : Response × World :=
  match self.ring.submitBatchStandaloneWithConfig batch config answers with
  | (.error e, ring) => (.batch (.error e), { self with ring })
  | (.ok future, ring) =>
    (.batch (.ok self.batches.length),
      { self with ring, batches := self.batches ++ [some future] })

/-- Poll the batch at a place. -/
def pollBatch (b : ℕ) (waker : Waker) (cached : List (ℕ × IoResult))
    (fail : Option SaferRingError) : Option (Response × World) :=
  match self.batches[b]? with
  | some (some future) =>
    match future.pollWithRing self.ring waker cached fail with
    | .returned (answer, future, ring) =>
      some (.batchPolled answer,
        { self with ring, batches := self.batches.set b (some future) })
    | _ => none
  | _ => none

/-- What a call of the ring that returns makes of the world. -/
def calling {α : Type} (respond : α → Response) : Outcome (α × Ring) → Option (Response × World)
  | .returned (a, ring) => some (respond a, { self with ring })
  | _ => none

/-- **What a step does**; `none` when it cannot happen. An order to empty the cache in
must be an order of what the cache holds. -/
def step : Action → Option (Response × World)
  | .newBuffer addr size =>
    let (buffer, heap) := OwnedBuffer.new self.heap addr size
    some (.done, { self with heap, handles := self.handles ++ [buffer] })
  | .fromSlice addr data =>
    let (buffer, heap) := OwnedBuffer.fromSlice self.heap addr data
    some (.done, { self with heap, handles := self.handles ++ [buffer] })
  | .cloneHandle h =>
    (self.handles[h]?).map fun buffer =>
      (.done, { self with handles := self.handles ++ [buffer.cloneHandle] })
  | .dropHandle h =>
    (self.handles[h]?).map fun _ => (.done, { self with handles := self.handles.eraseIdx h })
  | .tryAccess h =>
    (self.handles[h]?).map fun buffer =>
      match buffer.tryAccess self.heap with
      | (some guard, heap) =>
        (.access true, { self with heap, guards := self.guards ++ [guard] })
      | (none, heap) => (.access false, { self with heap })
  | .dropGuard g =>
    (self.guards[g]?).map fun guard =>
      (.done, { self with heap := guard.drop self.heap, guards := self.guards.eraseIdx g })
  | .owned call h answer => self.owned call h answer
  | .acceptSafe fd addr answer => some (self.acceptSafe fd addr answer)
  | .pollFuture f waker fail => self.pollFuture f waker fail
  | .dropFuture f => self.dropFuture f
  | .submit operation answer =>
    let (result, ring) := self.ring.submit operation answer
    some (.submitted result, { self with ring })
  | .submitBatch batch config answers => some (self.submitBatch batch config answers)
  | .pollBatch b waker cached fail =>
    if cached.Perm self.ring.cachedCompletions then self.pollBatch b waker cached fail else none
  | .dropBatch b =>
    match self.batches[b]? with
    | some (some future) =>
      some (.done, { self with
        ring := future.drop self.ring
        batches := self.batches.set b none })
    | _ => none
  | .tryComplete cached fail =>
    if cached.Perm self.ring.cachedCompletions then
      self.calling .completions (self.ring.tryComplete cached fail)
    else none
  | .waitForCompletion cached fail =>
    if cached.Perm self.ring.cachedCompletions then
      self.calling .completions (self.ring.waitForCompletion cached fail)
    else none
  | .tryCompleteById operationId count fail =>
    self.calling .completion (self.ring.tryCompleteById operationId count fail)
  | .pollOperationCompletion operationId fail =>
    let (result, ring) := self.ring.pollOperationCompletion operationId fail
    some (.operation result, { self with ring })
  | .processCompletions =>
    let (result, ring) := self.ring.processCompletions
    some (.processed result, { self with ring })
  | .complete i result =>
    (self.ring.backend.complete i result).map fun backend =>
      (.done, { self with ring := { self.ring with backend } })

/-- **The operation a live future waits for**: its completion was not seen, and its
submission did not fail. -/
def Live (f : ℕ) (op : SafeOperation) : Prop :=
  operationAt self.futures f = some op ∧ op.completed = false

/-- The operations in flight. -/
abbrev inFlight : List Request := self.ring.backend.inFlight

/-- The ids of the operations in flight. -/
abbrev inFlightIds : List ℕ := self.ring.backend.inFlightIds

/-- The completions handed over so far. -/
abbrev delivered : List Completion := self.ring.backend.delivered

end World

/-! ### Runs -/

/-- **One event of a run**: what happened, and what it answered. -/
structure Event where
  /-- What happened. -/
  action : Action
  /-- What it answered. -/
  response : Response

/-- **The step relation.** -/
def Step (w : World) (e : Event) (w' : World) : Prop := w.step e.action = some (e.response, w')

/-! ### What the steps can do -/

namespace Step

variable {w w' : World} {r : Response}

/-- An owned submission is accepted or not. -/
theorem owned {call : OwnedCall} {h : ℕ} {answer : Except SaferRingError Unit}
    (hstep : Step w ⟨.owned call h answer, r⟩ w') :
    ∃ buffer, w.handles[h]? = some buffer ∧
      ((answer = .ok () ∧ call.Fits w.heap buffer ∧ w' = { w with
          ring := w.ring.drawn.accepted (call.request w.heap buffer w.ring.nextSubmissionId)
          handles := w.handles.eraseIdx h
          futures := w.futures ++ [some (.safe ⟨some (.new buffer w.ring.nextSubmissionId)⟩)] }) ∨
        (¬(answer = .ok () ∧ call.Fits w.heap buffer) ∧ w' = { w with
          ring := w.ring.drawn
          handles := w.handles.eraseIdx h
          futures := w.futures ++
            [some (.safe ⟨some (.failed buffer w.ring.nextSubmissionId)⟩)] })) := by
  have hstep : w.owned call h answer = some (r, w') := hstep
  unfold World.owned at hstep
  split at hstep
  · exact absurd hstep (by simp)
  rename_i buffer hbuffer
  refine ⟨buffer, hbuffer, ?_⟩
  rcases call.submit_cases w.ring w.heap buffer answer with ⟨ha, hfit, hsub⟩ | ⟨hnot, hsub⟩
  · rw [hsub] at hstep
    obtain ⟨-, rfl⟩ := Prod.mk.inj (Option.some.inj hstep)
    exact Or.inl ⟨ha, hfit, rfl⟩
  · rw [hsub] at hstep
    obtain ⟨-, rfl⟩ := Prod.mk.inj (Option.some.inj hstep)
    exact Or.inr ⟨hnot, rfl⟩

/-- The submission of `accept_safe` is accepted or refused. -/
theorem acceptSafe {fd : ℤ} {addr : ℕ} {answer : Except SaferRingError Unit}
    (hstep : Step w ⟨.acceptSafe fd addr answer, r⟩ w') :
    (answer = .ok () ∧ w' = { w with
        ring := w.ring.drawn.accepted (acceptRequest w.heap fd addr w.ring.nextSubmissionId)
        heap := acceptHeap w.heap addr w.ring.nextSubmissionId
        futures := w.futures ++
          [some (.accept ⟨some (.new (acceptBuffer w.heap) w.ring.nextSubmissionId)⟩)] }) ∨
      (∃ e, answer = .error e ∧ w' = { w with
        ring := w.ring.drawn.dropOperation (.new (acceptBuffer w.heap) w.ring.nextSubmissionId)
        heap := acceptHeap w.heap addr w.ring.nextSubmissionId
        futures := w.futures ++ [some (.accept ⟨none⟩)] }) := by
  have hstep : w.acceptSafe fd addr answer = (r, w') := Option.some.inj hstep
  unfold World.acceptSafe at hstep
  rcases w.ring.submitAccept_cases w.heap fd addr answer with ⟨ha, hsub⟩ | ⟨e, ha, hsub⟩
  · rw [hsub] at hstep
    obtain ⟨-, rfl⟩ := Prod.mk.inj hstep
    exact Or.inl ⟨ha, rfl⟩
  · rw [hsub] at hstep
    obtain ⟨-, rfl⟩ := Prod.mk.inj hstep
    exact Or.inr ⟨e, ha, rfl⟩

/-- A poll of a future. -/
theorem pollFuture {f : ℕ} {waker : Waker} {fail : Option SaferRingError}
    (hstep : Step w ⟨.pollFuture f waker fail, r⟩ w') :
    ∃ future answer polled ring, w.futures[f]? = some (some future) ∧
      future.poll w.ring waker fail = some (answer, polled, ring) ∧
      r = future.response answer ∧ w' = { w with
        ring
        handles := w.handles ++ future.handsBack answer
        futures := w.futures.set f (some polled) } := by
  have hstep : w.pollFuture f waker fail = some (r, w') := hstep
  unfold World.pollFuture at hstep
  split at hstep
  case h_2 => exact absurd hstep (by simp)
  rename_i future hf
  split at hstep
  · exact absurd hstep (by simp)
  rename_i answer polled ring hpoll
  obtain ⟨rfl, rfl⟩ := Prod.mk.inj (Option.some.inj hstep)
  exact ⟨future, answer, polled, ring, hf, hpoll, rfl, rfl⟩

/-- A future is dropped. -/
theorem dropFuture {f : ℕ} (hstep : Step w ⟨.dropFuture f, r⟩ w') :
    ∃ future, w.futures[f]? = some (some future) ∧
      w' = { w with ring := future.drop w.ring, futures := w.futures.set f none } := by
  have hstep : w.dropFuture f = some (r, w') := hstep
  unfold World.dropFuture at hstep
  split at hstep
  case h_2 => exact absurd hstep (by simp)
  rename_i future hf
  obtain ⟨-, rfl⟩ := Prod.mk.inj (Option.some.inj hstep)
  exact ⟨future, hf, rfl⟩

/-- A batch is submitted, or not. -/
theorem submitBatch {batch : Batch} {config : BatchConfig}
    {answers : ℕ → Except SaferRingError Unit}
    (hstep : Step w ⟨.submitBatch batch config answers, r⟩ w') :
    ∃ result ring, w.ring.submitBatchStandaloneWithConfig batch config answers = (result, ring) ∧
      ((∃ e, result = .error e ∧ w' = { w with ring }) ∨
        ∃ future, result = .ok future ∧
          w' = { w with ring, batches := w.batches ++ [some future] }) := by
  have hstep : w.submitBatch batch config answers = (r, w') := Option.some.inj hstep
  unfold World.submitBatch at hstep
  rcases hcall : w.ring.submitBatchStandaloneWithConfig batch config answers with ⟨result, ring⟩
  rw [hcall] at hstep
  refine ⟨result, ring, rfl, ?_⟩
  rcases result with e | future
  · obtain ⟨-, rfl⟩ := Prod.mk.inj hstep
    exact Or.inl ⟨e, rfl, rfl⟩
  · obtain ⟨-, rfl⟩ := Prod.mk.inj hstep
    exact Or.inr ⟨future, rfl, rfl⟩

/-- A poll of a batch. -/
theorem pollBatch {b : ℕ} {waker : Waker} {cached : List (ℕ × IoResult)}
    {fail : Option SaferRingError} (hstep : Step w ⟨.pollBatch b waker cached fail, r⟩ w') :
    cached.Perm w.ring.cachedCompletions ∧ ∃ future answer polled ring,
      w.batches[b]? = some (some future) ∧
      future.pollWithRing w.ring waker cached fail = .returned (answer, polled, ring) ∧
      r = .batchPolled answer ∧
      w' = { w with ring, batches := w.batches.set b (some polled) } := by
  obtain ⟨hperm, hstep⟩ := Option.ite_none_right_eq_some.mp hstep
  refine ⟨hperm, ?_⟩
  unfold World.pollBatch at hstep
  split at hstep
  case h_2 => exact absurd hstep (by simp)
  rename_i future hb
  split at hstep
  case h_2 => exact absurd hstep (by simp)
  rename_i answer polled ring hpoll
  obtain ⟨rfl, rfl⟩ := Prod.mk.inj (Option.some.inj hstep)
  exact ⟨future, answer, polled, ring, hb, hpoll, rfl, rfl⟩

/-- A batch is dropped. -/
theorem dropBatch {b : ℕ} (hstep : Step w ⟨.dropBatch b, r⟩ w') :
    ∃ future, w.batches[b]? = some (some future) ∧
      w' = { w with ring := future.drop w.ring, batches := w.batches.set b none } := by
  have hstep : w.step (.dropBatch b) = some (r, w') := hstep
  simp only [World.step] at hstep
  split at hstep
  case h_2 => exact absurd hstep (by simp)
  rename_i future hb
  obtain ⟨-, rfl⟩ := Prod.mk.inj (Option.some.inj hstep)
  exact ⟨future, hb, rfl⟩

/-- A call of the ring that returns changes the ring. -/
theorem calling {α : Type} {respond : α → Response} {o : Outcome (α × Ring)}
    (h : w.calling respond o = some (r, w')) :
    ∃ a ring, o = .returned (a, ring) ∧ r = respond a ∧ w' = { w with ring } := by
  rcases o with ⟨a, ring⟩ | _ | _
  · obtain ⟨rfl, rfl⟩ := Prod.mk.inj (Option.some.inj h)
    exact ⟨a, ring, rfl, rfl, rfl⟩
  · exact absurd h (by simp [World.calling])
  · exact absurd h (by simp [World.calling])

/-- `try_complete`. -/
theorem tryComplete {cached : List (ℕ × IoResult)} {fail : Option SaferRingError}
    (hstep : Step w ⟨.tryComplete cached fail, r⟩ w') :
    ∃ a ring, w.ring.tryComplete cached fail = .returned (a, ring) ∧ w' = { w with ring } := by
  obtain ⟨-, hstep⟩ := Option.ite_none_right_eq_some.mp hstep
  obtain ⟨a, ring, hcall, -, hw⟩ := calling hstep
  exact ⟨a, ring, hcall, hw⟩

/-- `wait_for_completion`. -/
theorem waitForCompletion {cached : List (ℕ × IoResult)} {fail : Option SaferRingError}
    (hstep : Step w ⟨.waitForCompletion cached fail, r⟩ w') :
    ∃ a ring, w.ring.waitForCompletion cached fail = .returned (a, ring) ∧
      w' = { w with ring } := by
  obtain ⟨-, hstep⟩ := Option.ite_none_right_eq_some.mp hstep
  obtain ⟨a, ring, hcall, -, hw⟩ := calling hstep
  exact ⟨a, ring, hcall, hw⟩

/-- `try_complete_by_id`. -/
theorem tryCompleteById {id count : ℕ} {fail : Option SaferRingError}
    (hstep : Step w ⟨.tryCompleteById id count fail, r⟩ w') :
    ∃ a ring, w.ring.tryCompleteById id count fail = .returned (a, ring) ∧
      w' = { w with ring } := by
  obtain ⟨a, ring, hcall, -, hw⟩ := calling hstep
  exact ⟨a, ring, hcall, hw⟩

/-- The kernel completes an operation. -/
theorem complete {i : ℕ} {result : IoResult} (hstep : Step w ⟨.complete i result, r⟩ w') :
    ∃ backend, w.ring.backend.complete i result = some backend ∧
      w' = { w with ring := { w.ring with backend } } := by
  obtain ⟨backend, hb, h⟩ := Option.map_eq_some_iff.mp hstep
  obtain ⟨-, rfl⟩ := Prod.mk.inj h
  exact ⟨backend, hb, rfl⟩

end Step

/-! ### What most steps leave alone -/

/-- What users do with buffers, by handles and by guards. -/
def Action.IsBuffer : Action → Prop
  | .newBuffer .. | .fromSlice .. | .cloneHandle .. | .dropHandle .. | .tryAccess ..
  | .dropGuard .. => True
  | _ => False

/-- The calls that collect completions, and the drop of a batch, which collects none. -/
def Action.IsCollecting : Action → Prop
  | .pollBatch .. | .dropBatch .. | .tryComplete .. | .waitForCompletion ..
  | .tryCompleteById .. | .pollOperationCompletion .. => True
  | _ => False

section Frames

variable {w w' : World} {e : Event}

/-- **What users do with buffers** is seen neither by the ring nor by the futures. -/
theorem Step.buffer (hstep : Step w e w') (h : e.action.IsBuffer) :
    w' = { w with heap := w'.heap, handles := w'.handles, guards := w'.guards } := by
  obtain ⟨action, response⟩ := e
  cases action with
  | newBuffer | fromSlice =>
    obtain ⟨-, rfl⟩ := Prod.mk.inj (Option.some.inj hstep)
    rfl
  | cloneHandle | dropHandle | dropGuard =>
    obtain ⟨_, _, hw⟩ := Option.map_eq_some_iff.mp hstep
    obtain ⟨-, rfl⟩ := Prod.mk.inj hw
    rfl
  | tryAccess i =>
    obtain ⟨buffer, _, hw⟩ := Option.map_eq_some_iff.mp hstep
    split at hw <;>
    · obtain ⟨-, rfl⟩ := Prod.mk.inj hw
      rfl
  | _ => exact h.elim

/-- **A call that collects completions** does to its ring what collecting does. -/
theorem Step.collects (hstep : Step w e w') (h : e.action.IsCollecting) :
    w.ring.Collects w'.ring := by
  obtain ⟨action, response⟩ := e
  cases action with
  | pollBatch b waker cached fail =>
    obtain ⟨-, _, _, _, _, -, hcall, -, rfl⟩ := hstep.pollBatch
    exact StandaloneBatchFuture.collects_pollWithRing hcall
  | dropBatch b =>
    obtain ⟨_, -, rfl⟩ := hstep.dropBatch
    exact .of_eq rfl rfl rfl
  | tryComplete cached fail =>
    obtain ⟨_, _, hcall, rfl⟩ := hstep.tryComplete
    exact Ring.collects_tryComplete hcall
  | waitForCompletion cached fail =>
    obtain ⟨_, _, hcall, rfl⟩ := hstep.waitForCompletion
    exact Ring.collects_waitForCompletion hcall
  | tryCompleteById id count fail =>
    obtain ⟨_, _, hcall, rfl⟩ := hstep.tryCompleteById
    exact Ring.collects_tryCompleteById hcall
  | pollOperationCompletion id fail =>
    obtain ⟨-, rfl⟩ := Prod.mk.inj (Option.some.inj hstep)
    exact w.ring.collects_pollOperationCompletion id fail
  | _ => exact h.elim

end Frames

/-- A run of a world, from one with nothing in it. -/
abbrev Run (ms : List (Transition.Move World Event)) (w : World) : Prop :=
  Transition.Run Step World.new ms w

/-- The actions of a run. -/
def actionsOf (ms : List (Transition.Move World Event)) : List Action :=
  ms.map fun m => m.label.action

/-- Take actions one after the other, as long as they can happen. -/
def World.trace (w : World) : List Action → Option (List (Transition.Move World Event) × World)
  | [] => some ([], w)
  | action :: rest =>
    match w.step action with
    | none => none
    | some (response, w') =>
      (w'.trace rest).map fun (ms, u) => (⟨w, ⟨action, response⟩, w'⟩ :: ms, u)

/-- **What is traced is a run**, of the actions given. -/
theorem run_of_trace {w u : World} {actions : List Action}
    {ms : List (Transition.Move World Event)} (h : w.trace actions = some (ms, u)) :
    Transition.Run Step w ms u ∧ actionsOf ms = actions := by
  induction actions generalizing w ms with
  | nil =>
    obtain ⟨rfl, rfl⟩ := Prod.mk.inj (Option.some.inj h)
    exact ⟨.nil w, rfl⟩
  | cons action rest ih =>
    rw [World.trace] at h
    rcases hstep : w.step action with _ | ⟨response, w'⟩
    · rw [hstep] at h
      exact absurd h (by simp)
    · rw [hstep] at h
      obtain ⟨⟨ms', u'⟩, hrest, hms⟩ := Option.map_eq_some_iff.mp h
      obtain ⟨rfl, rfl⟩ := Prod.mk.inj hms
      obtain ⟨hrun, hacts⟩ := ih hrest
      have hfirst : Step w ⟨action, response⟩ w' := hstep
      exact ⟨(Transition.Run.single hfirst).append hrun, congrArg (action :: ·) hacts⟩

/-- What holds of the actions traced holds of the moves of the run. -/
theorem guarded_of_actions {C : World → Event → Prop} {p : Action → Prop}
    {ms : List (Transition.Move World Event)} (hC : ∀ w e, p e.action → C w e)
    (h : ∀ a ∈ actionsOf ms, p a) : Transition.Guarded C ms :=
  fun m hm => hC m.before m.label (h _ (List.mem_map_of_mem hm))

end SaferRing
