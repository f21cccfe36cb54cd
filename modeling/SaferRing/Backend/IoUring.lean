import SaferRing.Backend
import SaferRing.Library.Run

/-!
# The io_uring backend

`SaferRing.IoUringBackend` drives an io_uring instance of a crate, and the kernel behind
it. Of these it relies on what `SaferRing.IoUring` says: an entry pushed stays in the
submission queue until a submission takes it, and every completion is of an entry that was
taken. What the kernel decides is a `Choice`.

A submission pushes its entry before it asks the kernel to take it, and when the kernel
refuses to, the entry stays: it is taken by whichever submission comes next.
`SaferRing.leavesNothing_iff` is that a submission which fails leaves nothing behind
exactly when it fails before the push.
-/

namespace SaferRing

/-! ### Entries -/

/-- **The operations of an entry**, `io_uring::opcode`. -/
inductive Opcode
  /-- Read at an offset. -/
  | read (fd : ℤ) (buf : Ptr) (len offset : ℕ)
  /-- Write at an offset. -/
  | write (fd : ℤ) (buf : Ptr) (len offset : ℕ)
  /-- Accept a connection, and store the address and its length. -/
  | accept (fd : ℤ) (addr addrlen : Ptr)
  /-- Send. -/
  | send (fd : ℤ) (buf : Ptr) (len : ℕ)
  /-- Receive. -/
  | recv (fd : ℤ) (buf : Ptr) (len : ℕ)
  deriving DecidableEq, Repr

/-- An entry of the submission queue. -/
structure Entry where
  /-- What to do. -/
  opcode : Opcode
  /-- The id of its completion. -/
  userData : ℕ
  deriving DecidableEq, Repr

/-- An entry of the completion queue. -/
structure Cqe where
  /-- The id of the operation. -/
  userData : ℕ
  /-- The result: a count, or an error number negated. -/
  result : ℤ
  deriving DecidableEq, Repr

/-- **The entry of an operation**; the vectored types have none. -/
def Request.toEntry (request : Request) : Except SaferRingError Entry :=
  match request.opType with
  | .read => .ok ⟨.read request.fd request.bufferPtr (asU32 request.bufferLen) request.offset,
      request.userData⟩
  | .write => .ok ⟨.write request.fd request.bufferPtr (asU32 request.bufferLen) request.offset,
      request.userData⟩
  | .accept => .ok ⟨.accept request.fd request.bufferPtr request.bufferPtr, request.userData⟩
  | .send => .ok ⟨.send request.fd request.bufferPtr (asU32 request.bufferLen), request.userData⟩
  | .recv => .ok ⟨.recv request.fd request.bufferPtr (asU32 request.bufferLen), request.userData⟩
  | .readVectored | .writeVectored =>
    .error (.ioNew .unsupported
      s!"Operation {request.opType.debug} not yet implemented in io_uring backend")

/-- An operation has an entry unless it is vectored, and the entry has its id. -/
theorem Request.toEntry_cases (request : Request) :
    (request.opType.isVectored = true ∧ ∃ e, request.toEntry = .error e) ∨
      request.opType.isVectored = false ∧
        ∃ entry, request.toEntry = .ok entry ∧ entry.userData = request.userData := by
  rcases hop : request.opType <;> simp [Request.toEntry, OperationType.isVectored, hop]

/-! ### What the backend relies on -/

/-- **What the backend relies on of an io_uring instance**, as the crate and the kernel
document it. -/
structure IoUring where
  /-- The state of an instance. -/
  Ring : Type
  /-- What the kernel decides in a call, or does by itself. -/
  Choice : Type
  /-- The entries pushed that no submission took yet. -/
  queued : Ring → List Entry
  /-- The ids of the entries taken whose completions were not handed over. -/
  unfinished : Ring → List ℕ
  /-- Whether the submission queue is full. -/
  isFull : Ring → Bool
  /-- Push an entry; `none` is the error of a full queue. -/
  push : Ring → Entry → Option Ring
  /-- Ask the kernel to take entries. -/
  submit : Ring → Choice → Except IoError Unit × Ring
  /-- Ask the kernel to take entries, and wait for a completion; `none` is a call that
  still waits. -/
  submitAndWait : Ring → Choice → Option (Except IoError Unit × Ring)
  /-- Take the completions there are. -/
  completion : Ring → List Cqe × Ring
  /-- The kernel goes on with what it took. -/
  work : Ring → Choice → Ring
  /-- A full queue takes no entry. -/
  push_full : ∀ r entry, isFull r = true → push r entry = none
  /-- An entry pushed is queued, after the others. -/
  push_queued : ∀ r entry, isFull r = false → ∃ r', push r entry = some r' ∧
    queued r' = queued r ++ [entry] ∧ unfinished r' = unfinished r
  /-- A submission takes entries from the front of the queue. -/
  submit_taken : ∀ r c, ∃ taken, queued r = taken ++ queued (submit r c).2 ∧
    ∀ id ∈ unfinished (submit r c).2, id ∈ unfinished r ∨ id ∈ taken.map Entry.userData
  /-- **A submission that fails takes none**: what was pushed stays queued. -/
  submit_error : ∀ r c e, (submit r c).1 = .error e → queued (submit r c).2 = queued r
  /-- A submission that waits takes entries from the front of the queue. -/
  wait_taken : ∀ r c a r', submitAndWait r c = some (a, r') → ∃ taken,
    queued r = taken ++ queued r' ∧
      ∀ id ∈ unfinished r', id ∈ unfinished r ∨ id ∈ taken.map Entry.userData
  /-- What completes was taken, and nothing new is. -/
  completion_unfinished : ∀ r, queued (completion r).2 = queued r ∧
    (∀ c ∈ (completion r).1, c.userData ∈ unfinished r) ∧
    ∀ id ∈ unfinished (completion r).2, id ∈ unfinished r
  /-- The kernel takes nothing by itself. -/
  work_unfinished : ∀ r c, queued (work r c) = queued r ∧
    ∀ id ∈ unfinished (work r c), id ∈ unfinished r
  /-- The kernel may complete whatever it took. -/
  work_completes : ∀ r, ∀ id ∈ unfinished r, ∃ c, ∃ cqe ∈ (completion (work r c)).1,
    cqe.userData = id

/-! ### The backend -/

variable {K : IoUring}

/-- **The state of the backend.** -/
structure IoUringBackend (K : IoUring) where
  /-- The io_uring instance. -/
  ring : K.Ring
  /-- The ids of the operations submitted whose completions were not seen. -/
  inFlight : HashMap Unit

namespace IoUringBackend

variable (self : IoUringBackend K)

/-- The error of a full submission queue. -/
def pushFailed : SaferRingError :=
  .io (.other "Failed to push submission queue entry: PushError")

/-- **`submit_operation`**: push the entry, note the id, and ask the kernel to take it. -/
def submitOperation (request : Request) (choice : K.Choice) :
    Except SaferRingError Unit × IoUringBackend K :=
  match request.toEntry with
  | .error e => (.error e, self)
  | .ok entry =>
    match K.push self.ring entry with
    | none => (.error pushFailed, self)
    | some ring =>
      -- from here on the entry is queued and the id noted, whatever the kernel answers
      let inFlight := self.inFlight.insert request.userData ()
      match K.submit ring choice with
      | (.error e, ring) => (.error (.io e), ⟨ring, inFlight⟩)
      | (.ok (), ring) => (.ok (), ⟨ring, inFlight⟩)

/-- The result of a completion. -/
def resultOf (cqe : Cqe) : IoResult :=
  if cqe.result < 0 then .error (.os (-cqe.result).toNat) else .ok cqe.result

/-- `try_complete`. -/
def tryComplete : List (ℕ × IoResult) × IoUringBackend K :=
  let (cqes, ring) := K.completion self.ring
  (cqes.map fun cqe => (cqe.userData, resultOf cqe),
    ⟨ring, cqes.foldl (fun inFlight cqe => inFlight.erase cqe.userData) self.inFlight⟩)

/-- `wait_for_completion`; `none` is a call that still blocks. -/
def waitForCompletion (choice : K.Choice) :
    Option (Except SaferRingError (List (ℕ × IoResult)) × IoUringBackend K) :=
  if self.inFlight.keys.isEmpty then
    some (.error (.ioNew .invalidInput "No operations in flight to wait for"), self)
  else
    match K.submitAndWait self.ring choice with
    | none => none
    | some (.error e, ring) => some (.error (.io e), { self with ring })
    | some (.ok (), ring) =>
      let (completions, backend) := { self with ring }.tryComplete
      some (.ok completions, backend)

/-! ### Runs -/

/-- A call of the backend, or the kernel going on. -/
inductive Call (K : IoUring)
  /-- `submit_operation`. -/
  | submitOperation (request : Request) (choice : K.Choice)
  /-- `try_complete`. -/
  | tryComplete
  /-- `wait_for_completion`. -/
  | waitForCompletion (choice : K.Choice)
  /-- The kernel goes on. -/
  | work (choice : K.Choice)

/-- What a call does, with the completions it hands over; `none` is a call that still
blocks. -/
def step : Call K → Option (List (ℕ × IoResult) × IoUringBackend K)
  | .submitOperation request choice => some ([], (self.submitOperation request choice).2)
  | .tryComplete => some self.tryComplete
  | .waitForCompletion choice =>
    (self.waitForCompletion choice).map fun (a, backend) => (a.toOption.getD [], backend)
  | .work choice => some ([], { self with ring := K.work self.ring choice })

/-- A call, with the completions it hands over. -/
structure Event (K : IoUring) where
  /-- The call. -/
  call : Call K
  /-- The completions. -/
  completions : List (ℕ × IoResult)

/-- The step relation. -/
def Step (b : IoUringBackend K) (e : Event K) (b' : IoUringBackend K) : Prop :=
  b.step e.call = some (e.completions, b')

/-- The ids the ring knows: of entries queued, and of entries taken. -/
def ids : List ℕ := (K.queued self.ring).map Entry.userData ++ K.unfinished self.ring

/-- **An operation fails before its entry is pushed**: its type has no entry, or the
submission queue is full. -/
def FailsEarly (request : Request) : Prop :=
  request.opType.isVectored = true ∨ K.isFull self.ring = true

variable {self} {b b' : IoUringBackend K} {request : Request} {choice : K.Choice}

/-- **What a submission can do**: fail before the push, and change nothing; fail after it,
and leave the entry queued; or succeed. -/
theorem submitOperation_cases (b : IoUringBackend K) (request : Request) (choice : K.Choice) :
    (b.FailsEarly request ∧ ∃ e, b.submitOperation request choice = (.error e, b)) ∨
    ∃ entry ring, ¬b.FailsEarly request ∧ entry.userData = request.userData ∧
      K.queued ring = K.queued b.ring ++ [entry] ∧ K.unfinished ring = K.unfinished b.ring ∧
      b.submitOperation request choice =
        (match (K.submit ring choice).1 with
          | .error e => .error (.io e)
          | .ok () => .ok (),
          ⟨(K.submit ring choice).2, b.inFlight.insert request.userData ()⟩) := by
  rcases request.toEntry_cases with ⟨hvec, e, he⟩ | ⟨hvec, entry, he, hid⟩
  · refine Or.inl ⟨Or.inl hvec, e, ?_⟩
    rw [submitOperation, he]
  rcases hfull : K.isFull b.ring with _ | _
  · obtain ⟨ring, hpush, hqueued, hunf⟩ := K.push_queued b.ring entry hfull
    refine Or.inr ⟨entry, ring, ?_, hid, hqueued, hunf, ?_⟩
    · rintro (h | h)
      · exact absurd (hvec.symm.trans h) (by simp)
      · exact absurd (hfull.symm.trans h) (by simp)
    · simp only [submitOperation, he, hpush]
      rcases K.submit ring choice with ⟨_ | _, ring'⟩ <;> rfl
  · refine Or.inl ⟨Or.inr hfull, pushFailed, ?_⟩
    simp only [submitOperation, he, K.push_full b.ring entry hfull]

/-- Whether a call submits an operation under an id. -/
def Call.Submits (id : ℕ) : Call K → Prop
  | .submitOperation request _ => request.userData = id
  | _ => False

/-- Taking completions: they are of ids the ring knows, and it learns none. -/
theorem tryComplete_ids (b : IoUringBackend K) :
    (∀ c ∈ b.tryComplete.1, c.1 ∈ b.ids) ∧ ∀ id ∈ b.tryComplete.2.ids, id ∈ b.ids := by
  obtain ⟨hqueued, hfrom, hleft⟩ := K.completion_unfinished b.ring
  constructor
  · intro c hc
    obtain ⟨cqe, hcqe, rfl⟩ := List.mem_map.mp hc
    exact List.mem_append_right _ (hfrom cqe hcqe)
  · intro id hid
    have hid : id ∈ (K.queued (K.completion b.ring).2).map Entry.userData ++
        K.unfinished (K.completion b.ring).2 := hid
    rw [hqueued] at hid
    rcases List.mem_append.mp hid with hid | hid
    · exact List.mem_append_left _ hid
    · exact List.mem_append_right _ (hleft id hid)

/-- The ids of a ring some of whose entries were taken. -/
theorem ids_of_taken {r r' : K.Ring}
    (h : ∃ taken, K.queued r = taken ++ K.queued r' ∧
      ∀ id ∈ K.unfinished r', id ∈ K.unfinished r ∨ id ∈ taken.map Entry.userData) :
    ∀ id ∈ (K.queued r').map Entry.userData ++ K.unfinished r',
      id ∈ (K.queued r).map Entry.userData ++ K.unfinished r := by
  obtain ⟨taken, hqueued, hunf⟩ := h
  intro id hid
  have hmem : id ∈ K.unfinished r ∨ id ∈ (K.queued r).map Entry.userData := by
    rw [hqueued, List.map_append]
    rcases List.mem_append.mp hid with hid | hid
    · exact Or.inr (List.mem_append_right _ hid)
    · exact (hunf id hid).imp_right (List.mem_append_left _)
  rcases hmem with hid | hid
  · exact List.mem_append_right _ hid
  · exact List.mem_append_left _ hid

/-- **What a step can do about an id**: it is known, and completed, only when it was known
before or is submitted. -/
theorem ids_step {e : Event K} (hstep : Step b e b') :
    (∀ c ∈ e.completions, c.1 ∈ b.ids) ∧
      ∀ id ∈ b'.ids, id ∈ b.ids ∨ e.call.Submits id := by
  obtain ⟨call, completions⟩ := e
  cases call with
  | submitOperation request choice =>
    obtain ⟨rfl, rfl⟩ := Prod.mk.inj (Option.some.inj hstep)
    refine ⟨fun c hc => absurd hc (by simp), fun id hid => ?_⟩
    rcases b.submitOperation_cases request choice with ⟨-, _, hsub⟩ | ⟨entry, ring, -, hentry,
      hqueued, hunf, hsub⟩
    · rw [hsub] at hid
      exact Or.inl hid
    · rw [hsub] at hid
      have hmem := ids_of_taken (K.submit_taken ring choice) id hid
      rcases List.mem_append.mp hmem with hmem | hmem
      · rw [hqueued, List.map_append] at hmem
        rcases List.mem_append.mp hmem with hmem | hmem
        · exact Or.inl (List.mem_append_left _ hmem)
        · exact Or.inr (hentry.symm.trans (List.mem_singleton.mp hmem).symm)
      · exact Or.inl (List.mem_append_right _ (hunf ▸ hmem))
  | tryComplete =>
    obtain ⟨hfrom, hleft⟩ := b.tryComplete_ids
    have hall := Option.some.inj hstep
    rw [hall] at hfrom hleft
    exact ⟨hfrom, fun id hid => Or.inl (hleft id hid)⟩
  | waitForCompletion choice =>
    obtain ⟨⟨a, backend⟩, hwait, hab⟩ := Option.map_eq_some_iff.mp hstep
    obtain ⟨rfl, rfl⟩ := Prod.mk.inj hab
    unfold waitForCompletion at hwait
    split at hwait
    · obtain ⟨rfl, rfl⟩ := Prod.mk.inj (Option.some.inj hwait)
      exact ⟨fun c hc => absurd hc (by simp [Except.toOption]), fun id hid => Or.inl hid⟩
    split at hwait
    · exact absurd hwait (by simp)
    · rename_i ring hring
      obtain ⟨rfl, rfl⟩ := Prod.mk.inj (Option.some.inj hwait)
      exact ⟨fun c hc => absurd hc (by simp [Except.toOption]),
        fun id hid => Or.inl (ids_of_taken (K.wait_taken _ _ _ _ hring) id hid)⟩
    · rename_i ring hring
      obtain ⟨rfl, rfl⟩ := Prod.mk.inj (Option.some.inj hwait)
      have hids := ids_of_taken (K.wait_taken _ _ _ _ hring)
      obtain ⟨hfrom, hleft⟩ := ({ b with ring } : IoUringBackend K).tryComplete_ids
      exact ⟨fun c hc => hids _ (hfrom c hc), fun id hid => Or.inl (hids id (hleft id hid))⟩
  | work choice =>
    obtain ⟨rfl, rfl⟩ := Prod.mk.inj (Option.some.inj hstep)
    obtain ⟨hqueued, hunf⟩ := K.work_unfinished b.ring choice
    refine ⟨fun c hc => absurd hc (by simp), fun id hid => Or.inl ?_⟩
    exact ids_of_taken ⟨[], hqueued.symm, fun id hid => Or.inl (hunf id hid)⟩ id hid

/-! ### What a failed submission leaves -/

/-- **A failed submission leaves nothing behind**: the ids in flight are what they were, the
submission queue has no entry of the operation, and no call will hand over a completion of
it, unless an operation is submitted under its id again. -/
structure LeavesNothing (request : Request) (b b' : IoUringBackend K) : Prop where
  inFlight : b'.inFlight = b.inFlight
  queued : ∀ entry ∈ K.queued b'.ring, entry.userData ≠ request.userData
  never : ∀ (ms : List (Transition.Move (IoUringBackend K) (Event K))) b'',
    Transition.Run Step b' ms b'' → (∀ m ∈ ms, ¬m.label.call.Submits request.userData) →
    ∀ m ∈ ms, ∀ c ∈ m.label.completions, c.1 ≠ request.userData

/-- An id the ring does not know is not completed, until it is submitted. -/
theorem never_of_not_mem {id : ℕ} (hid : id ∉ b.ids)
    {ms : List (Transition.Move (IoUringBackend K) (Event K))} (hrun : Transition.Run Step b ms b')
    (hnot : ∀ m ∈ ms, ¬m.label.call.Submits id) :
    ∀ m ∈ ms, ∀ c ∈ m.label.completions, c.1 ≠ id := by
  intro m hm c hc heq
  obtain ⟨ms₁, ms₂, rfl, hrun₁, hstep, -⟩ := hrun.split hm
  let Unknown : IoUringBackend K → Prop := fun s => id ∉ s.ids
  have hkeep : ∀ s (e : Event K) t, Step s e t → ¬e.call.Submits id → Unknown s → Unknown t :=
    fun s e t hstep hnot hs ht => ((ids_step hstep).2 id ht).elim hs hnot
  have hbefore : Unknown m.before :=
    hrun₁.invariant hkeep (fun m' hm' => hnot m' (List.mem_append_left _ hm')) hid
  exact hbefore (heq ▸ (ids_step hstep).1 c hc)

/-- **An operation that is taken may complete.** -/
theorem exists_completes {id : ℕ} (hid : id ∈ K.unfinished b.ring) :
    ∃ (ms : List (Transition.Move (IoUringBackend K) (Event K))) (b' : IoUringBackend K),
      Transition.Run Step b ms b' ∧ (∀ m ∈ ms, ¬m.label.call.Submits id) ∧
      ∃ m ∈ ms, ∃ c ∈ m.label.completions, c.1 = id := by
  obtain ⟨choice, cqe, hcqe, rfl⟩ := K.work_completes b.ring id hid
  let worked : IoUringBackend K := { b with ring := K.work b.ring choice }
  have hwork : Step b ⟨.work choice, []⟩ worked := rfl
  have htake : Step worked ⟨.tryComplete, worked.tryComplete.1⟩ worked.tryComplete.2 := rfl
  refine ⟨_, _, (Transition.Run.single hwork).snoc htake, fun m hm => ?_,
    ⟨worked, ⟨.tryComplete, worked.tryComplete.1⟩, worked.tryComplete.2⟩, by simp, ?_⟩
  · rcases List.mem_append.mp hm with hm | hm
    · rw [List.mem_singleton.mp hm]
      exact fun h => h
    · rw [List.mem_singleton.mp hm]
      exact fun h => h
  · exact ⟨(cqe.userData, resultOf cqe), List.mem_map_of_mem hcqe, rfl⟩

/-- **A submission that fails leaves nothing behind exactly when it fails before its entry
is pushed**, and no other operation has its id. -/
theorem leavesNothing_iff {e : SaferRingError}
    (hfail : (b.submitOperation request choice).1 = .error e) :
    LeavesNothing request b (b.submitOperation request choice).2 ↔
      b.FailsEarly request ∧ request.userData ∉ b.ids := by
  rcases b.submitOperation_cases request choice with
    ⟨hearly, _, hsub⟩ | ⟨entry, ring, hlate, hentry, hqueued, -, hsub⟩
  · rw [hsub]
    constructor
    · rintro ⟨-, hqueue, hnever⟩
      refine ⟨hearly, fun hid => ?_⟩
      rcases List.mem_append.mp hid with hid | hid
      · obtain ⟨entry, hentry, heq⟩ := List.mem_map.mp hid
        exact hqueue entry hentry heq
      · obtain ⟨ms, b', hrun, hnot, m, hm, c, hc, heq⟩ := exists_completes hid
        exact hnever ms b' hrun hnot m hm c hc heq
    · rintro ⟨-, hid⟩
      refine ⟨rfl, fun entry hentry heq => hid ?_, fun ms b' hrun hnot => ?_⟩
      · exact List.mem_append_left _ (List.mem_map.mpr ⟨entry, hentry, heq⟩)
      · exact never_of_not_mem hid hrun hnot
  · rw [hsub] at hfail ⊢
    -- the kernel refused, so the entry is where it was pushed
    have hstays : K.queued (K.submit ring choice).2 = K.queued b.ring ++ [entry] := by
      rcases hans : (K.submit ring choice).1 with err | ⟨⟨⟩⟩
      · rw [K.submit_error ring choice err hans, hqueued]
      · rw [hans] at hfail
        exact absurd hfail (by simp)
    constructor
    · rintro ⟨-, hqueue, -⟩
      refine absurd hentry (hqueue entry ?_)
      rw [hstays]
      exact List.mem_append_right _ (List.mem_singleton_self entry)
    · rintro ⟨hearly, -⟩
      exact absurd hearly hlate

end IoUringBackend

/-! ### An instance, and two submissions -/

/-- An io_uring instance as three queues. -/
structure Queues where
  /-- How many entries the submission queue has room for. -/
  entries : ℕ
  /-- The submission queue. -/
  queue : List Entry
  /-- What the kernel works on. -/
  working : List Entry
  /-- The completion queue. -/
  posted : List Cqe
  deriving DecidableEq, Repr

/-- What the kernel does in a turn. -/
structure Turn where
  /-- The error it refuses a submission with. -/
  refuses : Option IoError
  /-- How many entries it takes. -/
  taken : ℕ
  /-- The results of the operations it completes, the oldest first. -/
  finished : List ℤ
  deriving DecidableEq, Repr

namespace Queues

variable (self : Queues) (turn : Turn)

/-- The kernel takes entries. -/
def take : Queues :=
  { self with
    queue := self.queue.drop turn.taken
    working := self.working ++ self.queue.take turn.taken }

/-- The kernel completes operations. -/
def work : Queues :=
  { self with
    working := self.working.drop turn.finished.length
    posted := self.posted ++
      (self.working.zip turn.finished).map fun done => ⟨done.1.userData, done.2⟩ }

/-- The ids of what was taken. -/
def unfinished : List ℕ := self.working.map Entry.userData ++ self.posted.map Cqe.userData

variable {self turn}

/-- What is unfinished once entries were taken. -/
theorem mem_unfinished_take {id : ℕ} (h : id ∈ (self.take turn).unfinished) :
    id ∈ self.unfinished ∨ id ∈ (self.queue.take turn.taken).map Entry.userData := by
  rcases List.mem_append.mp h with h | h
  · rw [take, List.map_append] at h
    rcases List.mem_append.mp h with h | h
    · exact Or.inl (List.mem_append_left _ h)
    · exact Or.inr h
  · exact Or.inl (List.mem_append_right _ h)

/-- Completing adds nothing unfinished. -/
theorem mem_unfinished_work {id : ℕ} (h : id ∈ (self.work turn).unfinished) :
    id ∈ self.unfinished := by
  rcases List.mem_append.mp h with h | h
  · obtain ⟨entry, hentry, rfl⟩ := List.mem_map.mp h
    exact List.mem_append_left _ (List.mem_map_of_mem (List.mem_of_mem_drop hentry))
  · obtain ⟨cqe, hcqe, rfl⟩ := List.mem_map.mp h
    rcases List.mem_append.mp hcqe with hcqe | hcqe
    · exact List.mem_append_right _ (List.mem_map_of_mem hcqe)
    · obtain ⟨done, hdone, rfl⟩ := List.mem_map.mp hcqe
      exact List.mem_append_left _ (List.mem_map_of_mem (List.of_mem_zip hdone).1)

/-- What the kernel took it may complete, all of it. -/
theorem exists_posted {id : ℕ} (h : id ∈ self.unfinished) :
    ∃ turn, ∃ cqe ∈ (self.work turn).posted, cqe.userData = id := by
  refine ⟨⟨none, 0, self.working.map fun _ => 0⟩, ?_⟩
  rcases List.mem_append.mp h with h | h
  · obtain ⟨entry, hentry, rfl⟩ := List.mem_map.mp h
    refine ⟨⟨entry.userData, 0⟩, List.mem_append_right _ ?_, rfl⟩
    have hzip : self.working.zip (self.working.map fun _ => (0 : ℤ)) =
        self.working.map fun entry => (entry, 0) := by
      have hmap := List.zip_map' (f := id) (g := fun _ : Entry => (0 : ℤ)) (l := self.working)
      rwa [List.map_id] at hmap
    refine List.mem_map.mpr ⟨(entry, 0), ?_, rfl⟩
    rw [hzip]
    exact List.mem_map_of_mem hentry
  · obtain ⟨cqe, hcqe, rfl⟩ := List.mem_map.mp h
    exact ⟨cqe, List.mem_append_left _ hcqe, rfl⟩

end Queues

/-- **Three queues are an io_uring instance.** -/
def IoUring.queues : IoUring where
  Ring := Queues
  Choice := Turn
  queued r := r.queue
  unfinished := Queues.unfinished
  isFull r := decide (r.entries ≤ r.queue.length)
  push r entry :=
    if r.entries ≤ r.queue.length then none else some { r with queue := r.queue ++ [entry] }
  submit r turn :=
    match turn.refuses with
    | some e => (.error e, r)
    | none => (.ok (), r.take turn)
  submitAndWait r turn :=
    match turn.refuses with
    | some e => some (.error e, r)
    | none =>
      if ((r.take turn).work turn).posted.isEmpty then none
      else some (.ok (), (r.take turn).work turn)
  completion r := (r.posted, { r with posted := [] })
  work := Queues.work
  push_full r entry h := if_pos (of_decide_eq_true h)
  push_queued r entry h := ⟨_, if_neg (of_decide_eq_false h), rfl, rfl⟩
  submit_taken r turn := by
    rcases turn.refuses with _ | e
    · exact ⟨r.queue.take turn.taken, (List.take_append_drop _ _).symm,
        fun id h => Queues.mem_unfinished_take h⟩
    · exact ⟨[], rfl, fun id h => Or.inl h⟩
  submit_error r turn e h := by
    rcases hrefuses : turn.refuses with _ | e'
    · rw [hrefuses] at h
      exact absurd h (by simp)
    · rfl
  wait_taken r turn a r' h := by
    split at h
    · obtain ⟨-, rfl⟩ := Prod.mk.inj (Option.some.inj h)
      exact ⟨[], rfl, fun id h => Or.inl h⟩
    · split at h
      · exact absurd h (by simp)
      · obtain ⟨-, rfl⟩ := Prod.mk.inj (Option.some.inj h)
        exact ⟨r.queue.take turn.taken, (List.take_append_drop _ _).symm,
          fun id h => Queues.mem_unfinished_take (Queues.mem_unfinished_work h)⟩
  completion_unfinished r :=
    ⟨rfl, fun c hc => List.mem_append_right _ (List.mem_map_of_mem hc),
      fun id h => List.mem_append_left _ (by simpa [Queues.unfinished] using h)⟩
  work_unfinished r turn := ⟨rfl, fun _ h => Queues.mem_unfinished_work h⟩
  work_completes r id h := Queues.exists_posted h

namespace IoUringBackend

/-- A backend over a new instance. -/
def ofQueues : IoUringBackend .queues := ⟨(⟨8, [], [], []⟩ : Queues), ∅⟩

/-- A read that is refused. -/
def refusedRead : Request := ⟨.read, 3, 0, some 4096, 8, 1, .owned 0⟩

/-- The kernel refuses a submission: it is out of resources. -/
def refuses : Turn := ⟨some (.os 11), 0, []⟩

/-- The kernel takes what is queued. -/
def takesTwo : Turn := ⟨none, 2, []⟩

/-- The kernel completes an operation. -/
def completesOne : Turn := ⟨none, 0, [8]⟩

/-- **The entry of a refused read is taken with the next one, and the read completes** into a
buffer its caller dropped. -/
theorem not_leavesNothing_refusedRead :
    (ofQueues.submitOperation refusedRead refuses).1 = .error (.io (.os 11)) ∧
    refusedRead.userData ∉ ofQueues.ids ∧
    ¬LeavesNothing refusedRead ofQueues (ofQueues.submitOperation refusedRead refuses).2 := by
  refine ⟨rfl, by decide, fun hleaves => ?_⟩
  let b₀ := (ofQueues.submitOperation refusedRead refuses).2
  let next : Request := ⟨.read, 4, 0, some 8192, 8, 2, .owned 1⟩
  let b₁ := (b₀.submitOperation next takesTwo).2
  let b₂ : IoUringBackend .queues := { b₁ with ring := Queues.work b₁.ring completesOne }
  have hsubmit : Step b₀ ⟨.submitOperation next takesTwo, []⟩ b₁ := rfl
  have hwork : Step b₁ ⟨.work completesOne, []⟩ b₂ := rfl
  have htake : Step b₂ ⟨.tryComplete, [(1, .ok 8)]⟩ b₂.tryComplete.2 := rfl
  have hrun := ((Transition.Run.single hsubmit).snoc hwork).snoc htake
  refine hleaves.never _ _ hrun ?_ ⟨b₂, ⟨.tryComplete, [(1, .ok 8)]⟩, b₂.tryComplete.2⟩ (by simp)
    (1, .ok 8) (by simp) rfl
  simp [Call.Submits, refusedRead, next]

/-- A vectored read has no entry, and leaves nothing. -/
theorem leavesNothing_readVectored :
    LeavesNothing { refusedRead with opType := .readVectored } ofQueues
      (ofQueues.submitOperation { refusedRead with opType := .readVectored } takesTwo).2 :=
  (leavesNothing_iff (e := .ioNew .unsupported
    "Operation ReadVectored not yet implemented in io_uring backend") rfl).mpr
    ⟨Or.inl rfl, by decide⟩

end IoUringBackend

end SaferRing
