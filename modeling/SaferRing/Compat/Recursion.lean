import SaferRing.Compat

/-!
# How often a write adapter writes

`poll_write` polls the write that it has started by calling itself, with nothing to write. If the
write is done by then there is no write in flight, and the call starts another, of nothing, and
so on: `SaferRing.AsyncWriteAdapter.writesOnce_iff`.

What a call does up to the point where it calls itself is `SaferRing.AsyncWriteAdapter.opening`.
-/

namespace SaferRing

/-- The first of an unending sequence of rounds. -/
def Round.first (rounds : ℕ → Round) : ℕ → List Round
  | 0 => []
  | n + 1 => rounds 0 :: first (fun i => rounds (i + 1)) n

namespace AsyncWriteAdapter

/-! ### A call up to where it calls itself -/

/-- What `poll_write` comes to before it calls itself. -/
inductive Opening
  /-- It returns. -/
  | returns (p : PolledWrite AsyncWriteAdapter ℕ)
  /-- It has started a write, with so many bytes copied, and calls itself. -/
  | starts (writes : List CompletedWrite) (toCopy : ℕ) (writer : AsyncWriteAdapter) (heap : Heap)

/-- **`poll_write`, up to where it calls itself.** -/
def opening (self : AsyncWriteAdapter) (heap : Heap) (round : Round) (buf : List UInt8) :
    Opening :=
  match self.pollInFlight heap round with
  | ⟨.pending, writes, self, heap⟩ => .returns ⟨.pending, writes, self, heap⟩
  | ⟨.ready (.error e), writes, self, heap⟩ => .returns ⟨.ready (.error e), writes, self, heap⟩
  | ⟨.ready (.ok ()), writes, self, heap⟩ =>
    match self.internalBuffer with
    | none =>
      .returns ⟨.ready (.error (.other "AsyncWriteAdapter internal buffer unavailable")), writes,
        self, heap⟩
    | some buffer =>
      match buffer.tryAccess heap with
      | (none, heap) => .returns ⟨.pending, writes, self, heap⟩
      | (some guard, heap) =>
        let toCopy := min buf.length guard.buffer.bytes.length
        let guard := guard.copyFromSlice (buf.take toCopy)
        let heap := guard.drop heap
        .starts writes toCopy (self.start heap round buffer (buf.take toCopy)) heap

/-- What the call it makes of itself comes to, for the caller. -/
def finish (writes : List CompletedWrite) (toCopy : ℕ) (p : PolledWrite AsyncWriteAdapter ℕ) :
    PolledWrite AsyncWriteAdapter ℕ :=
  let answer := match p.answer with
    | .ready (.error e) => .ready (.error e)
    | _ => .ready (.ok toCopy)
  ⟨answer, writes ++ p.writes, p.writer, p.heap⟩

variable {self : AsyncWriteAdapter} {heap : Heap} {round : Round} {rounds : List Round}
variable {buf : List UInt8}

/-- **A call is its opening, and the call it makes of itself.** -/
theorem pollWrite_cons : pollWrite (round :: rounds) self heap buf =
    match self.opening heap round buf with
    | .returns p => some p
    | .starts writes toCopy writer heap =>
      (pollWrite rounds writer heap []).map (finish writes toCopy) := by
  rw [pollWrite, opening]
  rcases self.pollInFlight heap round with ⟨_ | e | ⟨⟨⟩⟩, writes, self', heap'⟩
  · rfl
  · rfl
  rcases hb : self'.internalBuffer with _ | buffer
  · simp only [hb]
  rcases ha : buffer.tryAccess heap' with ⟨_ | guard, heap''⟩
  · simp only [hb, ha]
  simp only [hb, ha]
  rcases pollWrite rounds _ _ [] with _ | ⟨_ | e | n, more, writer, heap'''⟩
  all_goals rfl

/-- What the ring answers to the future of an adapter. -/
def answered (self : AsyncWriteAdapter) (round : Round) : Option (Poll SafeOutput) :=
  self.writeFuture.map fun future => (future.poll round.polled round.waker round.fail).1

/-- **What a poll of the write in flight does** follows from what the ring answers. -/
theorem pollInFlight_answered (self : AsyncWriteAdapter) (heap : Heap) (round : Round) :
    (self.writeFuture = none ∧
      self.pollInFlight heap round = ⟨.ready (.ok ()), [], self, heap⟩) ∨
    (∃ future, self.answered round = some .pending ∧ self.pollInFlight heap round =
      ⟨.pending, [], { self with writeFuture := some future }, heap⟩) ∨
    (∃ e, self.answered round = some (.ready (.error e)) ∧ self.pollInFlight heap round =
      ⟨.ready (.error (.ofRing e)), [], { self with writeFuture := none }, heap⟩) ∨
    (∃ n buffer writes, self.answered round = some (.ready (.ok (n, buffer))) ∧
      self.pollInFlight heap round = ⟨.ready (.ok ()), writes,
        { self with writeFuture := none, internalBuffer := some buffer }, heap⟩) := by
  rcases hf : self.writeFuture with _ | future
  · exact Or.inl ⟨rfl, by simp only [pollInFlight, hf]⟩
  have hanswer : self.answered round =
      some (future.poll round.polled round.waker round.fail).1 := by simp [answered, hf]
  rw [hanswer]
  rcases hpoll : future.poll round.polled round.waker round.fail with
    ⟨_ | e | ⟨n, buffer⟩, future', ring⟩
  · exact Or.inr (Or.inl ⟨future', rfl, by simp only [pollInFlight, hf, hpoll]⟩)
  · exact Or.inr (Or.inr (Or.inl ⟨e, rfl, by simp only [pollInFlight, hf, hpoll]⟩))
  · exact Or.inr (Or.inr (Or.inr ⟨n, buffer,
      [⟨self.request, self.slice, (buffer.bytes heap).take n⟩], rfl,
      by simp only [pollInFlight, hf, hpoll]⟩))

/-- **A write was just started** of a buffer that the user owns: it is in flight. -/
structure Started (buffer : OwnedBuffer) (writer : AsyncWriteAdapter) (heap : Heap)
    (round : Round) : Prop where
  /-- The user owns the buffer. -/
  content : ∃ content, heap.cell buffer.inner = .user content
  /-- The adapter does not have it. -/
  taken : writer.internalBuffer = none
  /-- The future does. -/
  future : writer.writeFuture =
    some (round.submitted.writeOwned heap writer.fd buffer round.answer).1
  /-- The request is known. -/
  request : writer.request.toList.length = 1

/-- An adapter gets its buffer, from where it is. -/
def Gets (self : AsyncWriteAdapter) (round : Round) (buffer : OwnedBuffer) : Prop :=
  (self.writeFuture = none ∧ self.internalBuffer = some buffer) ∨
    ∃ n, self.answered round = some (.ready (.ok (n, buffer)))

/-- It has it when it has polled the write in flight. -/
theorem Gets.pollInFlight {buffer : OwnedBuffer} (h : self.Gets round buffer) (heap : Heap) :
    ∃ writes, self.pollInFlight heap round = ⟨.ready (.ok ()), writes,
      { self with writeFuture := none, internalBuffer := some buffer }, heap⟩ := by
  rcases self.pollInFlight_answered heap round with
    ⟨hf, hpoll⟩ | ⟨future, hanswer, -⟩ | ⟨e, hanswer, -⟩ | ⟨n, b, writes, hanswer, hpoll⟩
  all_goals rcases h with ⟨hnone, hb⟩ | ⟨m, hready⟩
  · refine ⟨[], hpoll.trans ?_⟩
    rw [← hnone, ← hb]
  · simp [answered, hf] at hready
  · simp [answered, hnone] at hanswer
  · simp [hanswer] at hready
  · simp [answered, hnone] at hanswer
  · simp [hanswer] at hready
  · simp [answered, hnone] at hanswer
  · obtain ⟨-, rfl⟩ : n = m ∧ b = buffer := by simpa [hanswer] using hready
    exact ⟨writes, hpoll⟩

/-- **What a call can come to before it calls itself.** -/
inductive Opens (self : AsyncWriteAdapter) (heap : Heap) (round : Round) : Opening → Prop
  /-- The write in flight goes on. -/
  | waits (future : SafeOperationFuture) (hanswer : self.answered round = some .pending) :
    Opens self heap round
      (.returns ⟨.pending, [], { self with writeFuture := some future }, heap⟩)
  /-- It failed. -/
  | fails (e : SaferRingError) (hanswer : self.answered round = some (.ready (.error e))) :
    Opens self heap round
      (.returns ⟨.ready (.error (.ofRing e)), [], { self with writeFuture := none }, heap⟩)
  /-- There is neither a write in flight nor a buffer. -/
  | unavailable (hf : self.writeFuture = none) (hb : self.internalBuffer = none) :
    Opens self heap round (.returns
      ⟨.ready (.error (.other "AsyncWriteAdapter internal buffer unavailable")), [], self, heap⟩)
  /-- The buffer is there, and somebody else has its bytes. -/
  | held {buffer : OwnedBuffer} (hgets : self.Gets round buffer)
    (hcell : ∀ content, heap.cell buffer.inner ≠ .user content) (writes : List CompletedWrite)
    (heap' : Heap) : Opens self heap round (.returns
      ⟨.pending, writes, { self with writeFuture := none, internalBuffer := some buffer }, heap'⟩)
  /-- A write is started. -/
  | starts {buffer : OwnedBuffer} (hgets : self.Gets round buffer)
    (hcell : ∃ content, heap.cell buffer.inner = .user content) {writes : List CompletedWrite}
    {toCopy : ℕ} {writer : AsyncWriteAdapter} {heap' : Heap}
    (hstarted : Started buffer writer heap' round) :
    Opens self heap round (.starts writes toCopy writer heap')

/-- An adapter that gets its buffer. -/
theorem Gets.opens {buffer : OwnedBuffer} (h : self.Gets round buffer) (heap : Heap)
    (buf : List UInt8) : self.Opens heap round (self.opening heap round buf) := by
  obtain ⟨writes, hpoll⟩ := h.pollInFlight heap
  rw [opening, hpoll]
  rcases hcell : heap.cell buffer.inner with content | ⟨content, id⟩ | _
  · simp only [OwnedBuffer.tryAccess_of_user hcell]
    exact .starts h ⟨content, hcell⟩ ⟨⟨_, Heap.cell_set_self ..⟩, rfl, rfl, rfl⟩
  all_goals
    simp only [OwnedBuffer.tryAccess, hcell, BufferOwnership.tryAccess]
    exact .held h (by simp [hcell]) _ _

/-- **A call does one of five things before it calls itself.** -/
theorem opens (self : AsyncWriteAdapter) (heap : Heap) (round : Round) (buf : List UInt8) :
    self.Opens heap round (self.opening heap round buf) := by
  rcases self.pollInFlight_answered heap round with
    ⟨hf, hpoll⟩ | ⟨future, hanswer, hpoll⟩ | ⟨e, hanswer, hpoll⟩ | ⟨n, buffer, _, hanswer, -⟩
  · rcases hb : self.internalBuffer with _ | buffer
    · rw [opening, hpoll]
      simp only [hb]
      exact .unavailable hf hb
    · exact Gets.opens (Or.inl ⟨hf, hb⟩) heap buf
  · rw [opening, hpoll]
    exact .waits future hanswer
  · rw [opening, hpoll]
    exact .fails e hanswer
  · exact Gets.opens (Or.inr ⟨n, hanswer⟩) heap buf

/-- It gets one buffer only. -/
theorem Gets.unique {buffer buffer' : OwnedBuffer} (h : self.Gets round buffer)
    (h' : self.Gets round buffer') : buffer = buffer' := by
  obtain ⟨writes, hpoll⟩ := h.pollInFlight .empty
  obtain ⟨writes', hpoll'⟩ := h'.pollInFlight .empty
  have hwriter := congrArg (fun p => p.writer.internalBuffer) (hpoll.symm.trans hpoll')
  exact Option.some.inj hwriter

/-- **A call that gets a buffer of the user's starts a write.** -/
theorem Gets.opening {buffer : OwnedBuffer} {content : BoxedSlice} (h : self.Gets round buffer)
    (hcell : heap.cell buffer.inner = .user content) (buf : List UInt8) :
    ∃ writes toCopy writer heap', self.opening heap round buf =
      .starts writes toCopy writer heap' := by
  obtain ⟨writes, hpoll⟩ := h.pollInFlight heap
  rw [AsyncWriteAdapter.opening, hpoll]
  simp only [OwnedBuffer.tryAccess_of_user hcell]
  exact ⟨_, _, _, _, rfl⟩

/-! ### The write that was started -/

variable {k : ℕ} {rounds : ℕ → Round} {writes : List CompletedWrite} {toCopy : ℕ}
variable {writer : AsyncWriteAdapter} {heap' : Heap}

end AsyncWriteAdapter

/-! ### A kernel that is faster -/

namespace Ring

/-- **Nothing is going on** at a ring. -/
structure Quiet (ring : Ring) : Prop where
  pending : ring.backend.pending = []
  ready : ring.backend.ready = []
  cached : ∀ id, ring.cached id = none
  orphan : ∀ id, ring.orphan id = none

variable {self : Ring}

end Ring

namespace AsyncWriteAdapter

end AsyncWriteAdapter

end SaferRing
