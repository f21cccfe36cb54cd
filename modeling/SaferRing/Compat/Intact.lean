import SaferRing.Compat.Read
import SaferRing.Compat.Recursion
import SaferRing.Compat.Write

/-!
# Where the buffer of an adapter is

Between calls an adapter has its buffer, or a future has it (`SaferRing.AsyncReadAdapter.Intact`,
`SaferRing.AsyncWriteAdapter.Intact`), and then no call says that it is unavailable. A future
that answers an error is dropped with the buffer, and from then on the adapter has neither:
`SaferRing.healthy_iff`.
-/

namespace SaferRing

/-- The ring answers an error. -/
def Poll.reportsError : Poll SafeOutput → Bool
  | .ready (.error _) => true
  | _ => false

/-- What an error prints that counts operations begins with another letter. -/
theorem operationsInFlight_ne {count : ℕ} {text : String} (h : text.toList.head? = some 'A') :
    s!"Ring has {count} operations in flight" ≠ text := by
  intro heq
  have hhead := congrArg (fun t => t.toList.head?) heq
  have hring : (toString "Ring has ").toList.head? = some 'R' := by decide
  simp only [String.toList_append, List.head?_append, hring, h, Option.some_or] at hhead
  exact absurd hhead (by decide)

/-- An error of the ring does not say that a buffer is unavailable. -/
theorem AdapterError.ofRing_ne_other (e : SaferRingError) :
    AdapterError.ofRing e ≠ .other "AsyncReadAdapter internal buffer unavailable" ∧
      AdapterError.ofRing e ≠ .other "AsyncWriteAdapter internal buffer unavailable" := by
  cases e with
  | operationsInFlight count =>
    simp only [ofRing, other, SaferRingError.display, ne_eq, AdapterError.mk.injEq,
      List.cons.injEq, ErrorText.text.injEq, and_true]
    exact ⟨operationsInFlight_ne (by decide), operationsInFlight_ne (by decide)⟩
  | io e => simp [ofRing, other, SaferRingError.display]
  | _ => exact ⟨by decide, by decide⟩

/-! ### Reading -/

namespace AsyncReadAdapter

/-- **The buffer is in one place**: the adapter has it, or the read in flight. -/
def Intact (self : AsyncReadAdapter) : Prop :=
  self.internalBuffer.isSome ≠ self.readFuture.isSome

variable {self : AsyncReadAdapter} {heap : Heap} {round : Round} {rounds : List Round}
variable {remaining : ℕ} {p : PolledRead AsyncReadAdapter}

/-- A read in flight has the buffer. -/
theorem Intact.buffer_of_busy (h : self.Intact) {future : SafeOperationFuture}
    (hf : self.readFuture = some future) : self.internalBuffer = none := by
  rw [Intact, hf] at h
  simpa using h

/-- Taking what a read brought gives the buffer back. -/
theorem intact_receive {n : ℕ} {buffer : OwnedBuffer}
    (h : self.receive heap remaining n buffer = some p) :
    p.reader.Intact ∧ p.answer = .ready (.ok ()) := by
  rw [receive] at h
  dsimp only at h
  split at h
  · split at h
    · split at h
      · cases h
      · obtain rfl := Option.some.inj h
        refine ⟨?_, rfl⟩
        rw [Intact]
        split <;> simp
    · obtain rfl := Option.some.inj h
      exact ⟨by simp [Intact], rfl⟩
  · obtain rfl := Option.some.inj h
    exact ⟨by simp [Intact], rfl⟩

/-- What is delivered from the cache does not matter. -/
theorem intact_serve (toCopy : ℕ) : (self.serve toCopy).Intact ↔ self.Intact := by
  rw [serve]
  split <;> rfl

/-- **A call keeps the buffer in one place exactly when the future that it polls answers no
error**, and it does not say that the buffer is unavailable. -/
theorem pollRead_intact (h : self.Intact) (hcall : pollRead rounds self heap remaining = some p) :
    (p.reader.Intact ↔ ((self.cachedPos < self.cachedData.length → remaining = 0) →
      ∀ answer ∈ ringAnswer rounds self heap, ¬answer.reportsError)) ∧
    p.answer ≠ .ready (.error (.other "AsyncReadAdapter internal buffer unavailable")) := by
  -- induction on the rounds: one more is needed after a read was started
  induction rounds generalizing self with
  | nil => exact absurd hcall (by simp [pollRead])
  | cons round rounds ih =>
    rw [pollRead] at hcall
    by_cases hserve : self.cachedPos < self.cachedData.length ∧
        min (self.cachedData.length - self.cachedPos) remaining > 0
    · rw [if_pos hserve] at hcall
      obtain rfl := Option.some.inj hcall
      refine ⟨iff_of_true ((intact_serve _).mpr h) fun hroom => ?_, by simp⟩
      have hzero := hroom hserve.1
      omega
    rw [if_neg hserve] at hcall
    have hroom : self.cachedPos < self.cachedData.length → remaining = 0 := by
      intro hpos
      by_contra hne
      exact hserve ⟨hpos, by omega⟩
    rcases hf : self.readFuture with _ | future
    -- no read is in flight: one is started
    · rcases hb : self.internalBuffer with _ | buffer
      · exact absurd (by simp [hf, hb]) h
      · simp only [hf, hb] at hcall
        have hanswer : ringAnswer (round :: rounds) self heap =
            ringAnswer rounds (self.start heap round buffer) heap := by
          simp only [ringAnswer, hf, hb]
        rw [hanswer]
        exact ih (by simp [Intact, start]) hcall
    · have hanswer : ringAnswer (round :: rounds) self heap =
          some (future.poll round.polled round.waker round.fail).1 := by
        simp only [ringAnswer, hf]
      have hb := h.buffer_of_busy hf
      rw [hanswer]
      simp only [hf] at hcall
      rcases hpoll : future.poll round.polled round.waker round.fail with
        ⟨_ | e | ⟨n, buffer⟩, future', ring⟩
      · simp only [hpoll] at hcall
        obtain rfl := Option.some.inj hcall
        exact ⟨iff_of_true (by simp [Intact, hb]) (by simp [Poll.reportsError]), by simp⟩
      · simp only [hpoll] at hcall
        obtain rfl := Option.some.inj hcall
        refine ⟨iff_of_false (by simp [Intact, hb]) fun hnone => ?_, fun hanswer => ?_⟩
        · exact hnone hroom _ rfl rfl
        · exact (AdapterError.ofRing_ne_other e).1 (Except.error.inj (Poll.ready.inj hanswer))
      · simp only [hpoll] at hcall
        obtain ⟨hintact, hok⟩ := intact_receive hcall
        exact ⟨iff_of_true hintact (by simp [Poll.reportsError]), by simp [hok]⟩

end AsyncReadAdapter

/-! ### Writing -/

namespace AsyncWriteAdapter

/-- **The buffer is in one place**: the adapter has it, or the write in flight. -/
def Intact (self : AsyncWriteAdapter) : Prop :=
  self.internalBuffer.isSome ≠ self.writeFuture.isSome

/-- **What the ring answers to the futures that `poll_write` polls**, one after the other. -/
def ringAnswers : List Round → AsyncWriteAdapter → Heap → List UInt8 → List (Poll SafeOutput)
  | [], _, _, _ => []
  | round :: rounds, self, heap, buf =>
    (self.answered round).toList ++
      match self.opening heap round buf with
      | .returns _ => []
      | .starts _ _ writer heap => ringAnswers rounds writer heap []

variable {self : AsyncWriteAdapter} {heap : Heap} {round : Round} {rounds : List Round}
variable {buf : List UInt8}

/-- A write in flight has the buffer. -/
theorem Intact.buffer_of_answered (h : self.Intact) {answer : Poll SafeOutput}
    (hanswer : self.answered round = some answer) : self.internalBuffer = none := by
  obtain ⟨future, hf, -⟩ := Option.map_eq_some_iff.mp hanswer
  rw [Intact, hf] at h
  simpa using h

/-- **A poll of the write in flight keeps the buffer in one place exactly when it answers no
error.** -/
theorem pollInFlight_intact (h : self.Intact) (heap : Heap) (round : Round) :
    (self.pollInFlight heap round).writer.Intact ↔
      ∀ answer ∈ self.answered round, ¬answer.reportsError := by
  rcases self.pollInFlight_answered heap round with
    ⟨hf, hpoll⟩ | ⟨future, hanswer, hpoll⟩ | ⟨e, hanswer, hpoll⟩ |
      ⟨n, buffer, writes, hanswer, hpoll⟩
  · rw [hpoll]
    exact iff_of_true h (by simp [answered, hf])
  · rw [hpoll, hanswer]
    exact iff_of_true (by simp [Intact, h.buffer_of_answered hanswer]) (by simp [Poll.reportsError])
  · rw [hpoll, hanswer]
    refine iff_of_false (by simp [Intact, h.buffer_of_answered hanswer]) fun hnone => ?_
    exact hnone _ rfl rfl
  · rw [hpoll, hanswer]
    exact iff_of_true (by simp [Intact]) (by simp [Poll.reportsError])

/-- An adapter that gets its buffer was answered no error. -/
theorem Gets.answered {buffer : OwnedBuffer} (h : self.Gets round buffer) :
    ∀ answer ∈ (self.answered round).toList, ¬answer.reportsError := by
  rcases h with ⟨hf, -⟩ | ⟨n, hanswer⟩
  · simp [AsyncWriteAdapter.answered, hf]
  · simp [hanswer, Poll.reportsError]

/-- **A call of `poll_write` keeps the buffer in one place exactly when the futures that it polls
answer no error**, and it does not say that the buffer is unavailable. -/
theorem pollWrite_intact (h : self.Intact) {p : PolledWrite AsyncWriteAdapter ℕ}
    (hcall : pollWrite rounds self heap buf = some p) :
    (p.writer.Intact ↔ ∀ answer ∈ ringAnswers rounds self heap buf, ¬answer.reportsError) ∧
    p.answer ≠ .ready (.error (.other "AsyncWriteAdapter internal buffer unavailable")) := by
  induction rounds generalizing self heap buf p with
  | nil => exact absurd hcall (by simp [pollWrite])
  | cons round rounds ih =>
    rw [pollWrite_cons] at hcall
    rw [ringAnswers]
    have hopens := self.opens heap round buf
    generalize self.opening heap round buf = o at hopens hcall
    cases hopens with
    | waits future hanswer =>
      obtain rfl := Option.some.inj hcall
      rw [hanswer]
      exact ⟨iff_of_true (by simp [Intact, h.buffer_of_answered hanswer])
        (by simp [Poll.reportsError]), by simp⟩
    | fails e hanswer =>
      obtain rfl := Option.some.inj hcall
      rw [hanswer]
      refine ⟨iff_of_false (by simp [Intact, h.buffer_of_answered hanswer])
        (by simp [Poll.reportsError]), fun heq => ?_⟩
      exact (AdapterError.ofRing_ne_other e).2 (Except.error.inj (Poll.ready.inj heq))
    | unavailable hf hb => exact absurd (by simp [hf, hb]) h
    | held hgets hcell writes heap' =>
      obtain rfl := Option.some.inj hcall
      refine ⟨iff_of_true (by simp [Intact]) ?_, by simp⟩
      rw [List.append_nil]
      exact hgets.answered
    | starts hgets hcell hstarted =>
      obtain ⟨p, hrest, rfl⟩ := Option.map_eq_some_iff.mp hcall
      obtain ⟨hintact, hanswer⟩ := ih (by simp [Intact, hstarted.taken, hstarted.future]) hrest
      refine ⟨hintact.trans ?_, ?_⟩
      · simp only [List.mem_append, or_imp, forall_and]
        exact (and_iff_right hgets.answered).symm
      · rw [finish]
        split
        · rename_i e he
          rwa [he] at hanswer
        · simp

end AsyncWriteAdapter

/-! ### Sessions -/

namespace ReadSession

/-- **A reader that can be used**: its buffer is in one place, and whatever call comes next does
not say that it is unavailable. -/
structure Healthy (s : ReadSession AsyncReadAdapter) : Prop where
  intact : s.reader.Intact
  usable : ∀ rounds remaining p,
    AsyncReadAdapter.pollRead rounds s.reader s.heap remaining = some p →
      p.answer ≠ .ready (.error (.other "AsyncReadAdapter internal buffer unavailable"))

/-- **The future that a call polls answers no error**, unless the call delivers from the cache
and polls none. -/
def PollsWithoutError (s : ReadSession AsyncReadAdapter) (call : ReadCall) : Prop :=
  (s.reader.cachedPos < s.reader.cachedData.length → call.remaining = 0) →
    ∀ answer ∈ AsyncReadAdapter.ringAnswer call.rounds s.reader s.heap, ¬answer.reportsError

instance (s : ReadSession AsyncReadAdapter) (call : ReadCall) :
    Decidable (PollsWithoutError s call) :=
  inferInstanceAs (Decidable (_ → _))

variable {s t : ReadSession AsyncReadAdapter} {call : ReadCall}

/-- A reader whose buffer is in one place can be used. -/
theorem healthy_iff_intact : s.Healthy ↔ s.reader.Intact :=
  ⟨Healthy.intact, fun h => ⟨h, fun _ _ _ hcall => (AsyncReadAdapter.pollRead_intact h hcall).2⟩⟩

/-- A call leaves a reader that can be used exactly when it polls without an error. -/
theorem healthy_step (hstep : Step s call t) (h : s.Healthy) :
    t.Healthy ↔ PollsWithoutError s call := by
  obtain ⟨p, hcall, rfl⟩ := Option.map_eq_some_iff.mp hstep
  exact healthy_iff_intact.trans (AsyncReadAdapter.pollRead_intact h.intact hcall).1

end ReadSession

namespace WriteSession

/-- **A writer that can be used**: its buffer is in one place, and whatever write comes next does
not say that it is unavailable. -/
structure Healthy (s : WriteSession AsyncWriteAdapter) : Prop where
  intact : s.writer.Intact
  usable : ∀ rounds buf p, AsyncWriteAdapter.pollWrite rounds s.writer s.heap buf = some p →
    p.answer ≠ .ready (.error (.other "AsyncWriteAdapter internal buffer unavailable"))

/-- **The futures that a call polls answer no error.** -/
def PollsWithoutError (s : WriteSession AsyncWriteAdapter) : WriteCall → Prop
  | .write rounds buf =>
    ∀ answer ∈ AsyncWriteAdapter.ringAnswers rounds s.writer s.heap buf, ¬answer.reportsError
  | .flush round | .shutdown round => ∀ answer ∈ s.writer.answered round, ¬answer.reportsError

instance (s : WriteSession AsyncWriteAdapter) : DecidablePred (PollsWithoutError s)
  | .write rounds buf => inferInstanceAs (Decidable
      (∀ answer ∈ AsyncWriteAdapter.ringAnswers rounds s.writer s.heap buf, ¬answer.reportsError))
  | .flush round | .shutdown round =>
    inferInstanceAs (Decidable (∀ answer ∈ s.writer.answered round, ¬answer.reportsError))

variable {s t : WriteSession AsyncWriteAdapter} {call : WriteCall}

/-- A writer whose buffer is in one place can be used. -/
theorem healthy_iff_intact : s.Healthy ↔ s.writer.Intact :=
  ⟨Healthy.intact, fun h => ⟨h, fun _ _ _ hcall => (AsyncWriteAdapter.pollWrite_intact h hcall).2⟩⟩

/-- A call leaves a writer that can be used exactly when it polls without an error. -/
theorem healthy_step (hstep : Step s call t) (h : s.Healthy) :
    t.Healthy ↔ PollsWithoutError s call := by
  cases call with
  | write rounds buf =>
    obtain ⟨p, hcall, rfl⟩ := Option.map_eq_some_iff.mp hstep
    exact healthy_iff_intact.trans (AsyncWriteAdapter.pollWrite_intact h.intact hcall).1
  | flush round =>
    obtain rfl := Option.some.inj hstep
    exact healthy_iff_intact.trans (AsyncWriteAdapter.pollInFlight_intact h.intact s.heap round)
  | shutdown round =>
    obtain rfl := Option.some.inj hstep
    exact healthy_iff_intact.trans (AsyncWriteAdapter.pollInFlight_intact h.intact s.heap round)

end WriteSession

/-- **The buffer of an adapter is in one place after every call, and the adapter can be used,
exactly when the futures it polls answer no error.** -/
theorem healthy_iff {heap heap' : Heap} {addr addr' : ℕ} {fd fd' : ℤ}
    {ms : List (Transition.Move (ReadSession AsyncReadAdapter) ReadCall)}
    {ns : List (Transition.Move (WriteSession AsyncWriteAdapter) WriteCall)}
    {s : ReadSession AsyncReadAdapter} {w : WriteSession AsyncWriteAdapter}
    (hreads : Transition.Run ReadSession.Step (.new heap addr fd) ms s)
    (hwrites : Transition.Run WriteSession.Step (.new heap' addr' fd') ns w) :
    (Transition.Always ReadSession.Healthy (.new heap addr fd) ms ↔
      Transition.Guarded ReadSession.PollsWithoutError ms) ∧
    (Transition.Always WriteSession.Healthy (.new heap' addr' fd') ns ↔
      Transition.Guarded WriteSession.PollsWithoutError ns) := by
  have hread : ∀ s call t, ReadSession.Step s call t → True → s.Healthy →
      True ∧ (t.Healthy ↔ s.PollsWithoutError call) :=
    fun s call t hstep _ h => ⟨trivial, ReadSession.healthy_step hstep h⟩
  have hwrite : ∀ s call t, WriteSession.Step s call t → True → s.Healthy →
      True ∧ (t.Healthy ↔ s.PollsWithoutError call) :=
    fun s call t hstep _ h => ⟨trivial, WriteSession.healthy_step hstep h⟩
  refine ⟨?_, ?_⟩
  · have hnew : (ReadSession.new heap addr fd).reader.Intact := by
      simp [AsyncReadAdapter.Intact, ReadSession.new, AsyncReadAdapter.new]
    exact hreads.always_iff_step hread trivial
      (ReadSession.healthy_iff_intact.mpr hnew)
  · have hnew : (WriteSession.new heap' addr' fd').writer.Intact := by
      simp [AsyncWriteAdapter.Intact, WriteSession.new, AsyncWriteAdapter.new]
    exact hwrites.always_iff_step hwrite trivial
      (WriteSession.healthy_iff_intact.mpr hnew)

/-- A ring on which nothing happens, with the backend's answer to a submission. -/
def stillRound (answer : Except SaferRingError Unit) : Round := ⟨.new, 7, none, [], .new, answer⟩

/-- **After one read that the backend refused every call says that the buffer is unavailable**,
whatever the backend does from then on. -/
theorem not_healthy_refused : ∃ ms s,
    Transition.Run ReadSession.Step ReadSession.alone ms s ∧
    ms.map Transition.Move.label =
      [⟨[stillRound (.error (.io (.os 11))), stillRound (.ok ())], 8⟩] ∧
    s.reader.internalBuffer = none ∧ s.reader.readFuture = none ∧
    (∀ round rounds remaining,
      s.reader.pollRead (round :: rounds) s.heap remaining = some ⟨.ready
        (.error (.other "AsyncReadAdapter internal buffer unavailable")), [], none, s.reader,
        s.heap⟩) ∧
    ¬s.Healthy := by
  have hend : (Transition.trace ReadSession.step ReadSession.alone
      [⟨[stillRound (.error (.io (.os 11))), stillRound (.ok ())], 8⟩]).map (fun x =>
        (x.2.reader.internalBuffer, x.2.reader.readFuture, x.2.reader.cachedData)) =
      some (none, none, []) := by
    decide
  obtain ⟨⟨ms, s⟩, htrace, hend⟩ := Option.map_eq_some_iff.mp hend
  obtain ⟨hbuffer, hfuture, hcache⟩ : s.reader.internalBuffer = none ∧ s.reader.readFuture = none ∧
      s.reader.cachedData = [] := by simpa using hend
  obtain ⟨hrun, hcalls⟩ := Transition.run_of_trace htrace
  refine ⟨ms, s, hrun, hcalls, hbuffer, hfuture, fun round rounds remaining => ?_, fun h => ?_⟩
  · simp [AsyncReadAdapter.pollRead, hcache, hfuture, hbuffer]
  · exact h.intact (by simp [hbuffer, hfuture])

/-- **Reads and writes that no error meets** leave the adapters as they should be. -/
theorem healthy_inTurn : ∃ ms s ns w,
    Transition.Run ReadSession.Step ReadSession.alone ms s ∧
    ms.map Transition.Move.label = ReadSession.byteByByte ∧
    Transition.Run WriteSession.Step WriteSession.alone ns w ∧
    ns.map Transition.Move.label = WriteSession.writeThenFlush 2 ∧
    Transition.Always ReadSession.Healthy ReadSession.alone ms ∧
    Transition.Always WriteSession.Healthy WriteSession.alone ns := by
  have hreads : (Transition.trace ReadSession.step ReadSession.alone
      ReadSession.byteByByte).map (fun x =>
        x.1.all fun m => decide (m.before.PollsWithoutError m.label)) = some true := by
    decide +kernel
  have hwrites : (Transition.trace WriteSession.step WriteSession.alone
      (WriteSession.writeThenFlush 2)).map (fun x =>
        x.1.all fun m => decide (m.before.PollsWithoutError m.label)) = some true := by
    decide +kernel
  obtain ⟨⟨ms, s⟩, htrace, hreads⟩ := Option.map_eq_some_iff.mp hreads
  obtain ⟨⟨ns, w⟩, htrace', hwrites⟩ := Option.map_eq_some_iff.mp hwrites
  obtain ⟨hrun, hcalls⟩ := Transition.run_of_trace htrace
  obtain ⟨hrun', hcalls'⟩ := Transition.run_of_trace htrace'
  obtain ⟨hread, hwrite⟩ := healthy_iff hrun hrun'
  refine ⟨ms, s, ns, w, hrun, hcalls, hrun', hcalls', hread.mpr fun m hm => ?_,
    hwrite.mpr fun m hm => ?_⟩
  · exact of_decide_eq_true (List.all_eq_true.mp hreads m hm)
  · exact of_decide_eq_true (List.all_eq_true.mp hwrites m hm)

end SaferRing
