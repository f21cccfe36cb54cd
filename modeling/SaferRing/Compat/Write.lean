import SaferRing.Compat
import SaferRing.Library.Run

/-!
# The stream of a write adapter

What the kernel takes of the writes of an adapter should be what its calls accepted, once a
flush says so (`SaferRing.WriteSession.Faithful`). But a write is of the whole buffer, and its
count is not looked at: of what was copied into the buffer the kernel may take less, and then
the rest is lost, or more, and then it takes what the buffer held before. A write that is done
when it is polled at once makes things worse, since `poll_write` then goes on to write the
buffer again, for nothing.

What a call does to what it was given is `SaferRing.AsyncWriteAdapter.pollWrite_given`; and
where every write takes what was copied for it the stream is faithful
(`SaferRing.WriteSession.faithful_of_exact`).
-/

namespace SaferRing

/-- **The kernel took what was copied**, and nothing else. -/
def CompletedWrite.Exact (self : CompletedWrite) : Prop := self.bytes.length = self.slice.length

/-- A completed write of a buffer with the bytes copied in front. -/
structure CompletedWrite.OfBuffer (w : CompletedWrite) (content : List UInt8) : Prop where
  size : content.length = adapterBufferSize
  slice : w.slice <+: content
  bytes : w.bytes <+: content
  request : ∃ fd ptr id cell,
    w.request = some ⟨.write, fd, 0, ptr, adapterBufferSize, id, .owned cell⟩

/-- The bytes copied for writes, in order. -/
def slicesOf (writes : List CompletedWrite) : List UInt8 := writes.flatMap CompletedWrite.slice

@[simp] theorem slicesOf_append (writes more : List CompletedWrite) :
    slicesOf (writes ++ more) = slicesOf writes ++ slicesOf more :=
  List.flatMap_append

namespace AsyncWriteAdapter

/-- **What holds of a write adapter between calls**: the buffer is in its hands or in those of
the write in flight, and userspace owns it; and that write is of the whole buffer, at the
offset `0`, with the bytes copied in front. -/
structure Sound (adapter : AsyncWriteAdapter) (heap : Heap) : Prop where
  idle : ∀ buffer, adapter.internalBuffer = some buffer → buffer.Kept heap
  busy : ∀ future, adapter.writeFuture = some future → ∃ buffer, future.Holds buffer ∧
    buffer.Kept heap ∧ adapter.slice <+: buffer.bytes heap ∧ ∃ ptr id, adapter.request =
      some ⟨.write, adapter.fd, 0, ptr, adapterBufferSize, id, .owned buffer.inner⟩

/-- What was copied for the write in flight. -/
def owed (self : AsyncWriteAdapter) : List UInt8 :=
  if self.writeFuture.isSome then self.slice else []

variable {self : AsyncWriteAdapter} {heap : Heap} {rounds : List Round} {buf : List UInt8}

theorem sound_new (heap : Heap) (addr : ℕ) (fd : ℤ) :
    (new heap addr fd).1.Sound (new heap addr fd).2 := by
  refine ⟨fun buffer hb => ?_, fun future hf => absurd hf (by simp [new])⟩
  obtain rfl := Option.some.inj hb
  exact OwnedBuffer.kept_new heap addr

/-- **What a call leaves behind**: the adapter sound, and completed writes of the buffer. -/
structure Leaves {α : Type} (p : PolledWrite AsyncWriteAdapter α) : Prop where
  sound : p.writer.Sound p.heap
  writes : ∀ w ∈ p.writes, ∃ content, w.OfBuffer content

/-- What was copied for the writes that completed in a call and for the one in flight. -/
def given {α : Type} (p : PolledWrite AsyncWriteAdapter α) : List UInt8 :=
  slicesOf p.writes ++ p.writer.owed

/-- **Waiting for the write in flight**: there is none, or it goes on; it completes, and gives
the buffer back; or it fails. -/
theorem pollInFlight_cases (h : self.Sound heap) (round : Round) :
    (∃ answer, (answer = .pending ∨ answer = .ready (.ok ()) ∧ self.writeFuture = none) ∧
      self.pollInFlight heap round = ⟨answer, [], self, heap⟩) ∨
    (∃ content w buffer, self.writeFuture.isSome ∧ w.OfBuffer content ∧ w.slice = self.slice ∧
      buffer.Kept heap ∧ self.pollInFlight heap round = ⟨.ready (.ok ()), [w],
        { self with writeFuture := none, internalBuffer := some buffer }, heap⟩) ∨
    (∃ e, self.pollInFlight heap round =
      ⟨.ready (.error e), [], { self with writeFuture := none }, heap⟩) := by
  rcases hf : self.writeFuture with _ | future
  · refine Or.inl ⟨.ready (.ok ()), Or.inr ⟨rfl, rfl⟩, ?_⟩
    simp only [pollInFlight, hf]
  obtain ⟨buffer, hholds, ⟨buf, hcell, hlen⟩, hslice, ptr, id, hrequest⟩ := h.busy future hf
  rcases SafeOperationFuture.poll_holds hholds round.polled round.waker round.fail with
    ⟨_, hpoll⟩ | ⟨n, _, _, hpoll⟩ | ⟨e, _, _, hpoll⟩
  · refine Or.inl ⟨.pending, Or.inl rfl, ?_⟩
    have hself : { self with writeFuture := some future } = self := by rw [← hf]
    simp only [pollInFlight, hf, hpoll, hself]
  · refine Or.inr (Or.inl ⟨buf.bytes, ⟨self.request, self.slice, buf.bytes.take n⟩, buffer, rfl,
      ⟨hlen, ?_, List.take_prefix _ _, ⟨_, _, _, _, hrequest⟩⟩, rfl, ⟨buf, hcell, hlen⟩, ?_⟩)
    · rwa [OwnedBuffer.bytes_of_user hcell] at hslice
    · simp only [pollInFlight, hf, hpoll, OwnedBuffer.bytes_of_user hcell]
  · refine Or.inr (Or.inr ⟨.ofRing e, ?_⟩)
    simp only [pollInFlight, hf, hpoll]

/-- What a poll of the write in flight leaves behind. -/
theorem pollInFlight_leaves (h : self.Sound heap) (round : Round) :
    Leaves (self.pollInFlight heap round) := by
  rcases pollInFlight_cases h round with
    ⟨answer, -, hpoll⟩ | ⟨content, w, buffer, -, hw, -, hkept, hpoll⟩ | ⟨e, hpoll⟩
  · rw [hpoll]
    exact ⟨h, fun w hw => absurd hw (by simp)⟩
  · rw [hpoll]
    refine ⟨⟨fun b hb => Option.some.inj hb ▸ hkept, fun f hf => absurd hf (by simp)⟩,
      fun w' hw' => ?_⟩
    obtain rfl := List.mem_singleton.mp hw'
    exact ⟨content, hw⟩
  · rw [hpoll]
    exact ⟨⟨h.idle, fun f hf => absurd hf (by simp)⟩, fun w hw => absurd hw (by simp)⟩

/-- Unless it fails, what was copied for it is what it was. -/
theorem pollInFlight_given (h : self.Sound heap) (round : Round)
    (hok : ∀ e, (self.pollInFlight heap round).answer ≠ .ready (.error e)) :
    given (self.pollInFlight heap round) = self.owed ∧
      ((self.pollInFlight heap round).answer = .ready (.ok ()) →
        (self.pollInFlight heap round).writer.writeFuture = none) := by
  rcases pollInFlight_cases h round with
    ⟨answer, hanswer, hpoll⟩ | ⟨content, w, buffer, hsome, -, hslice, -, hpoll⟩ | ⟨e, hpoll⟩
  · rw [hpoll]
    refine ⟨rfl, fun hready => ?_⟩
    rcases hanswer with rfl | ⟨-, hnone⟩
    · exact absurd hready (by simp)
    · exact hnone
  · rw [hpoll]
    refine ⟨?_, fun _ => rfl⟩
    rw [owed, if_pos hsome, ← hslice]
    exact (List.append_nil _).trans (List.flatMap_singleton _ _)
  · rw [hpoll] at hok
    exact absurd rfl (hok e)

/-- A write that is started is in flight with what was copied in front of the buffer. -/
theorem sound_start (self : AsyncWriteAdapter) (round : Round) {buffer : OwnedBuffer}
    {content : BoxedSlice}
    (hcell : heap.cell buffer.inner = .user content)
    (hlen : content.bytes.length = adapterBufferSize) {slice : List UInt8}
    (hslice : slice <+: content.bytes) : (self.start heap round buffer slice).Sound heap := by
  refine ⟨fun b hb => absurd hb (by simp [start]), fun future hf => ?_⟩
  obtain rfl := Option.some.inj hf
  refine ⟨buffer, (OwnedCall.writeOwned self.fd).holds_submit _ _ _ _, ⟨content, hcell, hlen⟩,
    ?_, some content.addr, round.submitted.nextSubmissionId, ?_⟩
  · rw [OwnedBuffer.bytes_of_user hcell]
    exact hslice
  · simp only [start, OwnedCall.request, OwnedBuffer.asPtrAndLen_of_user hcell, hlen]

/-- **What `poll_write` does with what it is given**: as much of it as it says is copied for a
write, and nothing else; nothing when it waits. -/
theorem pollWrite_given (h : self.Sound heap) {p : PolledWrite AsyncWriteAdapter ℕ}
    (hcall : pollWrite rounds self heap buf = some p) :
    Leaves p ∧ (p.answer = .pending → given p = self.owed) ∧
      ∀ n, p.answer = .ready (.ok n) → given p = self.owed ++ buf.take n := by
  -- induction on the rounds, since `poll_write` calls itself on a write that it started
  induction rounds generalizing self heap buf p with
  | nil => exact absurd hcall (by simp [pollWrite])
  | cons round rounds ih =>
    have hleaves := pollInFlight_leaves h round
    have hgiven := pollInFlight_given h round
    rw [pollWrite] at hcall
    rcases hpoll : self.pollInFlight heap round with ⟨_ | e | ⟨⟨⟩⟩, writes, self', heap'⟩
    · rw [hpoll] at hcall hleaves hgiven
      obtain rfl := Option.some.inj hcall
      exact ⟨⟨hleaves.sound, hleaves.writes⟩, fun _ => (hgiven (by simp)).1,
        fun n hn => absurd hn (by simp)⟩
    · rw [hpoll] at hcall hleaves
      obtain rfl := Option.some.inj hcall
      exact ⟨⟨hleaves.sound, hleaves.writes⟩, fun hc => absurd hc (by simp),
        fun n hn => absurd hn (by simp)⟩
    rw [hpoll] at hcall hleaves hgiven
    obtain ⟨hgiven, hidle⟩ := hgiven (by simp)
    have hnone : self'.owed = [] := by
      rw [owed, hidle rfl]
      rfl
    have hbefore : slicesOf writes = self.owed := by
      rw [← hgiven, given, hnone, List.append_nil]
    simp only at hcall
    rcases hb : self'.internalBuffer with _ | buffer
    · rw [hb] at hcall
      obtain rfl := Option.some.inj hcall
      exact ⟨⟨hleaves.sound, hleaves.writes⟩, fun hc => absurd hc (by simp),
        fun n hn => absurd hn (by simp)⟩
    obtain ⟨content, hcell, hlen⟩ := hleaves.sound.idle buffer hb
    simp only [hb, OwnedBuffer.tryAccess_of_user hcell] at hcall
    -- what fits of the bytes is in front of the buffer that is written
    have hfits : (buf.take (min buf.length content.bytes.length)).length ≤
        content.bytes.length := by
      rw [List.length_take]
      omega
    have hcell' : (BufferAccessGuard.drop
        (BufferAccessGuard.copyFromSlice ⟨content, buffer.inner⟩
          (buf.take (min buf.length content.bytes.length)))
        (heap'.set buffer.inner .returning)).cell buffer.inner =
        .user (content.fill (buf.take (min buf.length content.bytes.length))) :=
      Heap.cell_set_self ..
    have hstart := sound_start self' round hcell'
      (by rw [OwnedBuffer.length_fill, hlen]) (OwnedBuffer.prefix_fill hfits)
    rcases hrest : pollWrite rounds _ _ [] with _ | ⟨_ | e | n', more, adapter, heap₂⟩
    · rw [hrest] at hcall
      exact absurd hcall (by simp)
    all_goals
      obtain ⟨hleaves', hpending, hready⟩ := ih hstart hrest
      rw [hrest] at hcall
      obtain rfl := Option.some.inj hcall
      have hwrites : ∀ w ∈ writes ++ more, ∃ content, w.OfBuffer content := fun w hw =>
        (List.mem_append.mp hw).elim (hleaves.writes w) (hleaves'.writes w)
    · have hrest := hpending rfl
      refine ⟨⟨hleaves'.sound, hwrites⟩, fun hc => absurd hc (by simp), fun n hn => ?_⟩
      obtain rfl := Except.ok.inj (Poll.ready.inj hn)
      rw [given, slicesOf_append, List.append_assoc, hbefore]
      exact congrArg (self.owed ++ ·) hrest
    · exact ⟨⟨hleaves'.sound, hwrites⟩, fun hc => absurd hc (by simp),
        fun n hn => absurd hn (by simp)⟩
    · have hrest := hready n' rfl
      rw [List.take_nil, List.append_nil] at hrest
      refine ⟨⟨hleaves'.sound, hwrites⟩, fun hc => absurd hc (by simp), fun n hn => ?_⟩
      obtain rfl := Except.ok.inj (Poll.ready.inj hn)
      rw [given, slicesOf_append, List.append_assoc, hbefore]
      exact congrArg (self.owed ++ ·) hrest

end AsyncWriteAdapter

/-! ### Sessions -/

/-- **A caller with its writer.** -/
structure WriteSession (A : Type) where
  /-- The writer. -/
  writer : A
  /-- The cells of the buffers. -/
  heap : Heap
  /-- What the calls accepted so far. -/
  accepted : List UInt8
  /-- Whether the last call was a flush, and said that it is done. -/
  flushed : Bool
  /-- Whether a call returned an error. -/
  failed : Bool
  /-- History: the writes that completed. -/
  writes : List CompletedWrite

/-- A call of a writer. -/
inductive WriteCall
  /-- `poll_write`. -/
  | write (rounds : List Round) (buf : List UInt8)
  /-- `poll_flush`. -/
  | flush (round : Round)
  /-- `poll_shutdown`. -/
  | shutdown (round : Round)

/-- Whether an answer is an error. -/
def Poll.isError {α : Type} : Poll (Except AdapterError α) → Bool
  | .ready (.error _) => true
  | _ => false

/-- The bytes a call accepted of those it was given. -/
def bytesAccepted (buf : List UInt8) : Poll (Except AdapterError ℕ) → List UInt8
  | .ready (.ok n) => buf.take n
  | _ => []

namespace WriteSession

section Calls

variable {A : Type}

/-- The session once a write returned. -/
def afterWrite (self : WriteSession A) (buf : List UInt8) (p : PolledWrite A ℕ) :
    WriteSession A :=
  ⟨p.writer, p.heap, self.accepted ++ bytesAccepted buf p.answer, false,
    self.failed || p.answer.isError, self.writes ++ p.writes⟩

/-- The session once a flush returned. -/
def afterFlush (self : WriteSession A) (p : PolledWrite A Unit) : WriteSession A :=
  ⟨p.writer, p.heap, self.accepted, decide (p.answer = .ready (.ok ())),
    self.failed || p.answer.isError, self.writes ++ p.writes⟩

/-- The bytes the kernel took. -/
def taken (self : WriteSession A) : List UInt8 := self.writes.flatMap CompletedWrite.bytes

variable [AsyncWrite A]

/-- **What a call does**, if it returns. -/
def step (self : WriteSession A) : WriteCall → Option (WriteSession A)
  | .write rounds buf =>
    (AsyncWrite.pollWrite rounds self.writer self.heap buf).map (self.afterWrite buf)
  | .flush round => some (self.afterFlush (AsyncWrite.pollFlush self.writer self.heap round))
  | .shutdown round => some (self.afterFlush (AsyncWrite.pollShutdown self.writer self.heap round))

/-- The step relation. -/
abbrev Step (s : WriteSession A) (call : WriteCall) (t : WriteSession A) : Prop :=
  s.step call = some t

/-- What completed stays so. -/
theorem writes_step {s t : WriteSession A} {call : WriteCall} (hstep : Step s call t) :
    ∃ more, t.writes = s.writes ++ more := by
  cases call with
  | write rounds buf =>
    obtain ⟨p, -, rfl⟩ := Option.map_eq_some_iff.mp hstep
    exact ⟨_, rfl⟩
  | flush round =>
    obtain rfl := Option.some.inj hstep
    exact ⟨_, rfl⟩
  | shutdown round =>
    obtain rfl := Option.some.inj hstep
    exact ⟨_, rfl⟩

end Calls

/-- A session with a new adapter. -/
def new (heap : Heap) (addr : ℕ) (fd : ℤ) : WriteSession AsyncWriteAdapter :=
  let (writer, heap) := AsyncWriteAdapter.new heap addr fd
  ⟨writer, heap, [], false, false, []⟩

/-- **The stream is faithful**: after a flush that is done, and as long as no call failed, the
kernel took what the calls accepted. -/
def Faithful (self : WriteSession AsyncWriteAdapter) : Prop :=
  self.failed = false → self.flushed = true → self.taken = self.accepted

/-- **What holds of a session**: the adapter is sound, the writes were of its buffer, and what
the calls accepted was copied for writes that completed or for the one in flight. -/
structure Sound (s : WriteSession AsyncWriteAdapter) : Prop where
  sound : s.writer.Sound s.heap
  writes : ∀ w ∈ s.writes, ∃ content, w.OfBuffer content
  given : s.failed = false → slicesOf s.writes ++ s.writer.owed = s.accepted
  flushed : s.failed = false → s.flushed = true → s.writer.writeFuture = none

variable {s t : WriteSession AsyncWriteAdapter} {call : WriteCall}

theorem sound_new (heap : Heap) (addr : ℕ) (fd : ℤ) : (new heap addr fd).Sound :=
  ⟨AsyncWriteAdapter.sound_new heap addr fd, fun w hw => absurd hw (by simp [new]), fun _ => rfl,
    fun _ hc => absurd hc (by simp [new])⟩

/-- A flush keeps a session sound. -/
theorem Sound.afterFlush (h : s.Sound) (round : Round) :
    (s.afterFlush (s.writer.pollFlush s.heap round)).Sound := by
  have hleaves := AsyncWriteAdapter.pollInFlight_leaves h.sound round
  -- a flush that did not fail kept what was copied
  have hgiven : (s.afterFlush (s.writer.pollFlush s.heap round)).failed = false →
      s.failed = false ∧
        AsyncWriteAdapter.given (s.writer.pollInFlight s.heap round) = s.writer.owed ∧
        ((s.writer.pollInFlight s.heap round).answer = .ready (.ok ()) →
          (s.writer.pollInFlight s.heap round).writer.writeFuture = none) := by
    intro hok
    obtain ⟨hs, hanswer⟩ := Bool.or_eq_false_iff.mp hok
    refine ⟨hs, AsyncWriteAdapter.pollInFlight_given h.sound round fun e he => ?_⟩
    have herror : (s.writer.pollInFlight s.heap round).answer.isError = false := hanswer
    rw [he] at herror
    exact absurd herror (by simp [Poll.isError])
  refine ⟨hleaves.sound, fun w hw => ?_, fun hok => ?_, fun hok hflushed => ?_⟩
  · exact (List.mem_append.mp hw).elim (h.writes w) (hleaves.writes w)
  · obtain ⟨hs, hgiven, -⟩ := hgiven hok
    have hbefore := h.given hs
    rw [← hgiven, AsyncWriteAdapter.given, ← List.append_assoc, ← slicesOf_append] at hbefore
    exact hbefore
  · exact (hgiven hok).2.2 (of_decide_eq_true hflushed)

/-- A write keeps a session sound. -/
theorem Sound.afterWrite (h : s.Sound) {rounds : List Round} {buf : List UInt8}
    {p : PolledWrite AsyncWriteAdapter ℕ}
    (hcall : AsyncWriteAdapter.pollWrite rounds s.writer s.heap buf = some p) :
    (s.afterWrite buf p).Sound := by
  obtain ⟨hleaves, hpending, hready⟩ := AsyncWriteAdapter.pollWrite_given h.sound hcall
  refine ⟨hleaves.sound, fun w hw => ?_, fun hok => ?_,
    fun _ hc => absurd hc (by simp [WriteSession.afterWrite])⟩
  · exact (List.mem_append.mp hw).elim (h.writes w) (hleaves.writes w)
  · obtain ⟨hs, hanswer⟩ := Bool.or_eq_false_iff.mp hok
    have hgiven : AsyncWriteAdapter.given p = s.writer.owed ++ bytesAccepted buf p.answer := by
      rcases ha : p.answer with _ | e | n
      · rw [hpending ha]
        exact (List.append_nil _).symm
      · rw [ha] at hanswer
        exact absurd hanswer (by simp [Poll.isError])
      · exact hready n ha
    have hall : slicesOf s.writes ++ AsyncWriteAdapter.given p =
        s.accepted ++ bytesAccepted buf p.answer := by
      rw [hgiven, ← List.append_assoc, h.given hs]
    rw [AsyncWriteAdapter.given, ← List.append_assoc, ← slicesOf_append] at hall
    exact hall

/-- **A call keeps a session sound.** -/
theorem Sound.step (h : s.Sound) (hstep : Step s call t) : t.Sound := by
  cases call with
  | write rounds buf =>
    obtain ⟨p, hcall, rfl⟩ := Option.map_eq_some_iff.mp hstep
    exact h.afterWrite hcall
  | flush round =>
    obtain rfl := Option.some.inj hstep
    exact h.afterFlush round
  | shutdown round =>
    obtain rfl := Option.some.inj hstep
    exact h.afterFlush round

/-- **A sound session whose writes were exact is faithful.** -/
theorem Sound.faithful (h : s.Sound) (hexact : ∀ w ∈ s.writes, w.Exact) : s.Faithful := by
  intro hok hflushed
  have hgiven := h.given hok
  rw [AsyncWriteAdapter.owed, h.flushed hok hflushed, Option.isSome_none, if_neg (by simp),
    List.append_nil] at hgiven
  rw [taken, ← hgiven, slicesOf]
  refine List.flatMap_congr fun w hw => ?_
  obtain ⟨content, hw'⟩ := h.writes w hw
  exact List.prefix_of_prefix_length_le hw'.bytes hw'.slice (hexact w hw).le
    |>.eq_of_length (hexact w hw)

/-- **The stream of a write adapter is faithful after every call** when the kernel takes of each
write that completes exactly as many bytes as were copied for it. -/
theorem faithful_of_exact {heap : Heap} {addr : ℕ} {fd : ℤ}
    {ms : List (Transition.Move (WriteSession AsyncWriteAdapter) WriteCall)}
    {s : WriteSession AsyncWriteAdapter}
    (hrun : Transition.Run Step (new heap addr fd) ms s) (hexact : ∀ w ∈ s.writes, w.Exact) :
    Transition.Always Faithful (new heap addr fd) ms := by
  refine hrun.always_of_end Sound (fun s => ∀ w ∈ s.writes, w.Exact) (C := fun _ _ => True)
    (fun s call t hstep _ h => h.step hstep) (fun s call t hstep ht w hw => ?_)
    (fun s h hexact => h.faithful hexact) (fun _ _ => trivial) (sound_new heap addr fd) hexact
  obtain ⟨more, hmore⟩ := writes_step hstep
  exact ht w (hmore ▸ List.mem_append_left _ hw)

/-- A session with nothing else around it. -/
def alone : WriteSession AsyncWriteAdapter := new .empty 4096 3

/-- **Two bytes are written, and flushed once the kernel completed the write**, with a count. -/
def writeThenFlush (count : ℤ) : List WriteCall :=
  let submitted := (Ring.new.writeOwned alone.heap 3 ⟨0, adapterBufferSize, 0⟩ (.ok ())).2
  let completed := (submitted.backend.complete 0 (.ok count)).elim submitted fun backend =>
    { submitted with backend }
  [.write [⟨.new, 7, none, [], .new, .ok ()⟩, ⟨submitted, 7, none, [], submitted, .ok ()⟩] [1, 2],
    .flush ⟨completed, 7, none, [], completed, .ok ()⟩]

/-- The stream is faithful when the kernel takes two. -/
theorem faithful_writeThenFlush : ∃ ms s, Transition.Run Step alone ms s ∧
    ms.map Transition.Move.label = writeThenFlush 2 ∧ s.flushed = true ∧ s.taken = [1, 2] ∧
    Transition.Always Faithful alone ms := by
  have hend : (Transition.trace step alone (writeThenFlush 2)).map (fun x =>
      (x.2.flushed, x.2.taken, x.2.writes.map fun w => (w.bytes.length, w.slice.length))) =
        some (true, [1, 2], [(2, 2)]) := by
    decide +kernel
  obtain ⟨⟨ms, s⟩, htrace, hend⟩ := Option.map_eq_some_iff.mp hend
  obtain ⟨hflushed, hend⟩ := Prod.mk.inj hend
  obtain ⟨htaken, hwrites⟩ := Prod.mk.inj hend
  obtain ⟨hrun, hcalls⟩ := Transition.run_of_trace htrace
  refine ⟨ms, s, hrun, hcalls, hflushed, htaken, faithful_of_exact hrun fun w hw => ?_⟩
  have hpair : (w.bytes.length, w.slice.length) ∈ [(2, 2)] :=
    hwrites ▸ List.mem_map_of_mem hw
  obtain ⟨hbytes, hslice⟩ := Prod.mk.inj (List.mem_singleton.mp hpair)
  exact hbytes.trans hslice.symm

/-- **The kernel takes the whole buffer**, and with it what was never written. -/
theorem not_faithful_writeThenFlush : ∃ ms s, Transition.Run Step alone ms s ∧
    ms.map Transition.Move.label = writeThenFlush 8192 ∧ s.failed = false ∧ s.flushed = true ∧
    s.accepted = [1, 2] ∧ s.taken.take 4 = [1, 2, 0, 0] ∧ ¬s.Faithful := by
  have hend : (Transition.trace step alone (writeThenFlush 8192)).map (fun x =>
      (x.2.failed, x.2.flushed, x.2.accepted, x.2.taken.take 4)) =
        some (false, true, [1, 2], [1, 2, 0, 0]) := by
    decide +kernel
  obtain ⟨⟨ms, s⟩, htrace, hend⟩ := Option.map_eq_some_iff.mp hend
  obtain ⟨hok, hend⟩ := Prod.mk.inj hend
  obtain ⟨hflushed, hend⟩ := Prod.mk.inj hend
  obtain ⟨haccepted, htaken⟩ := Prod.mk.inj hend
  obtain ⟨hrun, hcalls⟩ := Transition.run_of_trace htrace
  refine ⟨ms, s, hrun, hcalls, hok, hflushed, haccepted, htaken, fun hs => ?_⟩
  rw [hs hok hflushed, haccepted] at htaken
  exact absurd htaken (by decide)

end WriteSession

end SaferRing
