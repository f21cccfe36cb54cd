import SaferRing.Compat
import SaferRing.Library.Run

/-!
# The stream of a read adapter

What an adapter has delivered, followed by what it has not, should be what its reads brought
(`SaferRing.ReadSession.Faithful`). A call does one of three things
(`SaferRing.AsyncReadAdapter.pollRead_cases`): it delivers from the cache; it ends without a
read; or a read ends in it. In the last case what does not fit goes behind the cache, which is
then unread from its start. So bytes are delivered twice when some of the cache had been
delivered already, which takes a caller that has no room:
`SaferRing.ReadSession.faithful_iff`.
-/

namespace SaferRing

namespace AsyncReadAdapter

/-! ### The three things a call does -/

/-- **What holds of a read adapter between calls**: a cache with nothing unread is empty; the
buffer is in its hands or in those of the read in flight, and userspace owns it; and that read
asks for as much as the buffer holds, at the offset `0`. -/
structure Sound (adapter : AsyncReadAdapter) (heap : Heap) : Prop where
  cache : adapter.cachedPos < adapter.cachedData.length ∨
    adapter.cachedData = [] ∧ adapter.cachedPos = 0
  idle : ∀ buffer, adapter.internalBuffer = some buffer → buffer.Kept heap
  busy : ∀ future, adapter.readFuture = some future → ∃ buffer, future.Holds buffer ∧
    buffer.Kept heap ∧ ∃ ptr id, adapter.request =
      some ⟨.read, adapter.fd, 0, ptr, adapterBufferSize, id, .owned buffer.inner⟩

variable {self : AsyncReadAdapter} {heap : Heap} {round : Round} {rounds : List Round}
variable {remaining : ℕ} {p : PolledRead AsyncReadAdapter}

theorem sound_new (heap : Heap) (addr : ℕ) (fd : ℤ) :
    (new heap addr fd).1.Sound (new heap addr fd).2 := by
  refine ⟨Or.inr ⟨rfl, rfl⟩, fun buffer hb => ?_, fun future hf => absurd hf (by simp [new])⟩
  obtain rfl := Option.some.inj hb
  exact OwnedBuffer.kept_new heap addr

/-- **What the ring answers to the future a call polls**, when it delivers nothing from the
cache. -/
def ringAnswer : List Round → AsyncReadAdapter → Heap → Option (Poll SafeOutput)
  | [], _, _ => none
  | round :: rounds, self, heap =>
    match self.readFuture with
    | some future => some (future.poll round.polled round.waker round.fail).1
    | none =>
      match self.internalBuffer with
      | some buffer => ringAnswer rounds (self.start heap round buffer) heap
      | none => none

/-- **A call does one of three things.** -/
inductive ComesTo (self : AsyncReadAdapter) (answer : Option (Poll SafeOutput)) (remaining : ℕ)
    (p : PolledRead AsyncReadAdapter) : Prop
  /-- It delivers from the cache. -/
  | served (hpos : self.cachedPos < self.cachedData.length) (hroom : 0 < remaining)
      (hanswer : p.answer = .ready (.ok ())) (hread : p.read = none)
      (hput : p.put = self.unread.take remaining)
      (hcache : p.reader.unread = self.unread.drop remaining)
  /-- It ends without a read. -/
  | idle (hroom : self.cachedPos < self.cachedData.length → remaining = 0)
      (hnone : ∀ n b, answer ≠ some (.ready (.ok (n, b))))
      (hanswer : p.answer ≠ .ready (.ok ())) (hread : p.read = none) (hput : p.put = [])
      (hcache : p.reader.unread = self.unread)
  /-- A read ends in it. -/
  | received (hroom : self.cachedPos < self.cachedData.length → remaining = 0)
      (n : ℕ) (b : OwnedBuffer) (read : CompletedRead)
      (hfound : answer = some (.ready (.ok (n, b)))) (hlen : read.bytes.length = n)
      (hrequest : ∃ ptr id,
        read.request = some ⟨.read, self.fd, 0, ptr, adapterBufferSize, id, .owned b.inner⟩)
      (hanswer : p.answer = .ready (.ok ())) (hread : p.read = some read)
      (hput : p.put = read.bytes.take remaining)
      (hcache : p.reader.unread =
        if remaining < n then self.cachedData ++ read.bytes.drop remaining else self.unread)

/-- **A read that completed is put behind what is unread**, unless it brought bytes in a call
without room: what was delivered of the cache is then unread again. -/
theorem take_append_unread_iff
    (hcache : self.cachedPos < self.cachedData.length ∨ self.cachedData = [] ∧ self.cachedPos = 0)
    (hroom : self.cachedPos < self.cachedData.length → remaining = 0) (bytes : List UInt8) :
    bytes.take remaining ++ (if remaining < bytes.length then
        self.cachedData ++ bytes.drop remaining else self.unread) = self.unread ++ bytes ↔
      (0 < self.cachedPos → self.cachedPos < self.cachedData.length → bytes.length = 0) := by
  rcases hcache with hpos | ⟨hempty, hzero⟩
  swap
  -- nothing is cached: what fits is delivered, and the rest is unread
  · refine iff_of_true ?_ fun hdelivered => absurd hdelivered (by omega)
    rw [unread, hempty, List.drop_nil, List.nil_append, List.nil_append]
    by_cases hover : remaining < bytes.length
    · rw [if_pos hover, List.take_append_drop]
    · rw [if_neg hover, List.append_nil, List.take_of_length_le (Nat.le_of_not_lt hover)]
  rw [hroom hpos, List.take_zero, List.drop_zero, List.nil_append]
  rcases Nat.eq_zero_or_pos bytes.length with hn | hn
  · refine iff_of_true ?_ fun _ _ => hn
    rw [hn, if_neg (Nat.lt_irrefl 0), List.length_eq_zero_iff.mp hn, List.append_nil]
  · rw [if_pos hn, List.append_cancel_right_eq]
    constructor
    · intro heq hdelivered
      have hlength := congrArg List.length heq
      rw [unread, List.length_drop] at hlength
      omega
    · intro hguard
      have hzero : self.cachedPos = 0 := by
        by_contra hne
        exact absurd (hguard (Nat.pos_of_ne_zero hne) hpos) (by omega)
      rw [unread, hzero, List.drop_zero]

/-- **Taking what a read brought.** -/
theorem receive_comesTo {buffer : OwnedBuffer} (hkept : buffer.Kept heap)
    (hcache : self.cachedPos < self.cachedData.length ∨ self.cachedData = [] ∧ self.cachedPos = 0)
    (hrequest : ∃ ptr id, self.request =
      some ⟨.read, self.fd, 0, ptr, adapterBufferSize, id, .owned buffer.inner⟩)
    (hroom : self.cachedPos < self.cachedData.length → remaining = 0) {n : ℕ}
    (h : self.receive heap remaining n buffer = some p) :
    self.ComesTo (some (.ready (.ok (n, buffer)))) remaining p ∧ p.reader.Sound p.heap := by
  obtain ⟨buf, hcell, hlen⟩ := hkept
  rw [receive, OwnedBuffer.bytes_of_user hcell] at h
  by_cases hn : n > 0
  · simp only [if_pos hn, OwnedBuffer.tryAccess_of_user hcell] at h
    by_cases hbig : n > buf.bytes.length
    · rw [if_pos hbig] at h
      exact absurd h (by simp)
    rw [if_neg hbig] at h
    have hcount : (buf.bytes.take n).length = n := by
      rw [List.length_take]
      omega
    -- the guard puts the bytes back where they were
    have hback : buffer.Kept
        (BufferAccessGuard.drop ⟨buf, buffer.inner⟩ (heap.set buffer.inner .returning)) :=
      ⟨buf, Heap.cell_set_self .., hlen⟩
    have hput : (buf.bytes.take n).take (min (buf.bytes.take n).length remaining) =
        (buf.bytes.take n).take remaining := by
      rw [List.take_eq_take_iff]
      omega
    by_cases hover : remaining < n
    · have hfit : min (buf.bytes.take n).length remaining < (buf.bytes.take n).length := by omega
      simp only [if_pos hfit] at h
      obtain rfl := Option.some.inj h
      refine ⟨.received hroom n buffer ⟨self.request, buf.bytes.take n⟩ rfl hcount hrequest rfl rfl
        hput ?_, Or.inl ?_, fun b hb => ?_, fun future hf => absurd hf (by simp)⟩
      · rw [if_pos hover, unread, List.drop_zero, hcount, min_eq_right hover.le]
      · simp only [List.length_append, List.length_drop]
        omega
      · exact Option.some.inj hb ▸ hback
    · have hfit : ¬min (buf.bytes.take n).length remaining < (buf.bytes.take n).length := by omega
      simp only [if_neg hfit] at h
      obtain rfl := Option.some.inj h
      refine ⟨.received hroom n buffer ⟨self.request, buf.bytes.take n⟩ rfl hcount hrequest rfl rfl
        hput ?_, hcache, fun b hb => ?_, fun future hf => absurd hf (by simp)⟩
      · rw [if_neg hover]
      · exact Option.some.inj hb ▸ hback
  · simp only [if_neg hn] at h
    obtain rfl := Option.some.inj h
    obtain rfl := Nat.eq_zero_of_not_pos hn
    refine ⟨.received hroom 0 buffer ⟨self.request, buf.bytes.take 0⟩ rfl rfl hrequest rfl rfl ?_
      ?_, hcache, fun b hb => ?_, fun future hf => absurd hf (by simp)⟩
    · rw [List.take_zero, List.take_nil]
    · rw [if_neg (Nat.not_lt_zero _)]
    · obtain rfl := Option.some.inj hb
      exact ⟨buf, hcell, hlen⟩

/-- What is unread once bytes were delivered from the cache. -/
theorem unread_serve (hpos : self.cachedPos < self.cachedData.length) (remaining : ℕ) :
    (self.serve (min (self.cachedData.length - self.cachedPos) remaining)).unread =
      self.unread.drop remaining := by
  by_cases hall : self.cachedPos + min (self.cachedData.length - self.cachedPos) remaining ≥
      self.cachedData.length
  · simp only [serve, if_pos hall, unread, List.drop_nil, List.drop_drop]
    rw [eq_comm, List.drop_eq_nil_iff]
    omega
  · simp only [serve, if_neg hall, unread, List.drop_drop]
    congr 1
    omega

theorem Sound.serve (h : self.Sound heap) (remaining : ℕ) :
    (self.serve (min (self.cachedData.length - self.cachedPos) remaining)).Sound heap := by
  by_cases hall : self.cachedPos + min (self.cachedData.length - self.cachedPos) remaining ≥
      self.cachedData.length
  · simp only [AsyncReadAdapter.serve, if_pos hall]
    exact ⟨Or.inr ⟨rfl, rfl⟩, h.idle, h.busy⟩
  · simp only [AsyncReadAdapter.serve, if_neg hall]
    exact ⟨Or.inl (Nat.lt_of_not_ge hall), h.idle, h.busy⟩

/-- A read that is started is in flight with the buffer. -/
theorem Sound.start (h : self.Sound heap) {buffer : OwnedBuffer}
    (hb : self.internalBuffer = some buffer) : (self.start heap round buffer).Sound heap := by
  have hkept := h.idle buffer hb
  refine ⟨h.cache, fun b hb => absurd hb (by simp [AsyncReadAdapter.start]), fun future hf => ?_⟩
  obtain rfl := Option.some.inj hf
  obtain ⟨buf, hcell, hlen⟩ := hkept
  refine ⟨buffer, (OwnedCall.readOwned self.fd).holds_submit _ _ _ _, ⟨buf, hcell, hlen⟩,
    some buf.addr, round.submitted.nextSubmissionId, ?_⟩
  simp only [AsyncReadAdapter.start, OwnedCall.request, OwnedBuffer.asPtrAndLen_of_user hcell, hlen]

/-- **A call does one of three things**, and leaves the adapter sound. -/
theorem pollRead_cases (h : self.Sound heap)
    (hcall : pollRead rounds self heap remaining = some p) :
    self.ComesTo (ringAnswer rounds self heap) remaining p ∧ p.reader.Sound p.heap := by
  -- induction on the rounds: one more is needed after a read was started
  induction rounds generalizing self with
  | nil => exact absurd hcall (by simp [pollRead])
  | cons round rounds ih =>
    rw [pollRead] at hcall
    by_cases hserve : self.cachedPos < self.cachedData.length ∧
        min (self.cachedData.length - self.cachedPos) remaining > 0
    · rw [if_pos hserve] at hcall
      obtain rfl := Option.some.inj hcall
      have hrem : 0 < remaining := by omega
      refine ⟨.served hserve.1 hrem rfl rfl ?_ (unread_serve hserve.1 remaining),
        h.serve remaining⟩
      rw [List.take_eq_take_iff, List.length_drop]
      omega
    rw [if_neg hserve] at hcall
    have hroom : self.cachedPos < self.cachedData.length → remaining = 0 := by
      intro hpos
      by_contra hne
      exact hserve ⟨hpos, by omega⟩
    rcases hf : self.readFuture with _ | future
    -- no read is in flight: one is started
    · rcases hb : self.internalBuffer with _ | buffer
      · simp only [hf, hb, Option.some.injEq] at hcall
        obtain rfl := hcall
        exact ⟨.idle hroom (by simp [ringAnswer, hf, hb]) (by simp) rfl rfl rfl, h⟩
      · simp only [hf, hb] at hcall
        obtain ⟨hcomes, hsound⟩ := ih (h.start hb) hcall
        have hanswer : ringAnswer (round :: rounds) self heap =
            ringAnswer rounds (self.start heap round buffer) heap := by
          simp only [ringAnswer, hf, hb]
        refine ⟨hanswer ▸ ?_, hsound⟩
        -- the cache is as it was
        cases hcomes with
        | served hpos hrem ha hr hp hc => exact .served hpos hrem ha hr hp hc
        | idle hrem hn ha hr hp hc => exact .idle hrem hn ha hr hp hc
        | received hrem n b read hfound hl hreq ha hr hp hc =>
          exact .received hrem n b read hfound hl hreq ha hr hp hc
    · obtain ⟨buffer, hholds, hkept, hrequest⟩ := h.busy future hf
      have hanswer : ringAnswer (round :: rounds) self heap =
          some (future.poll round.polled round.waker round.fail).1 := by
        simp only [ringAnswer, hf]
      rw [hanswer]
      simp only [hf] at hcall
      rcases SafeOperationFuture.poll_holds hholds round.polled round.waker round.fail with
        ⟨_, hpoll⟩ | ⟨n, _, _, hpoll⟩ | ⟨e, _, _, hpoll⟩
      · simp only [hpoll] at hcall ⊢
        obtain rfl := Option.some.inj hcall
        refine ⟨.idle hroom (by simp) (by simp) rfl rfl rfl, h.cache, h.idle, fun f hf' => ?_⟩
        obtain rfl := Option.some.inj hf'
        exact ⟨buffer, hholds, hkept, hrequest⟩
      · simp only [hpoll] at hcall ⊢
        exact receive_comesTo (hkept.fill round.data) h.cache hrequest hroom hcall
      · simp only [hpoll] at hcall ⊢
        obtain rfl := Option.some.inj hcall
        exact ⟨.idle hroom (by simp) (by simp) rfl rfl rfl, h.cache, h.idle,
          fun f hf' => absurd hf' (by simp)⟩

end AsyncReadAdapter

/-! ### Sessions -/

/-- **A caller with its reader.** -/
structure ReadSession (A : Type) where
  /-- The reader. -/
  reader : A
  /-- The cells of the buffers. -/
  heap : Heap
  /-- What was delivered so far. -/
  delivered : List UInt8
  /-- Whether the last call told the end of the stream: it put nothing where there was room. -/
  ended : Bool
  /-- History: the reads that completed. -/
  reads : List CompletedRead

/-- A call of `poll_read`. -/
structure ReadCall where
  /-- How the ring is found. -/
  rounds : List Round
  /-- How much room the caller has. -/
  remaining : ℕ

namespace ReadSession

section Calls

variable {A : Type}

/-- The session once a call returned. -/
def after (self : ReadSession A) (call : ReadCall) (p : PolledRead A) : ReadSession A where
  reader := p.reader
  heap := p.heap
  delivered := self.delivered ++ p.put
  ended := decide (p.answer = .ready (.ok ()) ∧ p.put = [] ∧ 0 < call.remaining)
  reads := self.reads ++ p.read.toList

variable [AsyncRead A]

/-- **What a call does**, if it returns. -/
def step (self : ReadSession A) (call : ReadCall) : Option (ReadSession A) :=
  (AsyncRead.pollRead call.rounds self.reader self.heap call.remaining).map (self.after call)

/-- The step relation. -/
abbrev Step (s : ReadSession A) (call : ReadCall) (t : ReadSession A) : Prop := s.step call = some t

/-- The bytes the reads brought. -/
def received (self : ReadSession A) : List UInt8 := self.reads.flatMap CompletedRead.bytes

end Calls

/-- A session with a new adapter. -/
def new (heap : Heap) (addr : ℕ) (fd : ℤ) : ReadSession AsyncReadAdapter :=
  let (reader, heap) := AsyncReadAdapter.new heap addr fd
  ⟨reader, heap, [], false, []⟩

/-- **The stream is faithful**: what was delivered and what is unread is what the reads
brought. -/
def Faithful (self : ReadSession AsyncReadAdapter) : Prop :=
  self.delivered ++ self.reader.unread = self.received

/-- **No read with bytes ends in a call without room** while part of the cache was delivered and
part not. -/
def ReadsWithRoom (s : ReadSession AsyncReadAdapter) (call : ReadCall) : Prop :=
  call.remaining = 0 → 0 < s.reader.cachedPos →
    s.reader.cachedPos < s.reader.cachedData.length →
    ∀ n b, AsyncReadAdapter.ringAnswer call.rounds s.reader s.heap = some (.ready (.ok (n, b))) →
      n = 0

variable {s t : ReadSession AsyncReadAdapter} {call : ReadCall}

/-- **A call keeps the stream faithful exactly when it reads with room**, and the adapter
sound. -/
theorem faithful_step (hstep : Step s call t) (hsound : s.reader.Sound s.heap)
    (hs : s.Faithful) : t.reader.Sound t.heap ∧ (t.Faithful ↔ ReadsWithRoom s call) := by
  obtain ⟨p, hcall, rfl⟩ := Option.map_eq_some_iff.mp hstep
  obtain ⟨hcomes, hsound'⟩ := AsyncReadAdapter.pollRead_cases hsound hcall
  refine ⟨hsound', ?_⟩
  have hlaw : (s.after call p).Faithful ↔
      s.delivered ++ p.put ++ p.reader.unread =
        s.delivered ++ s.reader.unread ++ (p.read.toList.flatMap CompletedRead.bytes) := by
    rw [Faithful, received, after, List.flatMap_append, hs]
    rfl
  rw [hlaw]
  cases hcomes with
  | served hpos hroom hanswer hread hput hcache =>
    refine iff_of_true ?_ fun hzero => absurd hzero (by omega)
    rw [hread, hput, hcache, List.append_assoc, List.take_append_drop]
    simp
  | idle hroom hnone hanswer hread hput hcache =>
    refine iff_of_true ?_ fun _ _ _ n b hfound => absurd hfound (hnone n b)
    rw [hread, hput, hcache]
    simp
  | received hroom n b read hfound hlen hrequest hanswer hread hput hcache =>
    have hbytes : p.read.toList.flatMap CompletedRead.bytes = read.bytes := by
      rw [hread]
      exact List.flatMap_singleton _ _
    rw [hbytes, hput, hcache, ← hlen, List.append_assoc, List.append_assoc,
      List.append_cancel_left_eq, AsyncReadAdapter.take_append_unread_iff hsound.cache hroom]
    constructor
    · intro hnone _ hdelivered hpos n' b' hfound'
      obtain ⟨rfl, -⟩ : n = n' ∧ b = b' := by simpa [hfound] using hfound'
      exact hlen.symm.trans (hnone hdelivered hpos)
    · intro hguard hdelivered hpos
      exact hlen.trans (hguard (hroom hpos) hdelivered hpos n b hfound)

theorem sound_new (heap : Heap) (addr : ℕ) (fd : ℤ) :
    (new heap addr fd).reader.Sound (new heap addr fd).heap :=
  AsyncReadAdapter.sound_new heap addr fd

/-- **The stream of a read adapter is faithful after every call exactly when no read with bytes
ends in a call without room while the cache is partly delivered.** -/
theorem faithful_iff {heap : Heap} {addr : ℕ} {fd : ℤ}
    {ms : List (Transition.Move (ReadSession AsyncReadAdapter) ReadCall)}
    {s : ReadSession AsyncReadAdapter}
    (hrun : Transition.Run Step (new heap addr fd) ms s) :
    Transition.Always Faithful (new heap addr fd) ms ↔ Transition.Guarded ReadsWithRoom ms := by
  let Inv : ReadSession AsyncReadAdapter → Prop := fun s => s.reader.Sound s.heap
  have hexact : ∀ s call t, Step s call t → Inv s → s.Faithful →
      Inv t ∧ (t.Faithful ↔ ReadsWithRoom s call) :=
    fun s call t hstep hsound hs => faithful_step hstep hsound hs
  exact hrun.always_iff_step hexact (sound_new heap addr fd) rfl

/-- A session with nothing else around it. -/
def alone : ReadSession AsyncReadAdapter := new .empty 4096 3

/-- A read that is started on a ring and found completed at once, with the ring it leaves. -/
def readAtOnce (ring : Ring) (data : List UInt8) : List Round × Ring :=
  let (future, submitted) := ring.readOwned alone.heap 3 ⟨0, adapterBufferSize, 0⟩ (.ok ())
  let polled := (submitted.backend.complete 0 (.ok data.length)).elim submitted fun backend =>
    { submitted with backend }
  ([⟨ring, 7, none, [], ring, .ok ()⟩, ⟨polled, 7, none, data, polled, .ok ()⟩],
    (future.poll polled 7 none).2.2)

/-- Three bytes are read by a caller with room for one; one more is delivered; and a caller
without room reads another. -/
def emptyReadBuf : List ReadCall :=
  let (first, ring) := readAtOnce .new [1, 2, 3]
  let (second, _) := readAtOnce ring [4]
  [⟨first, 1⟩, ⟨first, 1⟩, ⟨second, 0⟩]

/-- **A byte is delivered, and then unread again.** -/
theorem not_faithful_emptyReadBuf : ∃ ms s, Transition.Run Step alone ms s ∧
    ms.map Transition.Move.label = emptyReadBuf ∧
    s.delivered = [1, 2] ∧ s.reader.unread = [2, 3, 4] ∧ s.received = [1, 2, 3, 4] ∧
    ¬s.Faithful := by
  have hend : (Transition.trace step alone emptyReadBuf).map (fun x =>
      (x.2.delivered, x.2.reader.unread, x.2.received)) =
        some ([1, 2], [2, 3, 4], [1, 2, 3, 4]) := by
    decide +kernel
  obtain ⟨⟨ms, s⟩, htrace, hend⟩ := Option.map_eq_some_iff.mp hend
  obtain ⟨hdelivered, hend⟩ := Prod.mk.inj hend
  obtain ⟨hunread, hreceived⟩ := Prod.mk.inj hend
  obtain ⟨hrun, hcalls⟩ := Transition.run_of_trace htrace
  refine ⟨ms, s, hrun, hcalls, hdelivered, hunread, hreceived, fun hs => ?_⟩
  rw [Faithful, hdelivered, hunread, hreceived] at hs
  exact absurd hs (by decide)

/-- The same reads, by a caller that has room for one byte at a time. -/
def byteByByte : List ReadCall :=
  let (first, ring) := readAtOnce .new [1, 2, 3]
  let (second, _) := readAtOnce ring [4]
  [⟨first, 1⟩, ⟨first, 1⟩, ⟨first, 1⟩, ⟨second, 1⟩]

/-- **A caller with room gets the stream as it is.** -/
theorem faithful_byteByByte : ∃ ms s, Transition.Run Step alone ms s ∧
    ms.map Transition.Move.label = byteByByte ∧ s.delivered = [1, 2, 3, 4] ∧
    Transition.Always Faithful alone ms := by
  have hend : (Transition.trace step alone byteByByte).map (fun x => x.2.delivered) =
      some [1, 2, 3, 4] := by
    decide +kernel
  obtain ⟨⟨ms, s⟩, htrace, hdelivered⟩ := Option.map_eq_some_iff.mp hend
  obtain ⟨hrun, hcalls⟩ := Transition.run_of_trace htrace
  refine ⟨ms, s, hrun, hcalls, hdelivered, (faithful_iff hrun).mpr fun m hm hzero => ?_⟩
  have hroom : ∀ call ∈ byteByByte, call.remaining ≠ 0 := by
    simp [byteByByte]
  exact absurd hzero (hroom m.label (hcalls ▸ List.mem_map_of_mem hm))

end ReadSession

end SaferRing
