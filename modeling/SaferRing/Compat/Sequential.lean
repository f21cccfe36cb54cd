import SaferRing.Backend.File
import SaferRing.Compat.Read
import SaferRing.Compat.Write

/-!
# Reading and writing a file through the adapters

On the io_uring backend an operation with the offset `0` is at the start of the file, and every
operation of an adapter has the offset `0` (`SaferRing.AsyncReadAdapter.Sound.busy`,
`SaferRing.CompletedWrite.OfBuffer.request`). So each read brings the start of the file again
(`SaferRing.servedFrom_iff`), and its end is never told, unless there is nothing in it
(`SaferRing.ReadSession.Opened.readsThrough_iff`); and each write goes over the start of the file
again (`SaferRing.lands_iff`), so that a file is written in order as long as one write does it
(`SaferRing.readsThrough_and_inOrder`).

This is so of an adapter and of everything that polls the adapter it holds
(`SaferRing.WrapsRead`, `SaferRing.WrapsWrite`), as a `SaferRing.File` does.
-/

namespace SaferRing

/-! ### What holds an adapter -/

section Wraps

variable {A : Type}

/-- **A reader polls the read adapter it holds.** -/
structure WrapsRead [AsyncRead A] (wrap : AsyncReadAdapter → A) : Prop where
  injective : Function.Injective wrap
  pollRead : ∀ rounds adapter heap remaining,
    AsyncRead.pollRead rounds (wrap adapter) heap remaining =
      (adapter.pollRead rounds heap remaining).map (.map wrap)

/-- **A writer polls the write adapter it holds.** -/
structure WrapsWrite [AsyncWrite A] (wrap : AsyncWriteAdapter → A) : Prop where
  pollWrite : ∀ rounds adapter heap buf, AsyncWrite.pollWrite rounds (wrap adapter) heap buf =
    (adapter.pollWrite rounds heap buf).map (.map wrap)
  pollFlush : ∀ adapter heap round, AsyncWrite.pollFlush (wrap adapter) heap round =
    (adapter.pollFlush heap round).map wrap
  pollShutdown : ∀ adapter heap round, AsyncWrite.pollShutdown (wrap adapter) heap round =
    (adapter.pollShutdown heap round).map wrap

theorem wrapsRead_id : WrapsRead fun adapter : AsyncReadAdapter => adapter :=
  ⟨fun _ _ h => h, fun _ _ _ _ => Option.map_id'.symm⟩

theorem wrapsRead_file (fd : ℤ) (writeAdapter : Option AsyncWriteAdapter) :
    WrapsRead fun adapter => (⟨fd, some adapter, writeAdapter⟩ : File) :=
  ⟨fun _ _ h => Option.some.inj (File.mk.inj h).2.1, fun _ _ _ _ => rfl⟩

theorem wrapsWrite_id : WrapsWrite fun adapter : AsyncWriteAdapter => adapter := by
  refine ⟨fun rounds adapter heap buf => ?_, fun _ _ _ => rfl, fun _ _ _ => rfl⟩
  exact Option.map_id'.symm

theorem wrapsWrite_file (fd : ℤ) (readAdapter : Option AsyncReadAdapter) :
    WrapsWrite fun adapter => (⟨fd, readAdapter, some adapter⟩ : File) :=
  ⟨fun _ _ _ _ => rfl, fun _ _ _ => rfl, fun _ _ _ => rfl⟩

end Wraps

namespace ReadSession

variable {A B : Type}

/-- The same session, of a reader that holds the one it is of. -/
def map (f : A → B) (self : ReadSession A) : ReadSession B :=
  ⟨f self.reader, self.heap, self.delivered, self.ended, self.reads⟩

/-- The same session is of one adapter only. -/
theorem map_injective {f : A → B} (h : Function.Injective f) : Function.Injective (map f) := by
  intro s t heq
  obtain ⟨hreader, hheap, hdelivered, hended, hreads⟩ := ReadSession.mk.inj heq
  cases s
  cases t
  exact ReadSession.mk.injEq .. ▸ ⟨h hreader, hheap, hdelivered, hended, hreads⟩

/-- **A session that is opened**, of a reader that holds an adapter: nothing was read, and the
adapter has nothing to deliver. -/
def Opened [AsyncRead A] (wrap : AsyncReadAdapter → A) (s : ReadSession A) : Prop :=
  WrapsRead wrap ∧ ∃ adapter heap, adapter.Sound heap ∧ adapter.unread = [] ∧
    s = map wrap ⟨adapter, heap, [], false, []⟩

/-- A session with a new adapter is opened. -/
theorem opened_new (heap : Heap) (addr : ℕ) (fd : ℤ) :
    (new heap addr fd).Opened fun adapter => adapter :=
  ⟨wrapsRead_id, _, _, AsyncReadAdapter.sound_new heap addr fd, List.drop_nil, rfl⟩

/-- A session with a new file. -/
def ofFile (heap : Heap) (readAddr writeAddr : ℕ) (fd : ℤ) : ReadSession File :=
  let (reader, heap) := File.new heap readAddr writeAddr fd
  ⟨reader, heap, [], false, []⟩

/-- A session with a new file is opened, of the file with its read adapter. -/
theorem opened_ofFile (heap : Heap) (readAddr writeAddr : ℕ) (fd : ℤ) :
    (ofFile heap readAddr writeAddr fd).Opened fun adapter =>
      { (ofFile heap readAddr writeAddr fd).reader with readAdapter := some adapter } := by
  refine ⟨wrapsRead_file fd _, (AsyncReadAdapter.new heap readAddr fd).1, _, ?_, List.drop_nil,
    rfl⟩
  have hsound := AsyncReadAdapter.sound_new heap readAddr fd
  refine ⟨hsound.cache, fun buffer hb => ?_,
    fun future hf => absurd hf (by simp [AsyncReadAdapter.new])⟩
  -- the buffer to write from is another one
  obtain ⟨buf, hcell, hlen⟩ := hsound.idle buffer hb
  obtain rfl := Option.some.inj hb
  exact ⟨buf, (Heap.cell_alloc_of_ne _ _ (Nat.ne_of_lt (Nat.lt_succ_self _))).trans hcell, hlen⟩

variable [AsyncRead A]

/-- **A call on a reader is one on the adapter it holds.** -/
theorem step_map {wrap : AsyncReadAdapter → A} (hwrap : WrapsRead wrap)
    (s : ReadSession AsyncReadAdapter) (call : ReadCall) :
    (s.map wrap).step call = (s.step call).map (map wrap) := by
  rw [step, map, hwrap.pollRead, step, Option.map_map, Option.map_map]
  rfl

/-- What completed stays so. -/
theorem reads_step {s t : ReadSession A} {call : ReadCall} (hstep : Step s call t) :
    ∃ more, t.reads = s.reads ++ more := by
  obtain ⟨p, -, rfl⟩ := Option.map_eq_some_iff.mp hstep
  exact ⟨_, rfl⟩

end ReadSession

namespace WriteSession

variable {A B : Type}

/-- The same session, of a writer that holds the one it is of. -/
def map (f : A → B) (self : WriteSession A) : WriteSession B :=
  ⟨f self.writer, self.heap, self.accepted, self.flushed, self.failed, self.writes⟩

/-- **A session that is opened**: nothing was written, and no write is in flight. -/
def Opened [AsyncWrite A] (s : WriteSession A) : Prop :=
  ∃ wrap adapter heap, WrapsWrite wrap ∧ adapter.Sound heap ∧ adapter.writeFuture = none ∧
    s = map wrap ⟨adapter, heap, [], false, false, []⟩

theorem opened_new (heap : Heap) (addr : ℕ) (fd : ℤ) : (new heap addr fd).Opened :=
  ⟨_, _, _, wrapsWrite_id, AsyncWriteAdapter.sound_new heap addr fd, rfl, rfl⟩

/-- A session with a new file. -/
def ofFile (heap : Heap) (readAddr writeAddr : ℕ) (fd : ℤ) : WriteSession File :=
  let (writer, heap) := File.new heap readAddr writeAddr fd
  ⟨writer, heap, [], false, false, []⟩

theorem opened_ofFile (heap : Heap) (readAddr writeAddr : ℕ) (fd : ℤ) :
    (ofFile heap readAddr writeAddr fd).Opened :=
  ⟨_, _, _, wrapsWrite_file fd _, AsyncWriteAdapter.sound_new _ writeAddr fd, rfl, rfl⟩

variable [AsyncWrite A]

/-- **A call on a writer is one on the adapter it holds.** -/
theorem step_map {wrap : AsyncWriteAdapter → A} (hwrap : WrapsWrite wrap)
    (s : WriteSession AsyncWriteAdapter) (call : WriteCall) :
    (s.map wrap).step call = (s.step call).map (map wrap) := by
  cases call with
  | write rounds buf =>
    rw [step, map, hwrap.pollWrite, step, Option.map_map, Option.map_map]
    rfl
  | flush round =>
    rw [step, map, hwrap.pollFlush]
    rfl
  | shutdown round =>
    rw [step, map, hwrap.pollShutdown]
    rfl

end WriteSession

/-! ### What the kernel does to the file -/

/-- **A read is served from a file**: its request is queued, and the kernel reads. -/
def ServedFrom (file : OpenFile) (read : CompletedRead) : Prop :=
  ∃ K request entry buffer access, read.request = some request ∧ request.toEntry = .ok entry ∧
    viaIoUring K file buffer entry = (.ok read.bytes.length, access) ∧ read.bytes = access.bytes

/-- **A write lands in a file**: its request is queued, and the kernel writes. -/
def Lands (file : OpenFile) (write : CompletedWrite) (after : OpenFile) : Prop :=
  ∃ K request entry buffer access, write.request = some request ∧ request.toEntry = .ok entry ∧
    viaIoUring K file buffer entry = (.ok write.bytes.length, access) ∧
    write.bytes = access.bytes ∧ after = access.file

/-- Writes land in a file, one after the other. -/
inductive AllLand (file : OpenFile) : List CompletedWrite → OpenFile → Prop
  /-- Nothing is written. -/
  | nil : AllLand file [] file
  /-- One more write lands. -/
  | snoc {writes : List CompletedWrite} {mid after : OpenFile} {write : CompletedWrite} :
      AllLand file writes mid → Lands mid write after → AllLand file (writes ++ [write]) after

section Land

variable {file after : OpenFile} {write : CompletedWrite}

theorem allLand_nil : AllLand file [] after ↔ after = file := by
  constructor
  · intro h
    generalize hwrites : [] = writes at h
    cases h with
    | nil => rfl
    | snoc => exact absurd hwrites (by simp)
  · rintro rfl
    exact .nil

/-- One write lands. -/
theorem allLand_singleton : AllLand file [write] after ↔ Lands file write after := by
  constructor
  · intro h
    generalize hwrites : [write] = writes at h
    cases h with
    | nil => exact absurd hwrites (by simp)
    | @snoc writes mid after write' hbefore hlands =>
      have hsplit : [] ++ [write] = writes ++ [write'] := hwrites
      obtain ⟨rfl, hlast⟩ := List.append_inj' hsplit rfl
      obtain rfl := List.singleton_inj.mp hlast
      obtain rfl := allLand_nil.mp hbefore
      exact hlands
  · exact fun h => .snoc .nil h

end Land

section Kernel

variable {file after : OpenFile} {read : CompletedRead} {write : CompletedWrite}
variable {fd : ℤ} {ptr : Ptr} {id : ℕ} {caller : Caller}

/-- An entry has room for the size of the buffer. -/
theorem asU32_adapterBufferSize : asU32 adapterBufferSize = adapterBufferSize := by
  decide

/-- **What a read at the offset `0` brings** is the start of the file. -/
theorem servedFrom_iff
    (h : read.request = some ⟨.read, fd, 0, ptr, adapterBufferSize, id, caller⟩) :
    ServedFrom file read ↔ ∃ K : Kernel, read.bytes =
      file.content.take (K.amount .read file.content 0 adapterBufferSize) := by
  have hread : ∀ (K : Kernel) buffer (entry : Entry),
      Request.toEntry ⟨.read, fd, 0, ptr, adapterBufferSize, id, caller⟩ = .ok entry →
        viaIoUring K file buffer entry =
          (.ok (K.amount .read file.content 0 adapterBufferSize), file.move buffer .read 0
            (K.amount .read file.content 0 adapterBufferSize)) := by
    intro K buffer entry hentry
    rw [viaIoUring_of_lt (Or.inl rfl) hentry (Nat.two_pow_pos 63), asU32_adapterBufferSize]
    rfl
  constructor
  · rintro ⟨K, request, entry, buffer, access, hreq, hentry, hvia, hbytes⟩
    obtain rfl := Option.some.inj (h.symm.trans hreq)
    rw [hread K buffer entry hentry] at hvia
    obtain ⟨-, rfl⟩ := Prod.mk.inj hvia
    exact ⟨K, hbytes⟩
  · rintro ⟨K, hbytes⟩
    obtain ⟨entry, hentry⟩ : ∃ entry, Request.toEntry
        ⟨.read, fd, 0, ptr, adapterBufferSize, id, caller⟩ = .ok entry :=
      exists_toEntry (Or.inl rfl)
    refine ⟨K, _, entry, [], file.move [] .read 0
      (K.amount .read file.content 0 adapterBufferSize), h, hentry,
      (hread K [] entry hentry).trans ?_, hbytes⟩
    have hle : K.amount .read file.content 0 adapterBufferSize ≤ file.content.length :=
      K.read_le file.content 0 adapterBufferSize
    rw [hbytes, List.length_take, min_eq_left hle]

/-- **What a write at the offset `0` does** is to go over the start of the file. -/
theorem lands_iff
    (h : write.request = some ⟨.write, fd, 0, ptr, adapterBufferSize, id, caller⟩) :
    Lands file write after ↔ (∃ K : Kernel, write.bytes.length =
        K.amount .write file.content 0 adapterBufferSize) ∧
      after = { file with content := overwrite file.content 0 write.bytes } := by
  have hwrite : ∀ (K : Kernel) buffer (entry : Entry),
      Request.toEntry ⟨.write, fd, 0, ptr, adapterBufferSize, id, caller⟩ = .ok entry →
        viaIoUring K file buffer entry =
          (.ok (K.amount .write file.content 0 adapterBufferSize), file.move buffer .write 0
            (K.amount .write file.content 0 adapterBufferSize)) := by
    intro K buffer entry hentry
    rw [viaIoUring_of_lt (Or.inr rfl) hentry (Nat.two_pow_pos 63), asU32_adapterBufferSize]
    rfl
  constructor
  · rintro ⟨K, request, entry, buffer, access, hreq, hentry, hvia, hbytes, rfl⟩
    obtain rfl := Option.some.inj (h.symm.trans hreq)
    rw [hwrite K buffer entry hentry] at hvia
    obtain ⟨hcount, rfl⟩ := Prod.mk.inj hvia
    refine ⟨⟨K, ?_⟩, ?_⟩
    · exact_mod_cast (Except.ok.inj hcount).symm
    · rw [hbytes]
      rfl
  · rintro ⟨⟨K, hcount⟩, rfl⟩
    obtain ⟨entry, hentry⟩ : ∃ entry, Request.toEntry
        ⟨.write, fd, 0, ptr, adapterBufferSize, id, caller⟩ = .ok entry :=
      exists_toEntry (Or.inr rfl)
    have hbytes : write.bytes =
        write.bytes.take (K.amount .write file.content 0 adapterBufferSize) := by
      rw [← hcount, List.take_length]
    refine ⟨K, _, entry, write.bytes, file.move write.bytes .write 0
      (K.amount .write file.content 0 adapterBufferSize), h, hentry,
      (hwrite K write.bytes entry hentry).trans ?_, hbytes, ?_⟩
    · rw [hcount]
    · rw [OpenFile.move, ← hbytes]

end Kernel

/-! ### Reading -/

namespace ReadSession

variable {A : Type} {content : List UInt8} {file : OpenFile}

/-- **What was delivered is in order**: it is the start of the file, and all of it when the end is
told. -/
def InOrder (content : List UInt8) (s : ReadSession A) : Prop :=
  s.delivered <+: content ∧ (s.ended = true → s.delivered = content)

/-- **A call is supplied**: there are bytes of before to deliver, or the ring answers the read with
a count. -/
def Supplied (wrap : AsyncReadAdapter → A) (s : ReadSession A) (call : ReadCall) : Prop :=
  ∃ t : ReadSession AsyncReadAdapter, s = t.map wrap ∧
    (t.reader.unread ≠ [] ∨ ∃ n b,
      AsyncReadAdapter.ringAnswer call.rounds t.reader t.heap = some (.ready (.ok (n, b))))

/-- More than `n` calls of a run are supplied. -/
def MoreSupplied (wrap : AsyncReadAdapter → A) (n : ℕ)
    (ms : List (Transition.Move (ReadSession A) ReadCall)) : Prop :=
  ∃ supplied : List (Transition.Move (ReadSession A) ReadCall), supplied.Sublist ms ∧
    n < supplied.length ∧ ∀ m ∈ supplied, Supplied wrap m.before m.label

/-- **A file is read through**: what is delivered is in order all along, and its end is told once
more calls were supplied than it has bytes – each of them delivers a byte at least, or tells the
end. -/
structure ReadsThrough (wrap : AsyncReadAdapter → A) (content : List UInt8) (s₀ : ReadSession A)
    (ms : List (Transition.Move (ReadSession A) ReadCall)) : Prop where
  inOrder : Transition.Always (InOrder content) s₀ ms
  comes : MoreSupplied wrap content.length ms → ∃ m ∈ ms, m.after.ended = true

/-- **What holds of a session of a caller with room**: the adapter is sound and its stream
faithful; every read was at the offset `0`; and the end is told for a read without bytes. -/
structure WithRoom (s : ReadSession AsyncReadAdapter) : Prop where
  sound : s.reader.Sound s.heap
  faithful : s.Faithful
  requests : ∀ read ∈ s.reads, ∃ fd ptr id caller,
    read.request = some ⟨.read, fd, 0, ptr, adapterBufferSize, id, caller⟩
  ended : s.ended = true → ∃ read ∈ s.reads, read.bytes = []

/-- **A call with room keeps it.** -/
theorem WithRoom.step {s t : ReadSession AsyncReadAdapter} {call : ReadCall} (h : s.WithRoom)
    (hstep : Step s call t) (hroom : 0 < call.remaining) : t.WithRoom := by
  obtain ⟨hsound, hfaithful⟩ := faithful_step hstep h.sound h.faithful
  have hguard : ReadsWithRoom s call := fun hzero => absurd hzero (by omega)
  obtain ⟨p, hcall, rfl⟩ := Option.map_eq_some_iff.mp hstep
  refine ⟨hsound, hfaithful.mpr hguard, ?_, ?_⟩
  all_goals
    obtain ⟨hcomes, -⟩ := AsyncReadAdapter.pollRead_cases h.sound hcall
  · intro read hread
    rcases List.mem_append.mp hread with hread | hread
    · exact h.requests read hread
    -- the read that completed in the call
    cases hcomes with
    | served hpos hroom hanswer hnone hput hcache =>
      rw [hnone] at hread
      exact absurd hread (by simp)
    | idle hroom hanswers hanswer hnone hput hcache =>
      rw [hnone] at hread
      exact absurd hread (by simp)
    | received hroom n b read' hfound hlen hrequest hanswer hread' hput hcache =>
      rw [hread'] at hread
      obtain rfl := List.mem_singleton.mp hread
      obtain ⟨ptr, id, hrequest⟩ := hrequest
      exact ⟨_, _, _, _, hrequest⟩
  · intro hended
    obtain ⟨hanswer', hput', -⟩ := of_decide_eq_true hended
    cases hcomes with
    | served hpos hroom hanswer hnone hput hcache =>
      rw [hput, List.take_eq_nil_iff, List.drop_eq_nil_iff] at hput'
      omega
    | idle hroom hanswers hanswer hnone hput hcache => exact absurd hanswer' hanswer
    | received hroom n b read hfound hlen hrequest hanswer hread hput hcache =>
      refine ⟨read, List.mem_append_right _ (by rw [hread]; exact List.mem_singleton_self _), ?_⟩
      rw [hput, List.take_eq_nil_iff] at hput'
      exact hput'.resolve_left (by omega)

/-- A read without bytes is one of an empty file. -/
theorem WithRoom.empty_of_nil {s : ReadSession AsyncReadAdapter} (h : s.WithRoom)
    (hserved : ∀ read ∈ s.reads, ServedFrom file read) {read : CompletedRead}
    (hread : read ∈ s.reads) (hnil : read.bytes = []) : file.content = [] := by
  obtain ⟨fd, ptr, id, caller, hrequest⟩ := h.requests read hread
  obtain ⟨K, hbytes⟩ := (servedFrom_iff hrequest).mp (hserved read hread)
  rw [hnil, eq_comm, List.take_eq_nil_iff, K.amount_eq_zero] at hbytes
  rcases hbytes with (hlen | ⟨-, hend⟩) | hempty
  · exact absurd hlen (by decide)
  · exact List.length_eq_zero_iff.mp (Nat.le_zero.mp hend)
  · exact hempty

/-- What is delivered was received. -/
theorem WithRoom.delivered_prefix {s : ReadSession AsyncReadAdapter} (h : s.WithRoom) :
    s.delivered <+: s.received :=
  ⟨_, h.faithful⟩

/-- Nothing is received from an empty file. -/
theorem WithRoom.received_eq_nil {s : ReadSession AsyncReadAdapter} (h : s.WithRoom)
    (hserved : ∀ read ∈ s.reads, ServedFrom file read) (hempty : file.content = []) :
    s.received = [] := by
  rw [received, List.flatMap_eq_nil_iff]
  intro read hread
  obtain ⟨fd, ptr, id, caller, hrequest⟩ := h.requests read hread
  obtain ⟨K, hbytes⟩ := (servedFrom_iff hrequest).mp (hserved read hread)
  rw [hbytes, hempty, List.take_nil]

/-- **An empty file is read in order.** -/
theorem WithRoom.inOrder {s : ReadSession AsyncReadAdapter} (h : s.WithRoom)
    (hserved : ∀ read ∈ s.reads, ServedFrom file read) (hempty : file.content = []) :
    s.InOrder file.content := by
  have hnil : s.delivered = [] :=
    List.prefix_nil.mp (h.received_eq_nil hserved hempty ▸ h.delivered_prefix)
  rw [InOrder, hnil, hempty]
  exact ⟨List.nil_prefix, fun _ => rfl⟩

/-- **A call that is supplied tells the end of an empty file.** -/
theorem WithRoom.ended_of_supplied {s t : ReadSession AsyncReadAdapter} {call : ReadCall}
    (h : s.WithRoom) (hstep : Step s call t) (hroom : 0 < call.remaining)
    (hserved : ∀ read ∈ t.reads, ServedFrom file read) (hempty : file.content = [])
    (hsupplied : s.reader.unread ≠ [] ∨ ∃ n b, AsyncReadAdapter.ringAnswer call.rounds s.reader
      s.heap = some (.ready (.ok (n, b)))) : t.ended = true := by
  have hnext := h.step hstep hroom
  obtain ⟨more, hmore⟩ := reads_step hstep
  have hunread : s.reader.unread = [] := by
    have hreceived := h.received_eq_nil (fun read hread =>
      hserved read (hmore ▸ List.mem_append_left _ hread)) hempty
    exact (List.append_eq_nil_iff.mp (h.faithful.trans hreceived)).2
  obtain ⟨n', b', hanswers⟩ := hsupplied.resolve_left fun hne => hne hunread
  obtain ⟨p, hcall, rfl⟩ := Option.map_eq_some_iff.mp hstep
  obtain ⟨hcomes, -⟩ := AsyncReadAdapter.pollRead_cases h.sound hcall
  cases hcomes with
  | served hpos hroom hanswer hnone hput hcache =>
    rw [AsyncReadAdapter.unread, List.drop_eq_nil_iff] at hunread
    omega
  | idle hroom hnone hanswer hread hput hcache => exact absurd hanswers (hnone n' b')
  | received _ n b read hfound hlen hrequest hanswer hread hput hcache =>
    have hnil := hnext.received_eq_nil hserved hempty
    rw [received, List.flatMap_eq_nil_iff] at hnil
    have hbytes : read.bytes = [] :=
      hnil read (List.mem_append_right _ (by rw [hread]; exact List.mem_singleton_self _))
    rw [hbytes, List.take_nil] at hput
    exact decide_eq_true ⟨hanswer, hput, hroom⟩

variable [AsyncRead A] {wrap : AsyncReadAdapter → A} {s₀ s : ReadSession A}
variable {ms : List (Transition.Move (ReadSession A) ReadCall)}

/-- **What a state of a run is**: a session of the adapter, whose reads the file serves. -/
theorem Opened.always (hopen : s₀.Opened wrap) (hrun : Transition.Run Step s₀ ms s)
    (hroom : Transition.Guarded (fun _ call => 0 < call.remaining) ms)
    (hserved : ∀ read ∈ s.reads, ServedFrom file read) :
    Transition.Always (fun s => ∃ t : ReadSession AsyncReadAdapter, s = t.map wrap ∧ t.WithRoom ∧
      ∀ read ∈ t.reads, ServedFrom file read) s₀ ms := by
  obtain ⟨hwrap, adapter, heap, hsound, hunread, rfl⟩ := hopen
  refine hrun.always_of_end (fun s => ∃ t : ReadSession AsyncReadAdapter, s = t.map wrap ∧
    t.WithRoom) (fun s => ∀ read ∈ s.reads, ServedFrom file read) (fun s call u hstep hroom => ?_)
    (fun s call u hstep hu read hread => ?_) ?_ hroom ⟨_, rfl, ?_⟩ hserved
  · rintro ⟨t, rfl, ht⟩
    rw [Step, step_map hwrap, Option.map_eq_some_iff] at hstep
    obtain ⟨t', hstep, rfl⟩ := hstep
    exact ⟨t', rfl, ht.step hstep hroom⟩
  · obtain ⟨more, hmore⟩ := reads_step hstep
    exact hu read (hmore ▸ List.mem_append_left _ hread)
  · rintro s ⟨t, rfl, ht⟩ hreads
    exact ⟨t, rfl, ht, hreads⟩
  · refine ⟨hsound, ?_, fun read hread => absurd hread (by simp), fun h => absurd h (by simp)⟩
    rw [Faithful, hunread]
    rfl

/-- **The end is told of an empty file only**: of another the start is read again. -/
theorem Opened.empty_of_ended (hopen : s₀.Opened wrap) (hrun : Transition.Run Step s₀ ms s)
    (hroom : Transition.Guarded (fun _ call => 0 < call.remaining) ms)
    (hserved : ∀ read ∈ s.reads, ServedFrom file read)
    {m : Transition.Move (ReadSession A) ReadCall} (hm : m ∈ ms) (hended : m.after.ended = true) :
    file.content = [] := by
  obtain ⟨t, ht, hroom, hserved⟩ := (hopen.always hrun hroom hserved).2 m hm
  rw [ht] at hended
  obtain ⟨read, hread, hnil⟩ := hroom.ended hended
  exact hroom.empty_of_nil hserved hread hnil

/-- **A call that is supplied tells the end of an empty file**, of whatever holds the adapter. -/
theorem Opened.ended_of_supplied (hopen : s₀.Opened wrap) (hrun : Transition.Run Step s₀ ms s)
    (hroom : Transition.Guarded (fun _ call => 0 < call.remaining) ms)
    (hserved : ∀ read ∈ s.reads, ServedFrom file read) (hempty : file.content = [])
    {m : Transition.Move (ReadSession A) ReadCall} (hm : m ∈ ms)
    (hsupplied : Supplied wrap m.before m.label) : m.after.ended = true := by
  have halways := hopen.always hrun hroom hserved
  obtain ⟨t, ht, hwith, -⟩ := hrun.before_of_always halways hm
  obtain ⟨u, hu, -, hserved⟩ := halways.2 m hm
  obtain ⟨t', ht', hsupplied⟩ := hsupplied
  obtain rfl := map_injective hopen.1.injective (ht.symm.trans ht')
  -- the move is one of the adapter
  have hstep := hrun.step_of_mem hm
  rw [ht, Step, step_map hopen.1, Option.map_eq_some_iff] at hstep
  obtain ⟨u', hstep, hu'⟩ := hstep
  obtain rfl := map_injective hopen.1.injective (hu'.trans hu)
  rw [hu]
  exact hwith.ended_of_supplied hstep (hroom m hm) hserved hempty hsupplied

/-- **An empty file is read through**: there is nothing to deliver, and the first call that is
supplied tells its end. -/
theorem Opened.readsThrough (hopen : s₀.Opened wrap) (hrun : Transition.Run Step s₀ ms s)
    (hroom : Transition.Guarded (fun _ call => 0 < call.remaining) ms)
    (hserved : ∀ read ∈ s.reads, ServedFrom file read) (hempty : file.content = []) :
    ReadsThrough wrap file.content s₀ ms := by
  have halways := hopen.always hrun hroom hserved
  have hinOrder : ∀ u : ReadSession A, (∃ t : ReadSession AsyncReadAdapter, u = t.map wrap ∧
      t.WithRoom ∧ ∀ read ∈ t.reads, ServedFrom file read) → u.InOrder file.content := by
    rintro u ⟨t, rfl, hwith, hserved⟩
    exact hwith.inOrder hserved hempty
  refine ⟨⟨hinOrder _ halways.1, fun m hm => hinOrder _ (halways.2 m hm)⟩, ?_⟩
  rintro ⟨supplied, hsub, hmore, hsupplied⟩
  obtain ⟨m, hm⟩ := List.exists_mem_of_length_pos (Nat.zero_lt_of_lt hmore)
  have hmem := hsub.subset hm
  exact ⟨m, hmem, hopen.ended_of_supplied hrun hroom hserved hempty hmem (hsupplied m hm)⟩

/-- **A file is read through by enough calls exactly when it is empty.** -/
theorem Opened.readsThrough_iff (hopen : s₀.Opened wrap) (hrun : Transition.Run Step s₀ ms s)
    (hroom : Transition.Guarded (fun _ call => 0 < call.remaining) ms)
    (hserved : ∀ read ∈ s.reads, ServedFrom file read)
    (henough : MoreSupplied wrap file.content.length ms) :
    ReadsThrough wrap file.content s₀ ms ↔ file.content = [] := by
  refine ⟨fun h => ?_, hopen.readsThrough hrun hroom hserved⟩
  obtain ⟨m, hm, hended⟩ := h.comes henough
  exact hopen.empty_of_ended hrun hroom hserved hm hended

end ReadSession

/-! ### Writing -/

/-- Writing over the start leaves what was written there. -/
theorem prefix_overwrite_zero (content bytes : List UInt8) :
    bytes <+: overwrite content 0 bytes := by
  rw [overwrite]
  by_cases hempty : bytes.isEmpty
  · rw [List.isEmpty_iff.mp hempty]
    exact List.nil_prefix
  · rw [if_neg hempty, List.take_zero, List.nil_append]
    exact List.prefix_append _ _

namespace WriteSession

variable {A : Type} {before : OpenFile}

/-- **A file is written in order**: after a flush that is done, and as long as no call failed,
what the calls accepted is at its start. -/
def InOrder (before : OpenFile) (s : WriteSession A) : Prop :=
  s.failed = false → s.flushed = true → ∀ after, AllLand before s.writes after →
    s.accepted <+: after.content

/-- **A file is written in order by one write** that takes what was copied for it. -/
theorem Sound.inOrder {s : WriteSession AsyncWriteAdapter} (h : s.Sound)
    (hsingle : s.writes.length ≤ 1) (hfull : ∀ w ∈ s.writes, w.slice.length ≤ w.bytes.length) :
    s.InOrder before := by
  intro hok hflushed after hland
  have hgiven := h.given hok
  rw [AsyncWriteAdapter.owed, h.flushed hok hflushed, Option.isSome_none, if_neg (by simp),
    List.append_nil] at hgiven
  rw [← hgiven]
  rcases hwrites : s.writes with _ | ⟨write, _ | ⟨write', rest⟩⟩
  · exact List.nil_prefix
  · rw [hwrites, allLand_singleton] at hland
    have hwrite : write ∈ s.writes := hwrites ▸ List.mem_singleton_self _
    obtain ⟨content, hbuffer⟩ := h.writes write hwrite
    obtain ⟨fd, ptr, id, cell, hrequest⟩ := hbuffer.request
    obtain ⟨-, rfl⟩ := (lands_iff hrequest).mp hland
    -- the kernel took the bytes copied, and more behind them
    have htaken : write.slice <+: write.bytes :=
      List.prefix_of_prefix_length_le hbuffer.slice hbuffer.bytes (hfull write hwrite)
    rw [slicesOf, List.flatMap_singleton]
    exact htaken.trans (prefix_overwrite_zero _ _)
  · rw [hwrites] at hsingle
    exact absurd hsingle (by simp)

variable [AsyncWrite A] {s₀ s : WriteSession A}
variable {ms : List (Transition.Move (WriteSession A) WriteCall)}

/-- **What holds of every session of an adapter holds of what holds the adapter.** -/
theorem always_of_opened {P : WriteSession A → Prop} {Q : List CompletedWrite → Prop}
    (hopen : s₀.Opened) (hrun : Transition.Run Step s₀ ms s)
    (hQ : ∀ writes more, Q (writes ++ more) → Q writes) (hend : Q s.writes)
    (hP : ∀ wrap, ∀ t : WriteSession AsyncWriteAdapter, t.Sound → Q t.writes → P (t.map wrap)) :
    Transition.Always P s₀ ms := by
  obtain ⟨wrap, adapter, heap, hwrap, hsound, hidle, rfl⟩ := hopen
  refine hrun.always_of_end (fun s => ∃ t : WriteSession AsyncWriteAdapter, s = t.map wrap ∧
    t.Sound) (fun s => Q s.writes) (C := fun _ _ => True) (fun s call u hstep _ => ?_)
    (fun s call u hstep hu => ?_) ?_ (fun _ _ => trivial) ⟨_, rfl, ?_⟩ hend
  · rintro ⟨t, rfl, ht⟩
    rw [Step, step_map hwrap, Option.map_eq_some_iff] at hstep
    obtain ⟨t', hstep, rfl⟩ := hstep
    exact ⟨t', rfl, ht.step hstep⟩
  · obtain ⟨more, hmore⟩ := writes_step hstep
    exact hQ _ more (hmore ▸ hu)
  · rintro s ⟨t, rfl, ht⟩ hwrites
    exact hP wrap t ht hwrites
  · refine ⟨hsound, fun w hw => absurd hw (by simp), fun _ => ?_, fun _ h => absurd h (by simp)⟩
    rw [AsyncWriteAdapter.owed, hidle]
    rfl

end WriteSession

/-! ### Both -/

/-- **A file is read through exactly when it is empty**, by any calls with room, once enough of them
are supplied; **and it is written in order as long as one write does it**, which takes at least
what was copied for it. -/
theorem readsThrough_and_inOrder {A B : Type} [AsyncRead A] [AsyncWrite B] (file before : OpenFile)
    {wrap : AsyncReadAdapter → A} {s₀ s : ReadSession A}
    {ms : List (Transition.Move (ReadSession A) ReadCall)} {w₀ w : WriteSession B}
    {ns : List (Transition.Move (WriteSession B) WriteCall)}
    (hread : s₀.Opened wrap) (hreads : Transition.Run ReadSession.Step s₀ ms s)
    (hroom : Transition.Guarded (fun _ call => 0 < call.remaining) ms)
    (hserved : ∀ read ∈ s.reads, ServedFrom file read)
    (hwrite : w₀.Opened) (hwrites : Transition.Run WriteSession.Step w₀ ns w)
    (hone : w.writes.length ≤ 1)
    (hfull : ∀ write ∈ w.writes, write.slice.length ≤ write.bytes.length) :
    (file.content = [] → ReadSession.ReadsThrough wrap file.content s₀ ms) ∧
      (ReadSession.MoreSupplied wrap file.content.length ms →
        (ReadSession.ReadsThrough wrap file.content s₀ ms ↔ file.content = [])) ∧
      Transition.Always (WriteSession.InOrder before) w₀ ns := by
  refine ⟨hread.readsThrough hreads hroom hserved, hread.readsThrough_iff hreads hroom hserved, ?_⟩
  refine WriteSession.always_of_opened hwrite hwrites
    (Q := fun writes => writes.length ≤ 1 ∧
      ∀ write ∈ writes, write.slice.length ≤ write.bytes.length) ?_ ⟨hone, hfull⟩ ?_
  · rintro writes more ⟨hone, hfull⟩
    refine ⟨?_, fun write hwrite => hfull write (List.mem_append_left _ hwrite)⟩
    rw [List.length_append] at hone
    omega
  · rintro wrap t ht ⟨hone, hfull⟩
    exact ht.inOrder hone hfull

/-- A read brings nothing to a caller with room for two bytes. -/
def readEmpty : List ReadCall := [⟨(ReadSession.readAtOnce .new []).1, 2⟩]

/-- What a session that reads nothing is, by what can be computed of it. -/
theorem ReadSession.exists_readEmpty {A : Type} [AsyncRead A] {s₀ : ReadSession A}
    (h : (Transition.trace step s₀ readEmpty).map (fun x => (x.2.ended, x.2.reads)) = some (true,
      [⟨some ⟨.read, 3, 0, some 4096, adapterBufferSize, 1, .owned 0⟩, []⟩])) :
    ∃ ms s, Transition.Run Step s₀ ms s ∧ ms.map Transition.Move.label = readEmpty ∧
      s.ended = true ∧ (∀ read ∈ s.reads, ServedFrom ⟨[], 0⟩ read) ∧
      Transition.Guarded (fun _ call => 0 < call.remaining) ms := by
  obtain ⟨⟨ms, s⟩, hms, hend⟩ := Option.map_eq_some_iff.mp h
  obtain ⟨hended, hreads⟩ := Prod.mk.inj hend
  obtain ⟨hrun, hcalls⟩ := Transition.run_of_trace hms
  have hroom : ∀ call ∈ readEmpty, 0 < call.remaining := by
    simp [readEmpty]
  refine ⟨ms, s, hrun, hcalls, hended, fun read hmem => ?_, fun m hm => ?_⟩
  · rw [hreads, List.mem_singleton] at hmem
    subst hmem
    exact (servedFrom_iff rfl).mpr ⟨.full, rfl⟩
  · exact hroom _ (hcalls ▸ List.mem_map_of_mem hm)

/-- What a session that writes once is. -/
theorem WriteSession.exists_writeOnce {A : Type} [AsyncWrite A] {s₀ : WriteSession A}
    (h : (Transition.trace step s₀ (writeThenFlush 8192)).map (fun x => (x.2.flushed, x.2.accepted,
      x.2.writes.map fun w => decide (w.slice.length ≤ w.bytes.length))) =
        some (true, [1, 2], [true])) :
    ∃ ns w, Transition.Run Step s₀ ns w ∧ w.flushed = true ∧ w.accepted = [1, 2] ∧
      w.writes.length ≤ 1 ∧ ∀ write ∈ w.writes, write.slice.length ≤ write.bytes.length := by
  obtain ⟨⟨ns, w⟩, hns, hend⟩ := Option.map_eq_some_iff.mp h
  obtain ⟨hflushed, hend⟩ := Prod.mk.inj hend
  obtain ⟨haccepted, hwrites⟩ := Prod.mk.inj hend
  refine ⟨ns, w, (Transition.run_of_trace hns).1, hflushed, haccepted, ?_, fun write hmem => ?_⟩
  · have hlength := congrArg List.length hwrites
    rw [List.length_map] at hlength
    exact hlength.le
  · have htrue := List.mem_map_of_mem (f := fun w : CompletedWrite =>
      decide (w.slice.length ≤ w.bytes.length)) hmem
    rw [hwrites, List.mem_singleton] at htrue
    exact of_decide_eq_true htrue

/-- **An empty file is read through, and one write is in order**: of an adapter, and of a file
that holds two. -/
theorem readsThrough_emptyFile :
    ((∃ ms s, Transition.Run ReadSession.Step ReadSession.alone ms s ∧
        ms.map Transition.Move.label = readEmpty ∧ s.ended = true ∧
        ReadSession.ReadsThrough (fun adapter => adapter) [] ReadSession.alone ms) ∧
      ∃ ns w, Transition.Run WriteSession.Step WriteSession.alone ns w ∧ w.flushed = true ∧
        w.accepted = [1, 2] ∧
        Transition.Always (WriteSession.InOrder ⟨[], 0⟩) WriteSession.alone ns) ∧
    (∃ wrap ms s, Transition.Run ReadSession.Step (ReadSession.ofFile .empty 4096 16384 3) ms s ∧
        ms.map Transition.Move.label = readEmpty ∧ s.ended = true ∧
        ReadSession.ReadsThrough wrap [] (ReadSession.ofFile .empty 4096 16384 3) ms) ∧
      ∃ ns w, Transition.Run WriteSession.Step (WriteSession.ofFile .empty 4096 16384 3) ns w ∧
        w.flushed = true ∧ w.accepted = [1, 2] ∧
        Transition.Always (WriteSession.InOrder ⟨[], 0⟩)
          (WriteSession.ofFile .empty 4096 16384 3) ns := by
  constructor
  · obtain ⟨ms, s, hrun, hcalls, hended, hserved, hroom⟩ :=
      @ReadSession.exists_readEmpty _ _ ReadSession.alone (by decide +kernel)
    obtain ⟨ns, w, hrun', hflushed, haccepted, hone, hfull⟩ :=
      @WriteSession.exists_writeOnce _ _ WriteSession.alone (by decide +kernel)
    obtain ⟨hempty, -, horder⟩ := readsThrough_and_inOrder ⟨[], 0⟩ ⟨[], 0⟩
      (ReadSession.opened_new _ _ _) hrun hroom hserved (WriteSession.opened_new _ _ _) hrun' hone
      hfull
    exact ⟨⟨ms, s, hrun, hcalls, hended, hempty rfl⟩, ns, w, hrun', hflushed, haccepted, horder⟩
  · obtain ⟨ms, s, hrun, hcalls, hended, hserved, hroom⟩ :=
      @ReadSession.exists_readEmpty _ _ (ReadSession.ofFile .empty 4096 16384 3)
        (by decide +kernel)
    obtain ⟨ns, w, hrun', hflushed, haccepted, hone, hfull⟩ :=
      @WriteSession.exists_writeOnce _ _ (WriteSession.ofFile .empty 4096 16384 3)
        (by decide +kernel)
    obtain ⟨hempty, -, horder⟩ := readsThrough_and_inOrder ⟨[], 0⟩ ⟨[], 0⟩
      (ReadSession.opened_ofFile _ _ _ _) hrun hroom hserved (WriteSession.opened_ofFile _ _ _ _)
      hrun' hone hfull
    exact ⟨⟨_, ms, s, hrun, hcalls, hended, hempty rfl⟩, ns, w, hrun', hflushed, haccepted, horder⟩

/-- Two reads of a file with one byte. -/
def readTwice : List ReadCall :=
  let (first, ring) := ReadSession.readAtOnce .new [1]
  let (second, _) := ReadSession.readAtOnce ring [1]
  [⟨first, 1⟩, ⟨second, 1⟩]

/-- **The second read brings the byte again**, where the end should be told. -/
theorem not_readsThrough_readTwice : ∃ ms s,
    Transition.Run ReadSession.Step ReadSession.alone ms s ∧
    ms.map Transition.Move.label = readTwice ∧
    (∀ read ∈ s.reads, ServedFrom ⟨[1], 0⟩ read) ∧ s.delivered = [1, 1] ∧
    (∀ m ∈ ms, m.after.ended = false) ∧
    ¬ReadSession.ReadsThrough (fun adapter => adapter) [1] ReadSession.alone ms := by
  have hend : (Transition.trace ReadSession.step ReadSession.alone readTwice).map (fun x =>
      (x.2.delivered, x.1.any fun m => m.after.ended, x.2.reads)) = some ([1, 1], false,
        [⟨some ⟨.read, 3, 0, some 4096, adapterBufferSize, 1, .owned 0⟩, [1]⟩,
          ⟨some ⟨.read, 3, 0, some 4096, adapterBufferSize, 2, .owned 0⟩, [1]⟩]) := by
    decide +kernel
  obtain ⟨⟨ms, s⟩, htrace, hend⟩ := Option.map_eq_some_iff.mp hend
  obtain ⟨hdelivered, hend⟩ := Prod.mk.inj hend
  obtain ⟨hended, hreads⟩ := Prod.mk.inj hend
  obtain ⟨hrun, hcalls⟩ := Transition.run_of_trace htrace
  refine ⟨ms, s, hrun, hcalls, fun read hmem => ?_, hdelivered, fun m hm => ?_, fun hlaw => ?_⟩
  · rw [hreads] at hmem
    rcases List.mem_pair.mp hmem with rfl | rfl
    all_goals exact (servedFrom_iff rfl).mpr ⟨.full, rfl⟩
  · exact Bool.eq_false_iff.mpr (List.any_eq_false.mp hended m hm)
  · have hinit := (hrun.of_always hlaw.inOrder).1.length_le
    rw [hdelivered] at hinit
    exact absurd hinit (by decide)

/-- A write of one byte, and a flush once the kernel wrote the buffer, with the ring they
leave. -/
def writeAndFlush (ring : Ring) (byte : UInt8) : List WriteCall × Ring :=
  let (future, submitted) :=
    ring.writeOwned WriteSession.alone.heap 3 ⟨0, adapterBufferSize, 0⟩ (.ok ())
  let completed := (submitted.backend.complete 0 (.ok 8192)).elim submitted fun backend =>
    { submitted with backend }
  ([.write [⟨ring, 7, none, [], ring, .ok ()⟩, ⟨submitted, 7, none, [], submitted, .ok ()⟩] [byte],
    .flush ⟨completed, 7, none, [], completed, .ok ()⟩], (future.poll completed 7 none).2.2)

/-- Two writes, each flushed. -/
def writeTwice : List WriteCall :=
  let (first, ring) := writeAndFlush .new 1
  first ++ (writeAndFlush ring 2).1

/-- **The second write goes over the first.** -/
theorem not_inOrder_writeTwice : ∃ ns w,
    Transition.Run WriteSession.Step WriteSession.alone ns w ∧
    ns.map Transition.Move.label = writeTwice ∧ w.failed = false ∧ w.flushed = true ∧
    w.accepted = [1, 2] ∧ ¬w.InOrder ⟨[], 0⟩ := by
  have hend : (Transition.trace WriteSession.step WriteSession.alone writeTwice).map (fun x =>
      (x.2.failed, x.2.flushed, x.2.accepted,
        x.2.writes.map fun write => (write.bytes.length, write.bytes.headD 0))) =
      some (false, true, [1, 2], [(8192, 1), (8192, 2)]) := by
    decide +kernel
  obtain ⟨⟨ns, w⟩, htrace, hend⟩ := Option.map_eq_some_iff.mp hend
  obtain ⟨hok, hend⟩ := Prod.mk.inj hend
  obtain ⟨hflushed, hend⟩ := Prod.mk.inj hend
  obtain ⟨haccepted, hend⟩ := Prod.mk.inj hend
  obtain ⟨first, rest, hwrites, hfirst, hend⟩ := List.map_eq_cons_iff.mp hend
  obtain ⟨second, rest, rfl, hsecond, hend⟩ := List.map_eq_cons_iff.mp hend
  obtain rfl := List.map_eq_nil_iff.mp hend
  obtain ⟨hlen, -⟩ := Prod.mk.inj hfirst
  obtain ⟨hlen', htaken⟩ := Prod.mk.inj hsecond
  obtain ⟨hrun, hcalls⟩ := Transition.run_of_trace htrace
  refine ⟨ns, w, hrun, hcalls, hok, hflushed, haccepted, fun hlaw => ?_⟩
  have hsound : w.Sound := hrun.invariant (C := fun _ _ => True) (fun _ _ _ hs _ h => h.step hs)
    (fun _ _ => trivial) (WriteSession.sound_new _ _ _)
  have hrequest : ∀ write ∈ w.writes, ∃ fd ptr id caller,
      write.request = some ⟨.write, fd, 0, ptr, adapterBufferSize, id, caller⟩ := by
    intro write hmem
    obtain ⟨content, hbuffer⟩ := hsound.writes write hmem
    obtain ⟨fd, ptr, id, cell, hrequest⟩ := hbuffer.request
    exact ⟨fd, ptr, id, _, hrequest⟩
  obtain ⟨_, _, _, _, hreq⟩ := hrequest first (by rw [hwrites]; simp)
  obtain ⟨_, _, _, _, hreq'⟩ := hrequest second (by rw [hwrites]; simp)
  have hlands : AllLand ⟨[], 0⟩ [first, second] _ :=
    (AllLand.nil.snoc ((lands_iff hreq).mpr ⟨⟨.full, hlen⟩, rfl⟩)).snoc
      ((lands_iff hreq').mpr ⟨⟨.full, hlen'⟩, rfl⟩)
  rw [← hwrites] at hlands
  have hinit := hlaw hok hflushed _ hlands
  rw [haccepted] at hinit
  -- the file starts with the second byte
  obtain ⟨rest, hrest⟩ := List.prefix_of_prefix_length_le hinit (prefix_overwrite_zero _ _)
    (by rw [hlen']; decide)
  rw [← hrest] at htaken
  exact absurd htaken (by simp)

/-- **Two reads do not read a file through, and two writes are not in order.** -/
theorem not_inOrder_twice :
    (∃ ms s, Transition.Run ReadSession.Step ReadSession.alone ms s ∧
      ms.map Transition.Move.label = readTwice ∧
      (∀ read ∈ s.reads, ServedFrom ⟨[1], 0⟩ read) ∧ s.delivered = [1, 1] ∧
      (∀ m ∈ ms, m.after.ended = false) ∧
      ¬ReadSession.ReadsThrough (fun adapter => adapter) [1] ReadSession.alone ms) ∧
    ∃ ns w, Transition.Run WriteSession.Step WriteSession.alone ns w ∧
      ns.map Transition.Move.label = writeTwice ∧ w.failed = false ∧ w.flushed = true ∧
      w.accepted = [1, 2] ∧ ¬w.InOrder ⟨[], 0⟩ :=
  ⟨not_readsThrough_readTwice, not_inOrder_writeTwice⟩

end SaferRing
