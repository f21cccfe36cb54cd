import SaferRing.Library.Run
import SaferRing.Ownership

/-!
# One buffer and all who share it

A buffer has any number of handles, and guards hold its bytes for a time
(`SaferRing.Sharing`). A guard keeps the bytes outside of the cell, and when it is dropped it
writes them back without looking at what the cell says. That this is right rests on all handles
and guards together: the bytes are always in exactly one place (`SaferRing.Custody`), and where
that is a guard nobody else can have put anything in the cell. `SaferRing.Sharing.whole_of_run`
is what follows for every order of the calls.
-/

namespace SaferRing

/-- The bytes a cell has. -/
def BufferOwnership.boxes : BufferOwnership → List BoxedSlice
  | .user buf => [buf]
  | .kernel buf _ => [buf]
  | .returning => []

/-- **A buffer**, with its handles and guards. -/
structure Sharing where
  /-- The cells. -/
  heap : Heap
  /-- The cell of the buffer. -/
  cell : ℕ
  /-- The handles. -/
  handles : List OwnedBuffer
  /-- The guards that are live. -/
  guards : List BufferAccessGuard

namespace Sharing

/-- What is done with a buffer, by the place of a handle or a guard. -/
inductive Event
  /-- `try_access`. -/
  | tryAccess (h : ℕ)
  /-- Other bytes are written through a guard. -/
  | write (g : ℕ) (bytes : List UInt8)
  /-- A guard is dropped. -/
  | dropGuard (g : ℕ)
  /-- `give_to_kernel`. -/
  | giveToKernel (h submissionId : ℕ)
  /-- `return_from_kernel`. -/
  | returnFromKernel (h submissionId : ℕ)
  /-- `clone_handle`. -/
  | cloneHandle (h : ℕ)
  /-- A handle is dropped. -/
  | dropHandle (h : ℕ)
  /-- The kernel writes other bytes, of a buffer that it owns. -/
  | kernelWrites (bytes : List UInt8)
  deriving DecidableEq, Repr

/-- A buffer with its first handle. -/
def new (made : OwnedBuffer × Heap) : Sharing := ⟨made.2, made.1.inner, [made.1], []⟩

variable (self : Sharing)

/-- **What happens to a buffer**; `none` when it cannot happen, or panics. What is written is as
long as what was there. -/
def step : Event → Option Sharing
  | .tryAccess h =>
    self.handles[h]?.map fun buffer =>
      match buffer.tryAccess self.heap with
      | (some guard, heap) => { self with heap, guards := self.guards ++ [guard] }
      | (none, heap) => { self with heap }
  | .write g bytes =>
    self.guards[g]?.bind fun guard =>
      if bytes.length = guard.buffer.bytes.length then
        some { self with guards := self.guards.set g (guard.write bytes) }
      else none
  | .dropGuard g =>
    self.guards[g]?.map fun guard =>
      { self with heap := guard.drop self.heap, guards := self.guards.eraseIdx g }
  | .giveToKernel h submissionId =>
    self.handles[h]?.map fun buffer =>
      { self with heap := (buffer.giveToKernel self.heap submissionId).2 }
  | .returnFromKernel h submissionId =>
    self.handles[h]?.bind fun buffer =>
      (buffer.returnFromKernel self.heap submissionId).map fun heap => { self with heap }
  | .cloneHandle h =>
    self.handles[h]?.map fun buffer =>
      { self with handles := self.handles ++ [buffer.cloneHandle] }
  | .dropHandle h =>
    self.handles[h]?.map fun _ => { self with handles := self.handles.eraseIdx h }
  | .kernelWrites bytes =>
    match self.heap.cell self.cell with
    | .kernel buf id =>
      if bytes.length = buf.bytes.length then
        some { self with heap := self.heap.set self.cell (.kernel { buf with bytes } id) }
      else none
    | _ => none

/-- The step relation. -/
abbrev Step (s : Sharing) (e : Event) (t : Sharing) : Prop := s.step e = some t

/-! ### Where the bytes are -/

/-- **The places the bytes are in**: the cell, and every guard. -/
def places : List BoxedSlice := (self.heap.cell self.cell).boxes ++ self.guards.map (·.buffer)

/-- The bytes. -/
def content : List UInt8 := self.places.flatMap BoxedSlice.bytes

/-- What an event writes. -/
def written : Event → Option (List UInt8)
  | .write _ bytes | .kernelWrites bytes => some bytes
  | _ => none

/-- **A call is refused.** -/
def Refused : Event → Prop
  | .tryAccess h => ∃ buffer, self.handles[h]? = some buffer ∧
    (buffer.tryAccess self.heap).1 = none
  | .giveToKernel h submissionId => ∃ buffer e, self.handles[h]? = some buffer ∧
    (buffer.giveToKernel self.heap submissionId).1 = .error e
  | _ => False

/-- **The bytes are in one place**, and it is known who has them. -/
structure Whole (addr size : ℕ) (s : Sharing) : Prop where
  /-- They are in one place, where the allocator put them, and as many as there were. -/
  places : ∃ bytes, s.places = [⟨addr, bytes⟩] ∧ bytes.length = size
  /-- Every handle knows how many. -/
  size : ∀ buffer ∈ s.handles, buffer.size = size
  /-- They are on their way back exactly when a guard has them. -/
  returning : s.heap.cell s.cell = .returning ↔ s.guards ≠ []
  /-- There is no second guard. -/
  guards : s.guards.length ≤ 1

/-- **What happens is in order.** -/
structure Orderly (m : Transition.Move Sharing Event) : Prop where
  /-- A guard that is dropped takes the bytes from nobody. -/
  dropGuard : ∀ g, m.label = .dropGuard g → m.before.heap.cell m.before.cell = .returning
  /-- A call that is refused changes nothing. -/
  refused : m.before.Refused m.label → m.after = m.before
  /-- The bytes are what was written last, through the guard or by the kernel. -/
  content : m.after.content = (written m.label).getD m.before.content
  /-- The kernel writes what it owns. -/
  kernel : ∀ bytes, m.label = .kernelWrites bytes →
    (m.before.heap.cell m.before.cell).kernelOwner.isSome

/-! ### Custody -/

/-- **Who has the bytes**: the user, the kernel, or a guard. -/
inductive Custody (s : Sharing) (box : BoxedSlice) : Prop
  /-- The user has them. -/
  | user : s.heap.cell s.cell = .user box → s.guards = [] → Custody s box
  /-- The kernel has them. -/
  | kernel (id : ℕ) : s.heap.cell s.cell = .kernel box id → s.guards = [] → Custody s box
  /-- A guard has them. -/
  | guard : s.heap.cell s.cell = .returning → s.guards = [⟨box, s.cell⟩] → Custody s box

/-- All handles name the cell. -/
def Named (size : ℕ) (s : Sharing) : Prop :=
  ∀ buffer ∈ s.handles, buffer.inner = s.cell ∧ buffer.size = size

variable {s t : Sharing} {e : Event} {box : BoxedSlice} {size : ℕ}

/-- **Who has the bytes has all of them.** -/
theorem Custody.places (h : Custody s box) : s.places = [box] := by
  rw [Sharing.places]
  cases h with
  | user hcell hguards => rw [hcell, hguards]; rfl
  | kernel id hcell hguards => rw [hcell, hguards]; rfl
  | guard hcell hguards => rw [hcell, hguards]; rfl

theorem Custody.content (h : Custody s box) : s.content = box.bytes := by
  rw [Sharing.content, h.places, List.flatMap_singleton]

/-- Handles have no bytes. -/
theorem Custody.of_handles (h : Custody s box) (handles : List OwnedBuffer) :
    Custody { s with handles } box := by
  cases h with
  | user hcell hguards => exact .user hcell hguards
  | kernel id hcell hguards => exact .kernel id hcell hguards
  | guard hcell hguards => exact .guard hcell hguards

/-- Nobody else has them. -/
theorem Custody.whole (h : Custody s box) (hnamed : Named size s)
    (hsize : box.bytes.length = size) : Whole box.addr size s where
  places := ⟨box.bytes, h.places, hsize⟩
  size buffer hmem := (hnamed buffer hmem).2
  returning := by
    cases h with
    | user hcell hguards => simp [hcell, hguards]
    | kernel id hcell hguards => simp [hcell, hguards]
    | guard hcell hguards => simp [hcell, hguards]
  guards := by
    cases h with
    | user hcell hguards => simp [hguards]
    | kernel id hcell hguards => simp [hguards]
    | guard hcell hguards => simp [hguards]

/-- Only the user's bytes are handed out. -/
theorem Custody.tryAccess (h : Custody s box) {buffer : OwnedBuffer} (hb : buffer.inner = s.cell) :
    (∃ heap, buffer.tryAccess s.heap = (some ⟨box, s.cell⟩, heap) ∧
      heap.cell s.cell = .returning ∧ s.guards = []) ∨
    buffer.tryAccess s.heap = (none, s.heap) := by
  have hset := s.heap.set_cell s.cell
  rw [OwnedBuffer.tryAccess, hb]
  cases h with
  | user hcell hguards =>
    rw [hcell]
    exact Or.inl ⟨_, rfl, Heap.cell_set_self .., hguards⟩
  | kernel id hcell hguards =>
    rw [hcell] at hset ⊢
    exact Or.inr (Prod.ext rfl hset)
  | guard hcell hguards =>
    rw [hcell] at hset ⊢
    exact Or.inr (Prod.ext rfl hset)

/-- Only the user's bytes are given to the kernel. -/
theorem Custody.giveToKernel (h : Custody s box) {buffer : OwnedBuffer}
    (hb : buffer.inner = s.cell) (id : ℕ) :
    (∃ p heap, buffer.giveToKernel s.heap id = (.ok p, heap) ∧
      heap.cell s.cell = .kernel box id ∧ s.guards = []) ∨
    ∃ e, buffer.giveToKernel s.heap id = (.error e, s.heap) := by
  have hset := s.heap.set_cell s.cell
  rw [OwnedBuffer.giveToKernel, hb]
  cases h with
  | user hcell hguards =>
    rw [hcell]
    exact Or.inl ⟨_, _, rfl, Heap.cell_set_self .., hguards⟩
  | kernel existing hcell hguards =>
    rw [hcell] at hset ⊢
    exact Or.inr ⟨_, Prod.ext rfl hset⟩
  | guard hcell hguards =>
    rw [hcell] at hset ⊢
    exact Or.inr ⟨_, Prod.ext rfl hset⟩

/-- Only the kernel's bytes are taken back. -/
theorem Custody.returnFromKernel (h : Custody s box) {buffer : OwnedBuffer}
    (hb : buffer.inner = s.cell) {id : ℕ} {heap : Heap}
    (hreturn : buffer.returnFromKernel s.heap id = some heap) :
    heap.cell s.cell = .user box ∧ s.guards = [] := by
  rw [OwnedBuffer.returnFromKernel, hb, Option.map_eq_some_iff] at hreturn
  obtain ⟨o, ho, rfl⟩ := hreturn
  rw [Heap.cell_set_self]
  cases h with
  | user hcell hguards =>
    rw [hcell] at ho
    exact absurd ho (by simp [BufferOwnership.returnFromKernel])
  | kernel existing hcell hguards =>
    rw [hcell, BufferOwnership.returnFromKernel, Option.ite_none_right_eq_some] at ho
    exact ⟨(Option.some.inj ho.2).symm, hguards⟩
  | guard hcell hguards =>
    rw [hcell] at ho
    exact absurd ho (by simp [BufferOwnership.returnFromKernel])

/-- **A guard has all of the bytes**, and the cell has nothing. -/
theorem Custody.of_guard (h : Custody s box) {g : ℕ} {guard : BufferAccessGuard}
    (hg : s.guards[g]? = some guard) :
    g = 0 ∧ guard = ⟨box, s.cell⟩ ∧ s.guards = [guard] ∧ s.heap.cell s.cell = .returning := by
  cases h with
  | user hcell hguards => exact absurd hg (by simp [hguards])
  | kernel id hcell hguards => exact absurd hg (by simp [hguards])
  | guard hcell hguards =>
    rw [hguards, List.getElem?_singleton, Option.ite_none_right_eq_some] at hg
    obtain ⟨hzero, hguard⟩ := hg
    exact ⟨hzero, (Option.some.inj hguard).symm, hguards.trans (by rw [Option.some.inj hguard]),
      hcell⟩

/-- **Somebody has the bytes after what happens**, and they are what was written. -/
theorem Custody.step (h : Custody s box) (hnamed : Named size s) (hstep : Step s e t) :
    Named size t ∧ Custody t ⟨box.addr, (written e).getD box.bytes⟩ ∧
      ((written e).getD box.bytes).length = box.bytes.length := by
  cases e with
  | tryAccess i =>
    obtain ⟨buffer, hb, rfl⟩ := Option.map_eq_some_iff.mp hstep
    have hinner := (hnamed buffer (List.mem_of_getElem? hb)).1
    rcases h.tryAccess hinner with ⟨heap, hcall, hcell, hguards⟩ | hcall
    · rw [hcall]
      exact ⟨hnamed, .guard hcell (by simp [hguards, written]), rfl⟩
    · rw [hcall]
      exact ⟨hnamed, h, rfl⟩
  | write g bytes =>
    obtain ⟨guard, hg, hwrite⟩ := Option.bind_eq_some_iff.mp hstep
    obtain ⟨rfl, rfl, hguards, hcell⟩ := h.of_guard hg
    obtain ⟨hlen, ht⟩ := Option.ite_none_right_eq_some.mp hwrite
    obtain rfl := Option.some.inj ht
    exact ⟨hnamed, .guard hcell (by simp [hguards, written, BufferAccessGuard.write]), hlen⟩
  | dropGuard g =>
    obtain ⟨guard, hg, rfl⟩ := Option.map_eq_some_iff.mp hstep
    obtain ⟨rfl, rfl, hguards, hcell⟩ := h.of_guard hg
    exact ⟨hnamed, .user (Heap.cell_set_self ..) (by simp [hguards]), rfl⟩
  | giveToKernel i id =>
    obtain ⟨buffer, hb, rfl⟩ := Option.map_eq_some_iff.mp hstep
    have hinner := (hnamed buffer (List.mem_of_getElem? hb)).1
    rcases h.giveToKernel hinner id with ⟨p, heap, hcall, hcell, hguards⟩ | ⟨e, hcall⟩
    · rw [hcall]
      exact ⟨hnamed, .kernel id hcell hguards, rfl⟩
    · rw [hcall]
      exact ⟨hnamed, h, rfl⟩
  | returnFromKernel i id =>
    obtain ⟨buffer, hb, hcall⟩ := Option.bind_eq_some_iff.mp hstep
    obtain ⟨heap, hreturn, rfl⟩ := Option.map_eq_some_iff.mp hcall
    have hinner := (hnamed buffer (List.mem_of_getElem? hb)).1
    obtain ⟨hcell, hguards⟩ := h.returnFromKernel hinner hreturn
    exact ⟨hnamed, .user hcell hguards, rfl⟩
  | cloneHandle i =>
    obtain ⟨buffer, hb, rfl⟩ := Option.map_eq_some_iff.mp hstep
    refine ⟨fun other hmem => ?_, ?_, rfl⟩
    · rcases List.mem_append.mp hmem with hmem | hmem
      · exact hnamed other hmem
      · obtain rfl := List.mem_singleton.mp hmem
        exact hnamed buffer (List.mem_of_getElem? hb)
    · exact h.of_handles _
  | dropHandle i =>
    obtain ⟨buffer, -, rfl⟩ := Option.map_eq_some_iff.mp hstep
    exact ⟨fun other hmem => hnamed other (List.mem_of_mem_eraseIdx hmem), h.of_handles _, rfl⟩
  | kernelWrites bytes =>
    rw [Step, Sharing.step] at hstep
    cases h with
    | user hcell hguards =>
      rw [hcell] at hstep
      exact absurd hstep (by simp)
    | kernel id hcell hguards =>
      rw [hcell] at hstep
      obtain ⟨hlen, ht⟩ := Option.ite_none_right_eq_some.mp hstep
      obtain rfl := Option.some.inj ht
      exact ⟨hnamed, .kernel id (Heap.cell_set_self ..) hguards, hlen⟩
    | guard hcell hguards =>
      rw [hcell] at hstep
      exact absurd hstep (by simp)

/-- **A call that is refused changes nothing.** -/
theorem Custody.eq_of_refused (h : Custody s box) (hnamed : Named size s) (hstep : Step s e t)
    (hrefused : s.Refused e) : t = s := by
  cases e with
  | tryAccess i =>
    obtain ⟨buffer, hb, rfl⟩ := Option.map_eq_some_iff.mp hstep
    obtain ⟨other, hother, hnone⟩ := hrefused
    obtain rfl := Option.some.inj (hb.symm.trans hother)
    rcases h.tryAccess (hnamed buffer (List.mem_of_getElem? hb)).1 with ⟨heap, hcall, -⟩ | hcall
    · rw [hcall] at hnone
      exact absurd hnone (by simp)
    · rw [hcall]
  | giveToKernel i id =>
    obtain ⟨buffer, hb, rfl⟩ := Option.map_eq_some_iff.mp hstep
    obtain ⟨other, e, hother, herror⟩ := hrefused
    obtain rfl := Option.some.inj (hb.symm.trans hother)
    rcases h.giveToKernel (hnamed buffer (List.mem_of_getElem? hb)).1 id with
      ⟨p, heap, hcall, -⟩ | ⟨e, hcall⟩
    · rw [hcall] at herror
      exact absurd herror (by simp)
    · rw [hcall]
  | _ => exact hrefused.elim

/-- **What happens while somebody has the bytes is in order.** -/
theorem Custody.orderly (h : Custody s box) (hnamed : Named size s) (hstep : Step s e t) :
    Orderly ⟨s, e, t⟩ where
  dropGuard := by
    rintro g rfl
    obtain ⟨guard, hg, -⟩ := Option.map_eq_some_iff.mp hstep
    exact (h.of_guard hg).2.2.2
  refused := h.eq_of_refused hnamed hstep
  content := by
    rw [(h.step hnamed hstep).2.1.content, h.content]
  kernel := by
    rintro bytes rfl
    rw [Step, Sharing.step] at hstep
    split at hstep
    · rename_i buf id hcell
      rw [hcell]
      rfl
    · exact absurd hstep (by simp)

/-- **The bytes are where the allocator put them**, and all handles name them. -/
def Placed (addr size : ℕ) (s : Sharing) : Prop :=
  Named size s ∧ ∃ bytes, Custody s ⟨addr, bytes⟩ ∧ bytes.length = size

/-- They stay there, whatever is done with a handle or a guard. -/
theorem Placed.step {addr : ℕ} (h : Placed addr size s) (hstep : Step s e t) :
    Placed addr size t := by
  obtain ⟨hnamed, bytes, hcustody, hlen⟩ := h
  obtain ⟨hnamed', hcustody', hlen'⟩ := hcustody.step hnamed hstep
  exact ⟨hnamed', _, hcustody', hlen'.trans hlen⟩

/-- The bytes of a new buffer are in their place. -/
theorem placed_new {made : OwnedBuffer × Heap} {addr : ℕ}
    (hmade : ∃ heap, (∃ n, made = OwnedBuffer.new heap addr n) ∨
      ∃ data, made = OwnedBuffer.fromSlice heap addr data) :
    Placed addr made.1.size (new made) := by
  have hnamed : Named made.1.size (new made) := by
    intro buffer hmem
    obtain rfl := List.mem_singleton.mp hmem
    exact ⟨rfl, rfl⟩
  obtain ⟨heap, ⟨n, rfl⟩ | ⟨data, rfl⟩⟩ := hmade
  · exact ⟨hnamed, _, .user (Heap.cell_alloc_self ..) rfl, List.length_replicate ..⟩
  · exact ⟨hnamed, _, .user (Heap.cell_alloc_self ..) rfl, rfl⟩

/-- **The bytes of a new buffer stay in one place**, whatever is done with its handles and
guards, in whatever order. -/
theorem whole_of_run {made : OwnedBuffer × Heap} {addr : ℕ}
    {ms : List (Transition.Move Sharing Event)}
    (hmade : ∃ heap, (∃ n, made = OwnedBuffer.new heap addr n) ∨
      ∃ data, made = OwnedBuffer.fromSlice heap addr data)
    (hrun : Transition.Run Step (new made) ms s) :
    Transition.Always (Whole addr made.1.size) (new made) ms ∧ ∀ m ∈ ms, Orderly m := by
  have hstep : ∀ s e t, Step s e t → True → Placed addr made.1.size s →
      Placed addr made.1.size t := fun s e t hstep _ h => h.step hstep
  have halways : Transition.Always (Placed addr made.1.size) (new made) ms :=
    hrun.always hstep (fun _ _ => trivial) (placed_new hmade)
  have hwhole : ∀ s, Placed addr made.1.size s → Whole addr made.1.size s :=
    fun s ⟨hnamed, bytes, hcustody, hlen⟩ => hcustody.whole hnamed hlen
  refine ⟨⟨hwhole _ halways.1, fun m hm => hwhole _ (halways.2 m hm)⟩, fun m hm => ?_⟩
  obtain ⟨hnamed, bytes, hcustody, -⟩ := hrun.before_of_always halways hm
  exact hcustody.orderly hnamed (hrun.step_of_mem hm)

/-- A buffer is written to through a guard and by the kernel, and is asked for in between. -/
def writtenTwice : List Event :=
  [.cloneHandle 0, .tryAccess 1, .write 0 [7, 8], .giveToKernel 0 5, .dropGuard 0,
    .giveToKernel 0 5, .kernelWrites [1, 2], .tryAccess 1, .returnFromKernel 1 5]

/-- **The user has it again in the end**, with what the kernel wrote. -/
theorem whole_writtenTwice : ∃ ms s,
    Transition.Run Step (new (OwnedBuffer.new .empty 4096 2)) ms s ∧
    ms.map Transition.Move.label = writtenTwice ∧ s.places = [⟨4096, [1, 2]⟩] ∧
    s.heap.cell 0 = .user ⟨4096, [1, 2]⟩ ∧
    Transition.Always (Whole 4096 2) (new (OwnedBuffer.new .empty 4096 2)) ms ∧
    ∀ m ∈ ms, Orderly m := by
  have hend : (Transition.trace step (new (OwnedBuffer.new .empty 4096 2)) writtenTwice).map
      (fun x => (x.2.places, x.2.heap.cell 0)) =
        some ([⟨4096, [1, 2]⟩], .user ⟨4096, [1, 2]⟩) := by
    decide
  obtain ⟨⟨ms, s⟩, htrace, hend⟩ := Option.map_eq_some_iff.mp hend
  obtain ⟨hplaces, hcell⟩ := Prod.mk.inj hend
  obtain ⟨hrun, hlabels⟩ := Transition.run_of_trace htrace
  exact ⟨ms, s, hrun, hlabels, hplaces, hcell, whole_of_run ⟨.empty, Or.inl ⟨2, rfl⟩⟩ hrun⟩

end Sharing

end SaferRing
