import SaferRing.Backend
import SaferRing.Library.Run

/-!
# The epoll backend

`SaferRing.EpollBackend` registers the descriptor of an operation with an epoll instance,
keeps the operation, and executes it with a system call once the descriptor is reported
ready. Of the kernel it relies on what `SaferRing.Epoll` says. The backend and the kernel
each keep a list of the operations: `SaferRing.EpollBackend.InStep` is that the two agree.

A registration made with `EPOLLONESHOT` is disabled when it is reported, and not removed,
and nothing in the backend removes it. `SaferRing.EpollBackend.inStep_iff` is that the two
lists agree exactly until the first operation completes.
-/

namespace SaferRing

/-! ### System calls -/

/-- A number as a signed one of `bits` bits. -/
def asSigned (bits n : ℕ) : ℤ :=
  if n % 2 ^ bits < 2 ^ (bits - 1) then (n % 2 ^ bits : ℕ) else (n % 2 ^ bits : ℕ) - 2 ^ bits

/-- An offset as the file calls take it, `as off_t`. -/
def asOffT (n : ℕ) : ℤ := asSigned 64 n

/-- A count as it is returned, `as i32`. -/
def asI32 (n : ℕ) : ℤ := asSigned 32 n

/-- **The system calls an operation is executed with.** -/
inductive Syscall
  /-- Read at the position of the file. -/
  | read (fd : ℤ) (buf : Ptr) (len : ℕ)
  /-- Read at an offset. -/
  | pread (fd : ℤ) (buf : Ptr) (len : ℕ) (offset : ℤ)
  /-- Write at the position of the file. -/
  | write (fd : ℤ) (buf : Ptr) (len : ℕ)
  /-- Write at an offset. -/
  | pwrite (fd : ℤ) (buf : Ptr) (len : ℕ) (offset : ℤ)
  /-- Receive. -/
  | recv (fd : ℤ) (buf : Ptr) (len flags : ℕ)
  /-- Send. -/
  | send (fd : ℤ) (buf : Ptr) (len flags : ℕ)
  /-- Accept a connection, and store the address and its length. -/
  | accept (fd : ℤ) (addr addrlen : Ptr)
  deriving DecidableEq, Repr

/-- An operation that was submitted and is not completed. -/
structure PendingOperation where
  /-- What it does. -/
  opType : OperationType
  /-- Its descriptor. -/
  fd : ℤ
  /-- Its offset. -/
  offset : ℕ
  /-- The address of its buffer. -/
  bufferPtr : Ptr
  /-- The length of its buffer. -/
  bufferLen : ℕ
  /-- The id its completion will carry. -/
  userData : ℕ
  deriving DecidableEq, Repr

namespace PendingOperation

variable (op : PendingOperation)

/-- Read at the offset, or at the position of the file when the offset is `0`. -/
def readCall : Syscall :=
  if op.offset > 0 then .pread op.fd op.bufferPtr op.bufferLen (asOffT op.offset)
  else .read op.fd op.bufferPtr op.bufferLen

/-- Write at the offset, or at the position of the file when the offset is `0`. -/
def writeCall : Syscall :=
  if op.offset > 0 then .pwrite op.fd op.bufferPtr op.bufferLen (asOffT op.offset)
  else .write op.fd op.bufferPtr op.bufferLen

/-- **The system call of an operation**; a vectored operation is treated as if its buffer
were one. -/
def syscall : Syscall :=
  match op.opType with
  | .read | .readVectored => op.readCall
  | .write | .writeVectored => op.writeCall
  | .recv => .recv op.fd op.bufferPtr op.bufferLen 0
  | .send => .send op.fd op.bufferPtr op.bufferLen 0
  | .accept => .accept op.fd none none

/-- What a system call returned, as the result of an operation. -/
def resultOf : Except IoError ℕ → IoResult
  | .ok n => .ok (asI32 n)
  | .error e =>
    if e.kind = .wouldBlock then .error (.new .wouldBlock "Operation would block unexpectedly")
    else .error e

/-- **`execute_operation`**, where `os` is what the operating system answers. -/
def executeOperation (os : Syscall → Except IoError ℕ) : IoResult := resultOf (os op.syscall)

end PendingOperation

/-! ### What the backend relies on -/

/-- `EPOLLIN`. -/
def epollIn : ℕ := 0x1

/-- `EPOLLOUT`. -/
def epollOut : ℕ := 0x4

/-- `EPOLLONESHOT`. -/
def epollOneshot : ℕ := 0x40000000

/-- `EEXIST`, the error number of a descriptor that is registered. -/
def eexist : ℕ := 17

/-- What a descriptor is registered with. -/
structure EpollEvent where
  /-- The conditions it is reported for. -/
  events : ℕ
  /-- The data it is reported with. -/
  u64 : ℕ
  deriving DecidableEq, Repr

/-- **What the backend relies on of an epoll instance**, as the kernel documents it. -/
structure Epoll where
  /-- The state of an instance. -/
  Instance : Type
  /-- What the kernel decides in a call. -/
  Choice : Type
  /-- A new instance, from `epoll_create1`. -/
  create : Instance
  /-- The descriptors registered, each with its data. -/
  registered : Instance → List (ℤ × ℕ)
  /-- `epoll_ctl` with `EPOLL_CTL_ADD`. -/
  add : Instance → ℤ → EpollEvent → Choice → Except IoError Unit × Instance
  /-- `epoll_wait` for a number of events and a time; `none` is a call that still waits. -/
  wait : Instance → ℕ → ℤ → Choice → Option (Except IoError (List EpollEvent) × Instance)
  /-- Nothing is registered with a new instance. -/
  registered_create : registered create = []
  /-- A descriptor that is registered cannot be added. -/
  add_registered : ∀ i fd event c, fd ∈ (registered i).map Prod.fst →
    add i fd event c = (.error (.os eexist), i)
  /-- Only a descriptor that is registered is refused for that. -/
  add_eexist : ∀ i fd event c, (add i fd event c).1 = .error (.os eexist) →
    fd ∈ (registered i).map Prod.fst
  /-- A descriptor added is registered with its data. -/
  add_ok : ∀ i fd event c, (add i fd event c).1 = .ok () →
    registered (add i fd event c).2 = registered i ++ [(fd, event.u64)]
  /-- A descriptor refused is not. -/
  add_error : ∀ i fd event c e, (add i fd event c).1 = .error e →
    registered (add i fd event c).2 = registered i
  /-- **Reporting a descriptor removes no registration.** -/
  wait_registered : ∀ i n t c a i', wait i n t c = some (a, i') → registered i' = registered i
  /-- What is reported is registered. -/
  wait_reports : ∀ i n t c events i', wait i n t c = some (.ok events, i') →
    ∀ event ∈ events, ∃ fd, (fd, event.u64) ∈ registered i

/-! ### The backend -/

variable {K : Epoll}

/-- **The state of the backend.** -/
structure EpollBackend (K : Epoll) where
  /-- The epoll instance. -/
  epoll : K.Instance
  /-- The operations that are not completed, by id. -/
  pendingOperations : HashMap PendingOperation

namespace EpollBackend

/-- A backend nothing was submitted to. -/
def new : EpollBackend K := ⟨K.create, ∅⟩

variable (self : EpollBackend K)

/-- What an operation waits for. -/
def eventsOf : OperationType → ℕ
  | .read | .readVectored | .recv => epollIn ||| epollOneshot
  | .write | .writeVectored | .send => epollOut ||| epollOneshot
  | .accept => epollIn ||| epollOneshot

/-- The operation kept of a submission. -/
def pendingOperation (request : Request) : PendingOperation :=
  ⟨request.opType, request.fd, request.offset, request.bufferPtr, request.bufferLen,
    request.userData⟩

/-- **`submit_operation`**: register the descriptor, and keep the operation. -/
def submitOperation (request : Request) (choice : K.Choice) :
    Except SaferRingError Unit × EpollBackend K :=
  match K.add self.epoll request.fd ⟨eventsOf request.opType, request.userData⟩ choice with
  | (.error e, epoll) => (.error (.io e), { self with epoll })
  | (.ok (), epoll) =>
    (.ok (), ⟨epoll, self.pendingOperations.insert request.userData (pendingOperation request)⟩)

/-- Execute the operations of the descriptors reported, and forget them. -/
def collect (os : Syscall → Except IoError ℕ) :
    HashMap PendingOperation → List EpollEvent → List (ℕ × IoResult) × HashMap PendingOperation
  | pending, [] => ([], pending)
  | pending, event :: rest =>
    match pending.lookup event.u64 with
    | some operation =>
      -- the registration of the descriptor is left to `EPOLLONESHOT`
      let (completed, pending) := collect os (pending.erase event.u64) rest
      ((event.u64, operation.executeOperation os) :: completed, pending)
    | none => collect os pending rest

/-- How many descriptors are reported at a time. -/
def maxEvents : ℕ := 64

/-- **`poll_completions`**; `none` is a call that still blocks. -/
def pollCompletions (timeout : ℤ) (choice : K.Choice) (os : Syscall → Except IoError ℕ) :
    Option (Except SaferRingError (List (ℕ × IoResult)) × EpollBackend K) :=
  match K.wait self.epoll maxEvents timeout choice with
  | none => none
  | some (.error e, epoll) => some (.error (.io e), { self with epoll })
  | some (.ok events, epoll) =>
    let (completed, pendingOperations) := collect os self.pendingOperations events
    some (.ok completed, ⟨epoll, pendingOperations⟩)

/-- `try_complete`. -/
def tryComplete (choice : K.Choice) (os : Syscall → Except IoError ℕ) :
    Option (Except SaferRingError (List (ℕ × IoResult)) × EpollBackend K) :=
  self.pollCompletions 0 choice os

/-- `wait_for_completion`. -/
def waitForCompletion (choice : K.Choice) (os : Syscall → Except IoError ℕ) :
    Option (Except SaferRingError (List (ℕ × IoResult)) × EpollBackend K) :=
  if self.pendingOperations.keys.isEmpty then
    some (.error (.ioNew .invalidInput "No operations to wait for"), self)
  else self.pollCompletions (-1) choice os

/-! ### Runs -/

/-- A call of the backend. -/
inductive Call (K : Epoll)
  /-- `submit_operation`. -/
  | submitOperation (request : Request) (choice : K.Choice)
  /-- `try_complete`. -/
  | tryComplete (choice : K.Choice) (os : Syscall → Except IoError ℕ)
  /-- `wait_for_completion`. -/
  | waitForCompletion (choice : K.Choice) (os : Syscall → Except IoError ℕ)

/-- What becomes of the backend; `none` is a call that still blocks. -/
def step : Call K → Option (EpollBackend K)
  | .submitOperation request choice => some (self.submitOperation request choice).2
  | .tryComplete choice os => (self.tryComplete choice os).map Prod.snd
  | .waitForCompletion choice os => (self.waitForCompletion choice os).map Prod.snd

/-- The step relation. -/
def Step (b : EpollBackend K) (call : Call K) (b' : EpollBackend K) : Prop := b.step call = some b'

/-- A descriptor is registered. -/
def Registered (fd : ℤ) : Prop := fd ∈ (K.registered self.epoll).map Prod.fst

/-- A descriptor has an operation that is not completed. -/
def HasPending (fd : ℤ) : Prop := ∃ id op, self.pendingOperations.lookup id = some op ∧ op.fd = fd

/-- **The two lists agree**: the descriptors registered are those of the operations pending,
and so one without can be submitted again. -/
structure InStep (b : EpollBackend K) : Prop where
  registered : ∀ fd, b.Registered fd ↔ b.HasPending fd
  again : ∀ request choice, ¬b.HasPending request.fd →
    (b.submitOperation request choice).1 ≠ .error (.io (.os eexist))

/-- **Nothing completes**: `epoll_wait` reports nothing, and no operation is accepted under the
id of one that is pending. -/
def Quiet (b : EpollBackend K) : Call K → Prop
  | .submitOperation request choice =>
    (K.add b.epoll request.fd ⟨eventsOf request.opType, request.userData⟩ choice).1 = .ok () →
      b.pendingOperations.lookup request.userData = none
  | .tryComplete choice _ => ∀ events epoll,
    K.wait b.epoll maxEvents 0 choice = some (.ok events, epoll) → events = []
  | .waitForCompletion choice _ => ∀ events epoll, b.pendingOperations.keys.isEmpty = false →
    K.wait b.epoll maxEvents (-1) choice = some (.ok events, epoll) → events = []

/-! ### What the calls do to the two lists -/

variable {self} {b b' : EpollBackend K} {request : Request} {choice : K.Choice}
variable {os : Syscall → Except IoError ℕ} {call : Call K}

/-- **What a submission can do**: be refused, and change neither list; or be accepted, and be
added to both. -/
theorem submitOperation_cases (b : EpollBackend K) (request : Request) (choice : K.Choice) :
    (∃ e epoll, b.submitOperation request choice = (.error (.io e), { b with epoll }) ∧
      (K.add b.epoll request.fd ⟨eventsOf request.opType, request.userData⟩ choice).1 = .error e ∧
      K.registered epoll = K.registered b.epoll) ∨
    ∃ epoll, b.submitOperation request choice = (.ok (), ⟨epoll,
        b.pendingOperations.insert request.userData (pendingOperation request)⟩) ∧
      (K.add b.epoll request.fd ⟨eventsOf request.opType, request.userData⟩ choice).1 = .ok () ∧
      ¬b.Registered request.fd ∧
      K.registered epoll = K.registered b.epoll ++ [(request.fd, request.userData)] := by
  let event : EpollEvent := ⟨eventsOf request.opType, request.userData⟩
  have hsub : b.submitOperation request choice =
      match K.add b.epoll request.fd event choice with
      | (.error e, epoll) => (.error (.io e), { b with epoll })
      | (.ok (), epoll) => (.ok (), ⟨epoll,
          b.pendingOperations.insert request.userData (pendingOperation request)⟩) := rfl
  rcases hadd : K.add b.epoll request.fd event choice with ⟨e | ⟨⟨⟩⟩, epoll⟩
  · refine Or.inl ⟨e, epoll, by rw [hsub, hadd], rfl, ?_⟩
    have herror := K.add_error b.epoll request.fd event choice e (by rw [hadd])
    rwa [hadd] at herror
  · refine Or.inr ⟨epoll, by rw [hsub, hadd], rfl, fun hreg => ?_, ?_⟩
    · have hrefused := K.add_registered b.epoll request.fd event choice hreg
      rw [hadd] at hrefused
      exact absurd (Prod.mk.inj hrefused).1 (by simp)
    · have hok := K.add_ok b.epoll request.fd event choice (by rw [hadd])
      rwa [hadd] at hok

/-- What is left once operations were executed: those that were not reported. -/
theorem lookup_collect {pending : HashMap PendingOperation} {events : List EpollEvent} {id : ℕ} :
    (collect os pending events).2.lookup id =
      if id ∈ events.map EpollEvent.u64 then none else pending.lookup id := by
  induction events generalizing pending with
  | nil => rfl
  | cons event rest ih =>
    have hmem : id ∈ (event :: rest).map EpollEvent.u64 ↔
        id = event.u64 ∨ id ∈ rest.map EpollEvent.u64 := List.mem_cons
    rw [collect]
    by_cases hrest : id ∈ rest.map EpollEvent.u64
    · rw [if_pos (hmem.mpr (Or.inr hrest))]
      rcases pending.lookup event.u64 with _ | op <;> simp only [ih, if_pos hrest]
    by_cases hid : id = event.u64
    · rw [if_pos (hmem.mpr (Or.inl hid))]
      subst hid
      rcases hl : pending.lookup event.u64 with _ | op
      · simp only [ih, if_neg hrest, hl]
      · simp only [ih, if_neg hrest]
        exact AList.lookup_erase ..
    · rw [if_neg fun hc => (hmem.mp hc).elim hid hrest]
      rcases pending.lookup event.u64 with _ | op
      · simp only [ih, if_neg hrest]
      · simp only [ih, if_neg hrest]
        exact AList.lookup_erase_ne hid

/-- **What a poll can do**: fail, and change neither list; or execute the operations
reported. -/
theorem pollCompletions_cases {timeout : ℤ}
    {a : Except SaferRingError (List (ℕ × IoResult))}
    (h : b.pollCompletions timeout choice os = some (a, b')) :
    K.registered b'.epoll = K.registered b.epoll ∧
      (b'.pendingOperations = b.pendingOperations ∧
          (∀ events epoll, K.wait b.epoll maxEvents timeout choice ≠ some (.ok events, epoll)) ∨
        ∃ events, K.wait b.epoll maxEvents timeout choice = some (.ok events, b'.epoll) ∧
          b'.pendingOperations = (collect os b.pendingOperations events).2) := by
  rcases hwait : K.wait b.epoll maxEvents timeout choice with _ | ⟨e | events, epoll⟩
  all_goals
    unfold pollCompletions at h
    rw [hwait] at h
  · exact absurd h (by simp)
  · obtain ⟨-, rfl⟩ := Prod.mk.inj (Option.some.inj h)
    exact ⟨K.wait_registered _ _ _ _ _ _ hwait, Or.inl ⟨rfl, fun _ _ hc => by simp at hc⟩⟩
  · obtain ⟨-, rfl⟩ := Prod.mk.inj (Option.some.inj h)
    exact ⟨K.wait_registered _ _ _ _ _ _ hwait, Or.inr ⟨events, rfl, rfl⟩⟩

/-! ### The two lists in step -/

/-- **Every registration is of a pending operation, and the other way round**, and no
descriptor is registered twice. -/
structure Paired (b : EpollBackend K) : Prop where
  nodup : ((K.registered b.epoll).map Prod.fst).Nodup
  paired : ∀ fd id, (fd, id) ∈ K.registered b.epoll ↔
    ∃ op, b.pendingOperations.lookup id = some op ∧ op.fd = fd

namespace Paired

theorem new : Paired (EpollBackend.new : EpollBackend K) := by
  have hnone : K.registered (EpollBackend.new : EpollBackend K).epoll = [] := K.registered_create
  refine ⟨by rw [hnone]; exact List.nodup_nil, fun fd id => ?_⟩
  rw [hnone]
  refine ⟨fun h => absurd h (by simp), ?_⟩
  rintro ⟨op, hop, -⟩
  exact absurd hop (by simp [EpollBackend.new])

/-- The two lists are what they were. -/
theorem of_eq (h : Paired b) (hreg : K.registered b'.epoll = K.registered b.epoll)
    (hpending : b'.pendingOperations = b.pendingOperations) : Paired b' := by
  refine ⟨by rw [hreg]; exact h.nodup, fun fd id => ?_⟩
  rw [hreg, hpending]
  exact h.paired fd id

/-- A descriptor is registered with one id. -/
theorem unique (h : Paired b) {fd : ℤ} {i j : ℕ} (hi : (fd, i) ∈ K.registered b.epoll)
    (hj : (fd, j) ∈ K.registered b.epoll) : i = j :=
  (Prod.mk.inj (List.inj_on_of_nodup_map h.nodup hi hj rfl)).2

/-- Descriptors that are paired agree. -/
theorem registered_iff_hasPending (h : Paired b) (fd : ℤ) : b.Registered fd ↔ b.HasPending fd := by
  constructor
  · intro hreg
    obtain ⟨⟨_, id⟩, hmem, rfl⟩ := List.mem_map.mp hreg
    exact ⟨id, (h.paired _ id).mp hmem⟩
  · rintro ⟨id, hop⟩
    exact List.mem_map.mpr ⟨(fd, id), (h.paired fd id).mpr hop, rfl⟩

theorem inStep (h : Paired b) : InStep b := by
  refine ⟨h.registered_iff_hasPending, fun request choice hnone hexist => hnone ?_⟩
  rcases b.submitOperation_cases request choice with ⟨e, epoll, hsub, hadd, -⟩ | ⟨_, hsub, -, -⟩
  · rw [hsub] at hexist
    obtain rfl : e = .os eexist := SaferRingError.io.inj (Except.error.inj hexist)
    exact (h.registered_iff_hasPending _).mp (K.add_eexist _ _ _ _ hadd)
  · rw [hsub] at hexist
    exact absurd hexist (by simp)

/-- A submission under a new id is added to both lists. -/
theorem submit (h : Paired b) (hquiet : Quiet b (.submitOperation request choice)) :
    Paired (b.submitOperation request choice).2 := by
  rcases b.submitOperation_cases request choice with
    ⟨e, epoll, hsub, -, hreg⟩ | ⟨epoll, hsub, hok, hnew, hreg⟩
  · rw [hsub]
    exact h.of_eq hreg rfl
  · rw [hsub]
    have hfresh : b.pendingOperations.lookup request.userData = none := hquiet hok
    refine ⟨?_, fun fd id => ?_⟩
    · rw [hreg, List.map_append]
      refine List.Nodup.append h.nodup (List.nodup_singleton _) ?_
      rintro fd hfd hone
      obtain rfl : fd = request.fd := List.mem_singleton.mp hone
      exact hnew hfd
    · rw [hreg, List.mem_append, List.mem_singleton, Prod.mk.injEq]
      by_cases hid : id = request.userData
      · rw [hid, AList.lookup_insert]
        constructor
        · rintro (hmem | ⟨rfl, -⟩)
          · obtain ⟨op, hop, -⟩ := (h.paired _ _).mp hmem
            exact absurd (hfresh.symm.trans hop) (by simp)
          · exact ⟨_, rfl, rfl⟩
        · rintro ⟨op, hop, rfl⟩
          obtain rfl := Option.some.inj hop
          exact Or.inr ⟨rfl, rfl⟩
      · rw [AList.lookup_insert_ne hid]
        constructor
        · rintro (hmem | ⟨-, hc⟩)
          · exact (h.paired _ _).mp hmem
          · exact absurd hc hid
        · exact fun hop => Or.inl ((h.paired _ _).mpr hop)

/-- A poll that reports nothing. -/
theorem poll {timeout : ℤ} {a : Except SaferRingError (List (ℕ × IoResult))} (h : Paired b)
    (hpoll : b.pollCompletions timeout choice os = some (a, b'))
    (hquiet : ∀ events epoll, K.wait b.epoll maxEvents timeout choice = some (.ok events, epoll) →
      events = []) : Paired b' := by
  obtain ⟨hreg, ⟨hpending, -⟩ | ⟨events, hwait, hpending⟩⟩ := pollCompletions_cases hpoll
  · exact h.of_eq hreg hpending
  · obtain rfl := hquiet events _ hwait
    exact h.of_eq hreg hpending

/-- **A quiet call keeps the two lists paired.** -/
theorem step (h : Paired b) (hstep : Step b call b') (hquiet : Quiet b call) : Paired b' := by
  cases call with
  | submitOperation request choice =>
    obtain rfl := Option.some.inj hstep
    exact h.submit hquiet
  | tryComplete choice os =>
    obtain ⟨⟨a, b''⟩, hpoll, rfl⟩ := Option.map_eq_some_iff.mp hstep
    exact h.poll hpoll hquiet
  | waitForCompletion choice os =>
    obtain ⟨⟨a, b''⟩, hpoll, rfl⟩ := Option.map_eq_some_iff.mp hstep
    unfold EpollBackend.waitForCompletion at hpoll
    rcases hempty : b.pendingOperations.keys.isEmpty with _ | _
    · rw [hempty] at hpoll
      exact h.poll hpoll fun events epoll => hquiet events epoll hempty
    · rw [hempty] at hpoll
      obtain ⟨-, rfl⟩ := Prod.mk.inj (Option.some.inj hpoll)
      exact h

/-- **An operation that completes leaves its descriptor registered.** -/
theorem not_inStep_poll {timeout : ℤ} {a : Except SaferRingError (List (ℕ × IoResult))}
    (h : Paired b) (hpoll : b.pollCompletions timeout choice os = some (a, b'))
    {events : List EpollEvent} {epoll : K.Instance}
    (hwait : K.wait b.epoll maxEvents timeout choice = some (.ok events, epoll))
    (hsome : events ≠ []) : ¬InStep b' := by
  obtain ⟨hreg, ⟨-, hnot⟩ | ⟨events', hwait', hpending⟩⟩ := pollCompletions_cases hpoll
  · exact absurd hwait (hnot events epoll)
  rw [hwait] at hwait'
  obtain rfl := Except.ok.inj (Prod.mk.inj (Option.some.inj hwait')).1
  obtain ⟨event, hevent⟩ := List.exists_mem_of_ne_nil events hsome
  obtain ⟨fd, hfd⟩ := K.wait_reports _ _ _ _ _ _ hwait event hevent
  intro hin
  have hthere : b'.Registered fd := by
    rw [Registered, hreg]
    exact List.mem_map.mpr ⟨_, hfd, rfl⟩
  -- what is pending on the descriptor was pending before, so it is the operation reported
  obtain ⟨id, op, hop, hopfd⟩ := (hin.registered fd).mp hthere
  rw [hpending, lookup_collect] at hop
  by_cases hid : id ∈ events.map EpollEvent.u64
  · rw [if_pos hid] at hop
    exact absurd hop (by simp)
  · rw [if_neg hid] at hop
    obtain rfl := h.unique ((h.paired fd id).mpr ⟨op, hop, hopfd⟩) hfd
    exact hid (List.mem_map_of_mem hevent)

/-- **An operation under an id in use takes the place of another**, whose descriptor stays
registered. -/
theorem not_inStep_submit (h : Paired b)
    (hloud : ¬Quiet b (.submitOperation request choice)) :
    ¬InStep (b.submitOperation request choice).2 := by
  simp only [Quiet, Classical.not_imp] at hloud
  obtain ⟨hok, hused⟩ := hloud
  rcases b.submitOperation_cases request choice with
    ⟨e, epoll, -, hadd, -⟩ | ⟨epoll, hsub, -, hnew, hreg⟩
  · exact absurd (hok.symm.trans hadd) (by simp)
  obtain ⟨old, hold⟩ := Option.ne_none_iff_exists'.mp hused
  have hmem : (old.fd, request.userData) ∈ K.registered b.epoll :=
    (h.paired _ _).mpr ⟨old, hold, rfl⟩
  rw [hsub]
  intro hin
  have hthere : (⟨epoll, b.pendingOperations.insert request.userData
      (pendingOperation request)⟩ : EpollBackend K).Registered old.fd := by
    rw [Registered, hreg, List.map_append]
    exact List.mem_append_left _ (List.mem_map.mpr ⟨_, hmem, rfl⟩)
  obtain ⟨id, op, hop, hopfd⟩ := (hin.registered old.fd).mp hthere
  by_cases hid : id = request.userData
  · rw [hid, AList.lookup_insert] at hop
    obtain rfl := Option.some.inj hop
    refine hnew (List.mem_map.mpr ⟨_, hmem, ?_⟩)
    exact hopfd.symm
  · rw [AList.lookup_insert_ne hid] at hop
    exact hid (h.unique ((h.paired _ _).mpr ⟨op, hop, hopfd⟩) hmem)

/-- A call that is not quiet leaves the lists apart. -/
theorem not_inStep (h : Paired b) (hstep : Step b call b') (hloud : ¬Quiet b call) :
    ¬InStep b' := by
  cases call with
  | submitOperation request choice =>
    obtain rfl := Option.some.inj hstep
    exact h.not_inStep_submit hloud
  | tryComplete choice os =>
    obtain ⟨⟨a, b''⟩, hpoll, rfl⟩ := Option.map_eq_some_iff.mp hstep
    simp only [Quiet, not_forall] at hloud
    obtain ⟨events, epoll, hwait, hsome⟩ := hloud
    exact h.not_inStep_poll hpoll hwait hsome
  | waitForCompletion choice os =>
    obtain ⟨⟨a, b''⟩, hpoll, rfl⟩ := Option.map_eq_some_iff.mp hstep
    simp only [Quiet, not_forall] at hloud
    obtain ⟨events, epoll, hempty, hwait, hsome⟩ := hloud
    unfold EpollBackend.waitForCompletion at hpoll
    rw [hempty] at hpoll
    exact h.not_inStep_poll hpoll hwait hsome

end Paired

/-- **The descriptors registered are those of the operations pending exactly as long as
nothing completes**: along every run of the backend. -/
theorem inStep_iff {ms : List (Transition.Move (EpollBackend K) (Call K))}
    (hrun : Transition.Run Step new ms b) :
    Transition.Always InStep new ms ↔ Transition.Guarded Quiet ms := by
  have hkeep : ∀ (s : EpollBackend K) call t, Step s call t → Quiet s call → Paired s →
      InStep s → Paired t ∧ InStep t := by
    intro s call t hstep hquiet h _
    have ht := h.step hstep hquiet
    exact ⟨ht, ht.inStep⟩
  have hbreak : ∀ (s : EpollBackend K) call t, Step s call t → ¬Quiet s call → Paired s →
      InStep s → ¬InStep t :=
    fun s call t hstep hloud h _ => h.not_inStep hstep hloud
  exact hrun.always_iff hkeep hbreak Paired.new Paired.new.inStep

end EpollBackend

/-! ### An instance, and two runs -/

/-- A registration. -/
structure Interest where
  /-- The descriptor. -/
  fd : ℤ
  /-- What it is registered with. -/
  event : EpollEvent
  /-- Whether it is reported. -/
  enabled : Bool
  deriving DecidableEq, Repr

/-- What the kernel does in a call. -/
structure Readiness where
  /-- The error it fails with. -/
  fails : Option IoError
  /-- The descriptors that are ready. -/
  ready : List ℤ
  /-- It does not make up that a descriptor is registered. -/
  honest : fails ≠ some (.os eexist)

/-- **A list of registrations is an epoll instance.** -/
def Epoll.interests : Epoll where
  Instance := List Interest
  Choice := Readiness
  create := []
  registered i := i.map fun interest => (interest.fd, interest.event.u64)
  add i fd event c :=
    if fd ∈ (i.map fun interest => (interest.fd, interest.event.u64)).map Prod.fst then
      (.error (.os eexist), i)
    else match c.fails with
      | some e => (.error e, i)
      | none => (.ok (), i ++ [⟨fd, event, true⟩])
  wait i n timeout c :=
    match c.fails with
    | some e => some (.error e, i)
    | none =>
      let reported := (i.filter fun interest =>
        interest.enabled && decide (interest.fd ∈ c.ready)).take n
      if reported.isEmpty && decide (timeout ≠ 0) then none
      else some (.ok (reported.map Interest.event),
        -- a registration with `EPOLLONESHOT` is disabled when it is reported
        i.map fun interest =>
          { interest with enabled := interest.enabled && !decide (interest ∈ reported) })
  registered_create := rfl
  add_registered i fd event c h := if_pos h
  add_eexist i fd event c h := by
    by_contra hnot
    rw [if_neg hnot] at h
    rcases hfails : c.fails with _ | e
    · rw [hfails] at h
      exact absurd h (by simp)
    · rw [hfails] at h
      exact c.honest (hfails.trans (congrArg some (Except.error.inj h)))
  add_ok i fd event c h := by
    by_cases hreg : fd ∈ (i.map fun interest => (interest.fd, interest.event.u64)).map Prod.fst
    · rw [if_pos hreg] at h
      exact absurd h (by simp)
    · rw [if_neg hreg] at h ⊢
      rcases hfails : c.fails with _ | e
      · exact List.map_append
      · rw [hfails] at h
        exact absurd h (by simp)
  add_error i fd event c e h := by
    by_cases hreg : fd ∈ (i.map fun interest => (interest.fd, interest.event.u64)).map Prod.fst
    · rw [if_pos hreg]
    · rw [if_neg hreg] at h ⊢
      rcases hfails : c.fails with _ | e
      · rw [hfails] at h
        exact absurd h (by simp)
      · rfl
  wait_registered i n t c a i' h := by
    split at h
    · obtain ⟨-, rfl⟩ := Prod.mk.inj (Option.some.inj h)
      rfl
    · obtain ⟨-, h⟩ := Option.ite_none_left_eq_some.mp h
      obtain ⟨-, rfl⟩ := Prod.mk.inj (Option.some.inj h)
      rw [List.map_map]
      rfl
  wait_reports i n t c events i' h event hevent := by
    split at h
    · exact absurd h (by simp)
    · obtain ⟨-, h⟩ := Option.ite_none_left_eq_some.mp h
      obtain ⟨heq, -⟩ := Prod.mk.inj (Option.some.inj h)
      obtain rfl := Except.ok.inj heq
      obtain ⟨interest, hmem, rfl⟩ := List.mem_map.mp hevent
      have hin : interest ∈ i := (List.mem_filter.mp (List.mem_of_mem_take hmem)).1
      exact ⟨interest.fd, List.mem_map.mpr ⟨interest, hin, rfl⟩⟩

namespace EpollBackend

/-- No descriptor is ready. -/
def idle : Readiness := ⟨none, [], by simp⟩

/-- The descriptor `3` is ready. -/
def threeReady : Readiness := ⟨none, [3], by simp⟩

/-- A receive on the descriptor `3`. -/
def receive (id : ℕ) : Request := ⟨.recv, 3, 0, some 4096, 8, id, .legacy⟩

/-- A receive is submitted, and completes. -/
def received : List (Call .interests) :=
  [.submitOperation (receive 1) idle, .tryComplete threeReady fun _ => .ok 8]

/-- **Its descriptor stays registered, and cannot be submitted again.** -/
theorem not_inStep_received :
    ∃ (ms : List (Transition.Move (EpollBackend .interests) (Call .interests)))
      (b : EpollBackend .interests), Transition.Run Step new ms b ∧
        ms.map Transition.Move.label = received ∧
        (b.submitOperation (receive 2) idle).1 = .error (.io (.os eexist)) ∧ ¬InStep b := by
  let b₁ : EpollBackend .interests := (new.submitOperation (receive 1) idle).2
  let b₂ : EpollBackend .interests :=
    ⟨([⟨3, ⟨epollIn ||| epollOneshot, 1⟩, false⟩] : List Interest), ∅⟩
  have hsubmit : Step new (.submitOperation (receive 1) idle) b₁ := rfl
  have htake : Step b₁ (.tryComplete threeReady fun _ => .ok 8) b₂ := rfl
  refine ⟨_, b₂, (Transition.Run.single hsubmit).snoc htake, rfl, rfl, fun hin => ?_⟩
  refine hin.again (receive 2) idle ?_ rfl
  rintro ⟨id, op, hop, -⟩
  exact absurd hop (by simp [b₂])

/-- A receive is submitted, and polled while its descriptor is not ready. -/
def unready : List (Call .interests) :=
  [.submitOperation (receive 1) idle, .tryComplete idle fun _ => .ok 8]

/-- In that run the two lists agree. -/
theorem inStep_unready :
    ∃ (ms : List (Transition.Move (EpollBackend .interests) (Call .interests)))
      (b : EpollBackend .interests), Transition.Run Step new ms b ∧
        ms.map Transition.Move.label = unready ∧ Transition.Always InStep new ms := by
  let b₁ : EpollBackend .interests := (new.submitOperation (receive 1) idle).2
  have hsubmit : Step new (.submitOperation (receive 1) idle) b₁ := rfl
  have hpoll : Step b₁ (.tryComplete idle fun _ => .ok 8) b₁ := rfl
  have hrun := (Transition.Run.single hsubmit).snoc hpoll
  refine ⟨_, b₁, hrun, rfl, (inStep_iff hrun).mpr fun m hm => ?_⟩
  rcases List.mem_append.mp hm with hm | hm
  · rw [List.mem_singleton.mp hm]
    exact fun _ => rfl
  · rw [List.mem_singleton.mp hm]
    intro events epoll hwait
    exact (Except.ok.inj (Prod.mk.inj (Option.some.inj hwait)).1).symm

end EpollBackend

end SaferRing
