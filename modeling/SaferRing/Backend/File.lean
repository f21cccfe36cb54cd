import SaferRing.Backend.Epoll
import SaferRing.Backend.IoUring

/-!
# Reads and writes of a regular file, on the two backends

A read or a write reaches a regular file by two ways: the epoll backend makes a system call
(`SaferRing.viaEpoll`), and the io_uring backend queues an entry (`SaferRing.viaIoUring`).
How much of a transfer is made at once is for the kernel to say (`SaferRing.Kernel`); the
rest is what POSIX says of the calls, and the kernel of an entry: its offset is a position
of the file, but for `-1`, which is the current one.

The epoll backend takes the offset `0` for no offset, and `SaferRing.agree_iff` is what
follows: where the two ways do the same, and where not.
-/

namespace SaferRing

/-! ### A file and its kernel -/

/-- A regular file that is open. -/
structure OpenFile where
  /-- Its bytes. -/
  content : List UInt8
  /-- The position reads and writes without an offset start from. -/
  position : ℕ
  deriving DecidableEq, Repr

/-- Which way bytes go. -/
inductive Direction
  /-- From the file to the buffer. -/
  | read
  /-- From the buffer to the file. -/
  | write
  deriving DecidableEq, Repr

/-- **There is nothing to transfer**: no byte is asked for, or the file ends before. -/
def Idle (direction : Direction) (content : List UInt8) (start len : ℕ) : Prop :=
  len = 0 ∨ direction = .read ∧ content.length ≤ start

/-- **What POSIX leaves to the kernel**: how many bytes a transfer moves, of a number that is
asked for. It may be fewer, but not none. -/
structure Kernel where
  /-- The number of bytes moved, of `len` from `start` on. -/
  amount : Direction → List UInt8 → ℕ → ℕ → ℕ
  amount_le : ∀ direction content start len, amount direction content start len ≤ len
  read_le : ∀ content start len, amount .read content start len ≤ content.length - start
  /-- The most the kernel moves at a time. -/
  amount_cap : ∀ direction content start len, amount direction content start len ≤ 0x7ffff000
  progress : ∀ direction content start len, ¬Idle direction content start len →
    0 < amount direction content start len

/-- What is done to a file and a buffer. -/
structure Access where
  /-- The positions of the file that are accessed. -/
  range : List ℕ
  /-- The bytes transferred. -/
  bytes : List UInt8
  /-- The file. -/
  file : OpenFile
  /-- The buffer. -/
  buffer : List UInt8
  deriving DecidableEq, Repr

/-- The error number of an invalid argument. -/
def einval : ℕ := 22

/-- The error number of a socket call on what is no socket. -/
def enotsock : ℕ := 88

/-- Write bytes over a file; what is skipped at its end becomes zero. -/
def overwrite (content : List UInt8) (start : ℕ) (bytes : List UInt8) : List UInt8 :=
  if bytes.isEmpty then content
  else (content ++ List.replicate (start - content.length) 0).take start ++ bytes ++
    content.drop (start + bytes.length)

namespace OpenFile

variable (self : OpenFile) (buffer : List UInt8)

/-- Nothing is done. -/
def untouched : Access := ⟨[], [], self, buffer⟩

/-- **Move `n` bytes** between the buffer and the file, from `start` on. -/
def move (direction : Direction) (start n : ℕ) : Access :=
  match direction with
  | .read =>
    let bytes := (self.content.drop start).take n
    ⟨List.range' start n, bytes, self, bytes ++ buffer.drop n⟩
  | .write =>
    let bytes := buffer.take n
    ⟨List.range' start n, bytes, { self with content := overwrite self.content start bytes },
      buffer⟩

/-- Move bytes from the position of the file on, and move the position with them. -/
def moveHere (direction : Direction) (n : ℕ) : Access :=
  let access := self.move buffer direction self.position n
  { access with file := { access.file with position := self.position + n } }

end OpenFile

namespace Kernel

variable (K : Kernel) (file : OpenFile) (buffer : List UInt8)

/-- A transfer at an offset. -/
def positioned (direction : Direction) (start len : ℕ) : ℕ × Access :=
  let n := K.amount direction file.content start len
  (n, file.move buffer direction start n)

/-- A transfer at the position of the file. -/
def sequential (direction : Direction) (len : ℕ) : ℕ × Access :=
  let n := K.amount direction file.content file.position len
  (n, file.moveHere buffer direction n)

/-- A transfer at an offset, as a system call answers it. -/
def positionedCall (direction : Direction) (len : ℕ) (offset : ℤ) : Except IoError ℕ × Access :=
  if offset < 0 then (.error (.os einval), file.untouched buffer)
  else (K.positioned file buffer direction offset.toNat len).map .ok id

/-- **What a system call does to a regular file.** -/
def syscall : Syscall → Except IoError ℕ × Access
  | .read _ _ len => (K.sequential file buffer .read len).map .ok id
  | .pread _ _ len offset => K.positionedCall file buffer .read len offset
  | .write _ _ len => (K.sequential file buffer .write len).map .ok id
  | .pwrite _ _ len offset => K.positionedCall file buffer .write len offset
  | .recv .. | .send .. | .accept .. => (.error (.os enotsock), file.untouched buffer)

/-- The offset of an entry that means the position of the file, `-1`. -/
def noOffset : ℕ := 2 ^ 64 - 1

/-- What an entry with an offset does. -/
def atOffset (direction : Direction) (len offset : ℕ) : ℤ × Access :=
  if offset = noOffset then (K.sequential file buffer direction len).map Int.ofNat id
  else if asOffT offset < 0 then (-einval, file.untouched buffer)
  else (K.positioned file buffer direction offset len).map Int.ofNat id

/-- **What an entry does to a regular file**, with the result of its completion. -/
def execute : Opcode → ℤ × Access
  | .read _ _ len offset => K.atOffset file buffer .read len offset
  | .write _ _ len offset => K.atOffset file buffer .write len offset
  | .accept .. | .send .. | .recv .. => (-enotsock, file.untouched buffer)

end Kernel

/-! ### The two ways -/

section Ways

variable (K : Kernel) (file : OpenFile) (buffer : List UInt8) (request : Request)

/-- **An operation on the epoll backend**, once its descriptor is ready. -/
def viaEpoll : IoResult × Access :=
  let op := EpollBackend.pendingOperation request
  (op.executeOperation fun call => (K.syscall file buffer call).1,
    (K.syscall file buffer op.syscall).2)

/-- **An operation on the io_uring backend**, with the entry it is queued as. -/
def viaIoUring (entry : Entry) : IoResult × Access :=
  let (result, access) := K.execute file buffer entry.opcode
  (IoUringBackend.resultOf ⟨entry.userData, result⟩, access)

/-- **The two ways agree**: they return the same count, or none, and do the same to the file
and to the buffer. -/
def Agree : Prop :=
  ∀ entry, request.toEntry = .ok entry →
    (viaEpoll K file buffer request).1.toOption =
      (viaIoUring K file buffer entry).1.toOption ∧
    (viaEpoll K file buffer request).2 = (viaIoUring K file buffer entry).2

/-- The way bytes go in an operation. -/
def Request.direction : Direction :=
  match request.opType with
  | .write => .write
  | _ => .read

/-- **Where the two ways agree.** At the offset `0` only when there is nothing to transfer;
at a position of the file when the kernel moves as much of the length as of what an entry
carries of it, as it does of a length of 32 bits; at no position, unless it is `-1`. -/
def SameTransfer : Prop :=
  if request.offset = 0 then
    Idle request.direction file.content file.position request.bufferLen ∧
      Idle request.direction file.content 0 (asU32 request.bufferLen)
  else if request.offset < 2 ^ 63 then
    K.amount request.direction file.content request.offset request.bufferLen =
      K.amount request.direction file.content request.offset (asU32 request.bufferLen)
  else request.offset ≠ Kernel.noOffset

end Ways

/-! ### Casts -/

/-- A small number stays what it is. -/
theorem asSigned_of_lt {bits n : ℕ} (hbits : 0 < bits) (h : n < 2 ^ (bits - 1)) :
    asSigned bits n = n := by
  have hlt : n < 2 ^ bits := h.trans (Nat.pow_lt_pow_right (by omega) (by omega))
  rw [asSigned, Nat.mod_eq_of_lt hlt, if_pos h]

/-- A large one becomes negative. -/
theorem asSigned_neg {bits n : ℕ} (h : 2 ^ (bits - 1) ≤ n) (h' : n < 2 ^ bits) :
    asSigned bits n < 0 := by
  rw [asSigned, Nat.mod_eq_of_lt h', if_neg (Nat.not_lt.mpr h)]
  have hcast : (n : ℤ) < 2 ^ bits := by exact_mod_cast h'
  omega

theorem asOffT_of_lt {n : ℕ} (h : n < 2 ^ 63) : asOffT n = n :=
  asSigned_of_lt (by omega) h

theorem asOffT_neg {n : ℕ} (h : 2 ^ 63 ≤ n) (h' : n < 2 ^ 64) : asOffT n < 0 :=
  asSigned_neg h h'

/-- A count the kernel returns is returned as it is. -/
theorem resultOf_ok {n : ℕ} (h : n ≤ 0x7ffff000) : PendingOperation.resultOf (.ok n) = .ok n := by
  have hcast : asI32 n = n := asSigned_of_lt (by omega) (by omega)
  rw [PendingOperation.resultOf, hcast]

/-! ### What each way does -/

section Agree

variable {K : Kernel} {file : OpenFile} {buffer : List UInt8} {request : Request}

/-- To move no byte is to do nothing. -/
theorem move_zero {direction : Direction} {start : ℕ} :
    file.move buffer direction start 0 = file.untouched buffer := by
  cases direction with
  | read => simp [OpenFile.move, OpenFile.untouched]
  | write => simp [OpenFile.move, OpenFile.untouched, overwrite]

theorem moveHere_zero {direction : Direction} :
    file.moveHere buffer direction 0 = file.untouched buffer := by
  rw [OpenFile.moveHere, move_zero]
  rfl

/-- Moving bytes leaves the position of the file alone. -/
theorem position_move {direction : Direction} {start n : ℕ} :
    (file.move buffer direction start n).file.position = file.position := by
  cases direction <;> rfl

theorem position_moveHere {direction : Direction} {n : ℕ} :
    (file.moveHere buffer direction n).file.position = file.position + n := rfl

/-- Where there is nothing to transfer, no byte is moved. -/
theorem Kernel.amount_eq_zero {direction : Direction} {content : List UInt8} {start len : ℕ} :
    K.amount direction content start len = 0 ↔ Idle direction content start len := by
  constructor
  · intro hzero
    by_contra hidle
    have hpos := K.progress direction content start len hidle
    omega
  · rintro (rfl | ⟨rfl, hend⟩)
    · exact Nat.le_zero.mp (K.amount_le direction content start 0)
    · have hle := K.read_le content start len
      omega

/-- **The system call of a read or a write**: at the offset, or, when that is `0`, at the
position of the file. -/
theorem syscall_eq (K : Kernel) (file : OpenFile) (buffer : List UInt8)
    (htype : request.opType = .read ∨ request.opType = .write) :
    K.syscall file buffer (EpollBackend.pendingOperation request).syscall =
      if request.offset > 0 then K.positionedCall file buffer request.direction
        request.bufferLen (asOffT request.offset)
      else (K.sequential file buffer request.direction request.bufferLen).map .ok id := by
  by_cases hoffset : request.offset > 0
  all_goals
    rcases htype with htype | htype
    all_goals
      simp only [PendingOperation.syscall, PendingOperation.readCall, PendingOperation.writeCall,
        EpollBackend.pendingOperation, Request.direction, htype, hoffset, if_true, if_false]
      rfl

/-- **An entry of a read or a write**: at its offset, with its length cut to 32 bits. -/
theorem execute_eq (K : Kernel) (file : OpenFile) (buffer : List UInt8)
    (htype : request.opType = .read ∨ request.opType = .write) {entry : Entry}
    (hentry : request.toEntry = .ok entry) :
    K.execute file buffer entry.opcode =
      K.atOffset file buffer request.direction (asU32 request.bufferLen) request.offset := by
  rcases htype with htype | htype
  all_goals
    rw [Request.toEntry, htype] at hentry
    obtain rfl := Except.ok.inj hentry
    rw [Request.direction, htype]
    rfl

/-- A count is returned by an entry as it is. -/
theorem resultOf_count (id n : ℕ) : IoUringBackend.resultOf ⟨id, Int.ofNat n⟩ = .ok n := by
  rw [IoUringBackend.resultOf, if_neg (by simp)]
  rfl

/-- On the epoll backend the offset `0` is no offset. -/
theorem viaEpoll_zero (htype : request.opType = .read ∨ request.opType = .write)
    (h : request.offset = 0) :
    viaEpoll K file buffer request =
      (.ok (K.amount request.direction file.content file.position request.bufferLen),
        file.moveHere buffer request.direction
          (K.amount request.direction file.content file.position request.bufferLen)) := by
  have hcall := syscall_eq K file buffer htype
  rw [if_neg (by omega)] at hcall
  unfold viaEpoll PendingOperation.executeOperation
  simp only [hcall]
  exact Prod.ext (resultOf_ok (K.amount_cap _ _ _ _)) rfl

/-- On the epoll backend another offset is a position of the file. -/
theorem viaEpoll_of_lt (htype : request.opType = .read ∨ request.opType = .write)
    (hpos : 0 < request.offset) (hlt : request.offset < 2 ^ 63) :
    viaEpoll K file buffer request =
      (.ok (K.amount request.direction file.content request.offset request.bufferLen),
        file.move buffer request.direction request.offset
          (K.amount request.direction file.content request.offset request.bufferLen)) := by
  have hcall := syscall_eq K file buffer htype
  rw [if_pos hpos, asOffT_of_lt hlt, Kernel.positionedCall, if_neg (by omega)] at hcall
  unfold viaEpoll PendingOperation.executeOperation
  simp only [hcall]
  exact Prod.ext (resultOf_ok (K.amount_cap _ _ _ _)) rfl

/-- On the epoll backend an offset that is no position is refused. -/
theorem viaEpoll_of_ge (htype : request.opType = .read ∨ request.opType = .write)
    (hge : 2 ^ 63 ≤ request.offset) (hlt : request.offset < 2 ^ 64) :
    viaEpoll K file buffer request = (.error (.os einval), file.untouched buffer) := by
  have hcall := syscall_eq K file buffer htype
  rw [if_pos (by omega), Kernel.positionedCall, if_pos (asOffT_neg hge hlt)] at hcall
  unfold viaEpoll PendingOperation.executeOperation
  simp only [hcall]
  rfl

variable {entry : Entry}

/-- On the io_uring backend an offset is a position of the file. -/
theorem viaIoUring_of_lt (htype : request.opType = .read ∨ request.opType = .write)
    (hentry : request.toEntry = .ok entry) (hlt : request.offset < 2 ^ 63) :
    viaIoUring K file buffer entry =
      (.ok (K.amount request.direction file.content request.offset (asU32 request.bufferLen)),
        file.move buffer request.direction request.offset
          (K.amount request.direction file.content request.offset
            (asU32 request.bufferLen))) := by
  have hdo := execute_eq K file buffer htype hentry
  have hoff : request.offset ≠ Kernel.noOffset := by
    rw [Kernel.noOffset]
    omega
  rw [Kernel.atOffset, if_neg hoff, asOffT_of_lt hlt, if_neg (by omega)] at hdo
  unfold viaIoUring
  rw [hdo]
  exact Prod.ext (resultOf_count _ _) rfl

/-- On the io_uring backend an offset that is no position is refused, but for `-1`. -/
theorem viaIoUring_of_ge (htype : request.opType = .read ∨ request.opType = .write)
    (hentry : request.toEntry = .ok entry) (hge : 2 ^ 63 ≤ request.offset)
    (hlt : request.offset < 2 ^ 64) (hoff : request.offset ≠ Kernel.noOffset) :
    viaIoUring K file buffer entry = (.error (.os einval), file.untouched buffer) := by
  have hdo := execute_eq K file buffer htype hentry
  rw [Kernel.atOffset, if_neg hoff, if_pos (asOffT_neg hge hlt)] at hdo
  unfold viaIoUring
  rw [hdo]
  rfl

/-- On the io_uring backend the offset `-1` is the position of the file. -/
theorem viaIoUring_noOffset (htype : request.opType = .read ∨ request.opType = .write)
    (hentry : request.toEntry = .ok entry) (hoff : request.offset = Kernel.noOffset) :
    (viaIoUring K file buffer entry).1 =
      .ok (K.amount request.direction file.content file.position (asU32 request.bufferLen)) := by
  have hdo := execute_eq K file buffer htype hentry
  rw [Kernel.atOffset, if_pos hoff] at hdo
  unfold viaIoUring
  rw [hdo]
  exact resultOf_count _ _

/-- A read or a write has an entry. -/
theorem exists_toEntry (htype : request.opType = .read ∨ request.opType = .write) :
    ∃ entry, request.toEntry = .ok entry := by
  rcases request.toEntry_cases with ⟨hvec, -⟩ | ⟨-, entry, hentry, -⟩
  · rcases htype with htype | htype <;> simp [htype, OperationType.isVectored] at hvec
  · exact ⟨entry, hentry⟩

/-- **The two ways agree exactly where they transfer the same.** -/
theorem agree_iff (htype : request.opType = .read ∨ request.opType = .write)
    (hoffset : request.offset < 2 ^ 64) :
    Agree K file buffer request ↔ SameTransfer K file request := by
  obtain ⟨entry, hentry⟩ := exists_toEntry htype
  have hone : Agree K file buffer request ↔
      (viaEpoll K file buffer request).1.toOption =
        (viaIoUring K file buffer entry).1.toOption ∧
      (viaEpoll K file buffer request).2 = (viaIoUring K file buffer entry).2 := by
    refine ⟨fun h => h entry hentry, fun h entry' hentry' => ?_⟩
    rwa [Except.ok.inj (hentry'.symm.trans hentry)]
  rw [hone, SameTransfer]
  by_cases hzero : request.offset = 0
  · rw [if_pos hzero, viaEpoll_zero htype hzero, viaIoUring_of_lt htype hentry (by omega), hzero,
      ← K.amount_eq_zero, ← K.amount_eq_zero]
    constructor
    · rintro ⟨hcount, haccess⟩
      have hcount := Int.ofNat.inj (Option.some.inj hcount)
      -- the position moves on the one way, and stays on the other
      have hposition := congrArg (fun access => access.file.position) haccess
      rw [position_moveHere, position_move] at hposition
      exact ⟨by omega, by omega⟩
    · rintro ⟨hhere, hthere⟩
      rw [hhere, hthere, moveHere_zero, move_zero]
      exact ⟨rfl, rfl⟩
  rw [if_neg hzero]
  by_cases hlt : request.offset < 2 ^ 63
  · rw [if_pos hlt, viaEpoll_of_lt htype (by omega) hlt, viaIoUring_of_lt htype hentry hlt]
    constructor
    · exact fun h => Int.ofNat.inj (Option.some.inj h.1)
    · intro h
      rw [h]
      exact ⟨rfl, rfl⟩
  rw [if_neg hlt, viaEpoll_of_ge htype (by omega) hoffset]
  by_cases hnone : request.offset = Kernel.noOffset
  · refine ⟨fun h => ?_, fun h => absurd hnone h⟩
    rw [viaIoUring_noOffset htype hentry hnone] at h
    exact absurd h.1 (by simp [Except.toOption])
  · rw [viaIoUring_of_ge htype hentry (by omega) hoffset hnone]
    exact ⟨fun _ => hnone, fun _ => ⟨rfl, rfl⟩⟩

end Agree

/-! ### A kernel, and two reads -/

/-- **The kernel that moves as much as there is**, up to its cap. -/
def Kernel.full : Kernel where
  amount direction content start len :=
    match direction with
    | .read => min (min len 0x7ffff000) (content.length - start)
    | .write => min len 0x7ffff000
  amount_le direction content start len := by
    cases direction <;> simp only <;> omega
  read_le content start len := Nat.min_le_right _ _
  amount_cap direction content start len := by
    cases direction <;> simp only <;> omega
  progress direction content start len hidle := by
    obtain ⟨hlen, hread⟩ := not_or.mp hidle
    cases direction with
    | read =>
      have hend : ¬content.length ≤ start := fun h => hread ⟨rfl, h⟩
      simp only
      omega
    | write =>
      simp only
      omega

/-- A file of four bytes, at its middle. -/
def fourBytes : OpenFile := ⟨[1, 2, 3, 4], 2⟩

/-- A read of two bytes at an offset. -/
def readAt (offset : ℕ) : Request := ⟨.read, 3, offset, some 4096, 2, 1, .legacy⟩

/-- **At the offset `0` the epoll backend reads on from where the file is**, and the io_uring
backend from its start. -/
theorem not_agree_readAtZero :
    viaEpoll .full fourBytes [0, 0] (readAt 0) =
      (.ok 2, ⟨[2, 3], [3, 4], ⟨[1, 2, 3, 4], 4⟩, [3, 4]⟩) ∧
    viaIoUring .full fourBytes [0, 0] ⟨.read 3 (some 4096) 2 0, 1⟩ =
      (.ok 2, ⟨[0, 1], [1, 2], ⟨[1, 2, 3, 4], 2⟩, [1, 2]⟩) ∧
    ¬Agree .full fourBytes [0, 0] (readAt 0) := by
  refine ⟨rfl, rfl, fun h => ?_⟩
  obtain ⟨-, haccess⟩ := h ⟨.read 3 (some 4096) 2 0, 1⟩ rfl
  exact absurd (congrArg Access.bytes haccess) (by decide)

/-- At the offset `1` they read the same. -/
theorem agree_readAtOne : Agree .full fourBytes [0, 0] (readAt 1) :=
  (agree_iff (Or.inl rfl) (by decide)).mpr (by
    rw [SameTransfer, if_neg (by decide), if_pos (by decide)]
    rfl)

/-! ### One operation after the other -/

section Sequence

variable (K : Kernel)

/-- Operations on one file, one after the other, on the epoll backend: the counts, and what
was accessed. -/
def runEpoll : OpenFile → List (Request × List UInt8) → List (Option ℤ × Access)
  | _, [] => []
  | file, (request, buffer) :: rest =>
    let (result, access) := viaEpoll K file buffer request
    (result.toOption, access) :: runEpoll access.file rest

/-- The same on the io_uring backend; an operation without an entry does nothing. -/
def runIoUring : OpenFile → List (Request × List UInt8) → List (Option ℤ × Access)
  | _, [] => []
  | file, (request, buffer) :: rest =>
    match request.toEntry with
    | .error _ => (none, file.untouched buffer) :: runIoUring file rest
    | .ok entry =>
      let (result, access) := viaIoUring K file buffer entry
      (result.toOption, access) :: runIoUring access.file rest

variable {K}

/-- **Reads and writes at positions other than `0`, of lengths of 32 bits, are the same on both
backends**, however many there are. -/
theorem runEpoll_eq_runIoUring {operations : List (Request × List UInt8)}
    (h : ∀ op ∈ operations, (op.1.opType = .read ∨ op.1.opType = .write) ∧
      0 < op.1.offset ∧ op.1.offset < 2 ^ 63 ∧ op.1.bufferLen < 2 ^ 32) (file : OpenFile) :
    runEpoll K file operations = runIoUring K file operations := by
  induction operations generalizing file with
  | nil => rfl
  | cons op rest ih =>
    obtain ⟨request, buffer⟩ := op
    obtain ⟨⟨htype, hpos, hlt, hlen⟩, hrest⟩ := List.forall_mem_cons.mp h
    obtain ⟨entry, hentry⟩ := exists_toEntry htype
    have hsame : viaEpoll K file buffer request = viaIoUring K file buffer entry := by
      rw [viaEpoll_of_lt htype hpos hlt, viaIoUring_of_lt htype hentry hlt, asU32,
        Nat.mod_eq_of_lt hlen]
    rw [runEpoll, runIoUring, hentry, hsame]
    exact congrArg (_ :: ·) (ih hrest _)

end Sequence

end SaferRing
