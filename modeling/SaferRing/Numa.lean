import Mathlib.Data.Finset.Insert
import Mathlib.Data.Finset.Lattice.Basic
import Mathlib.Data.List.DropRight
import SaferRing.Allocation
import SaferRing.CpuList
import SaferRing.Library.Run

/-!
# Buffers on a node

A buffer is put on a NUMA node by binding the thread to the processors of the node
(`SaferRing.setNumaAffinity`) while it is allocated, and releasing the thread again
(`SaferRing.tryNumaAllocation`). Whatever goes wrong on the way, the buffer is allocated as any
other one is (`SaferRing.allocateNumaBuffer_eq`).

The thread is not always released: the system call that does it may fail, and an allocation that
panics leaves the thread bound. `SaferRing.Thread.affinity_exact` is that **a thread runs where it
did before, all along its allocations, exactly when neither happens while it is bound** to
something else.
-/

namespace SaferRing

/-! ### Threads -/

/-- **A set of processors**, of those `cpu_set_t` has a bit for. -/
abbrev CpuSet : Type := Finset (Fin 1024)

/-- **A thread**, by the processors it may run on. -/
structure Thread where
  /-- The processors it is bound to. -/
  affinity : CpuSet
  /-- The processors it can be bound to. -/
  allowed : CpuSet
  /-- It is bound to none but those. -/
  affinity_subset : affinity ⊆ allowed
  /-- It can run. -/
  affinity_nonempty : affinity.Nonempty

namespace Thread

variable (self : Thread)

/-- `sched_getaffinity`, which may fail with an error number. -/
def schedGetaffinity (fault : Option ℕ) : Except IoError CpuSet :=
  match fault with
  | some code => .error (.os code)
  | none => .ok self.affinity

/-- **`sched_setaffinity`**: bind the thread to those of the processors that it can be bound to.
If there are none of them, the arguments are invalid. -/
def schedSetaffinity (fault : Option ℕ) (cpuSet : CpuSet) : Except IoError Unit × Thread :=
  match fault with
  | some code => (.error (.os code), self)
  | none =>
    if h : (cpuSet ∩ self.allowed).Nonempty then
      (.ok (), ⟨cpuSet ∩ self.allowed, self.allowed, Finset.inter_subset_right, h⟩)
    else (.error (.os 22), self)

variable {self}

/-- **A thread is bound again to where it was.** -/
theorem affinity_schedSetaffinity_of_subset {cpuSet : CpuSet} (hsubset : cpuSet ⊆ self.allowed)
    (hnonempty : cpuSet.Nonempty) : (self.schedSetaffinity none cpuSet).2.affinity = cpuSet := by
  have hinter : cpuSet ∩ self.allowed = cpuSet := Finset.inter_eq_left.mpr hsubset
  have h : (cpuSet ∩ self.allowed).Nonempty := by rwa [hinter]
  rw [schedSetaffinity, dif_pos h]
  exact hinter

end Thread

/-! ### The processors of a node -/

/-- **The files of the system**: what there is, what is in it, and how many entries a directory
has. -/
structure FileSystem where
  /-- Whether there is something at a path. -/
  pathExists : String → Bool
  /-- What is in a file. -/
  readToString : String → Except IoError String
  /-- How many entries are in a directory. -/
  readDir : String → Except IoError ℕ

/-- White space. -/
def isWhitespace (c : Char) : Bool :=
  c ∈ ['\t', '\n', '\x0b', '\x0c', '\r', ' ', '\u0085', '\u00a0', '\u1680', '\u2028', '\u2029',
    '\u202f', '\u205f', '\u3000'] || '\u2000' ≤ c && c ≤ '\u200a'

/-- A text without the white space around it. -/
def trim (text : String) : String :=
  .ofList ((text.toList.dropWhile isWhitespace).rdropWhile isWhitespace)

/-- There is more than one node. -/
def isNumaAvailable (fs : FileSystem) : Bool :=
  fs.pathExists "/sys/devices/system/node" &&
    match fs.readDir "/sys/devices/system/node" with
    | .ok count => decide (count > 1)
    | .error _ => false

/-- **The processors of a node**, as the system tells them. -/
def getNumaNodeCpus (fs : FileSystem) (node : ℕ) : Except IoError (List ℕ) :=
  let path := s!"/sys/devices/system/node/node{node}/cpulist"
  if fs.pathExists path then
    match fs.readToString path with
    | .ok cpulist => parseCpuList (trim cpulist)
    | .error e => .error e
  else .error (.new .notFound s!"NUMA node {node} not found")

/-- The bits of processors, of those that have one. -/
def cpuSetOf (cpus : List ℕ) : CpuSet :=
  cpus.foldl (fun cpuSet cpu => if h : cpu < 1024 then insert ⟨cpu, h⟩ cpuSet else cpuSet) ∅

/-- **Bind a thread to the processors of a node.** -/
def setNumaAffinity (fs : FileSystem) (thread : Thread) (fault : Option ℕ) (node : ℕ) :
    Except IoError Unit × Thread :=
  match getNumaNodeCpus fs node with
  | .error e => (.error e, thread)
  | .ok cpus =>
    if cpus = [] then
      (.error (.new .invalidInput s!"No CPUs found for NUMA node {node}"), thread)
    else thread.schedSetaffinity fault (cpuSetOf cpus)

/-! ### Allocation -/

/-- **How the system answers** an allocation on a node: the error numbers of its calls, if they
fail, and where it puts the memory. -/
structure NumaAnswers where
  /-- Of the call that reads the affinity. -/
  get : Option ℕ
  /-- Of the call that binds the thread. -/
  bind : Option ℕ
  /-- Of the allocation. -/
  alloc : Option ℕ
  /-- Of the call that releases the thread. -/
  release : Option ℕ

/-- **Allocate a buffer with the thread bound** to the processors of a node. A panic leaves the
thread as it is then. -/
def tryNumaAllocation (fs : FileSystem) (thread : Thread) (allocator : Allocator)
    (answers : NumaAnswers) (size node : ℕ) :
    Outcome (Except IoError (BoxedSlice × Allocator)) × Thread :=
  match thread.schedGetaffinity answers.get with
  | .error e => (.returned (.error e), thread)
  | .ok originalAffinity =>
    match setNumaAffinity fs thread answers.bind node with
    | (.error e, thread) => (.returned (.error e), thread)
    | (.ok (), thread) =>
      match allocateAlignedBuffer allocator size answers.alloc with
      | .returned result =>
        (.returned (.ok result), (thread.schedSetaffinity answers.release originalAffinity).2)
      | .blocked => (.blocked, thread)
      | .panicked => (.panicked, thread)

/-- **Allocate a buffer on a node**, or on any. -/
def allocateNumaBuffer (fs : FileSystem) (thread : Thread) (allocator : Allocator)
    (answers : NumaAnswers) (size : ℕ) (numaNode : Option ℕ) :
    Outcome (BoxedSlice × Allocator) × Thread :=
  match numaNode with
  | some node =>
    if isNumaAvailable fs then
      match tryNumaAllocation fs thread allocator answers size node with
      | (.returned (.ok result), thread) => (.returned result, thread)
      | (.returned (.error _), thread) =>
        (allocateAlignedBuffer allocator size answers.alloc, thread)
      | (.blocked, thread) => (.blocked, thread)
      | (.panicked, thread) => (.panicked, thread)
    else (allocateAlignedBuffer allocator size answers.alloc, thread)
  | none => (allocateAlignedBuffer allocator size answers.alloc, thread)

section Binding

variable {fs : FileSystem} {thread thread' : Thread} {allocator : Allocator}
  {answers : NumaAnswers} {size node : ℕ} {numaNode fault : Option ℕ} {cpuSet : CpuSet}

/-- **The processors a thread is bound to** for a node, if it is. -/
def bindsTo (fs : FileSystem) (thread : Thread) (fault : Option ℕ) (node : ℕ) : Option CpuSet :=
  match getNumaNodeCpus fs node with
  | .error _ => none
  | .ok cpus =>
    if fault = none ∧ (cpuSetOf cpus ∩ thread.allowed).Nonempty then
      some (cpuSetOf cpus ∩ thread.allowed)
    else none

/-- Where there is nothing to bind a thread to, it stays as it is. -/
theorem setNumaAffinity_of_none (h : bindsTo fs thread fault node = none) :
    ∃ e, setNumaAffinity fs thread fault node = (.error e, thread) := by
  rw [bindsTo] at h
  rw [setNumaAffinity]
  rcases hcpus : getNumaNodeCpus fs node with e | cpus
  · exact ⟨e, rfl⟩
  · rw [hcpus] at h
    by_cases hnil : cpus = []
    · exact ⟨_, if_pos hnil⟩
    · simp only [if_neg hnil, Thread.schedSetaffinity]
      rcases fault with _ | code
      · have hempty : ¬(cpuSetOf cpus ∩ thread.allowed).Nonempty := by simpa using h
        exact ⟨_, dif_neg hempty⟩
      · exact ⟨_, rfl⟩

/-- **A thread is bound** to processors of the node. -/
theorem setNumaAffinity_of_some (h : bindsTo fs thread fault node = some cpuSet) :
    ∃ bound, setNumaAffinity fs thread fault node = (.ok (), bound) ∧ bound.affinity = cpuSet ∧
      bound.allowed = thread.allowed := by
  rw [bindsTo] at h
  rw [setNumaAffinity]
  rcases hcpus : getNumaNodeCpus fs node with e | cpus
  · rw [hcpus] at h
    cases h
  · rw [hcpus] at h
    obtain ⟨⟨rfl, hnonempty⟩, hset⟩ := Option.ite_none_right_eq_some.mp h
    have hnil : cpus ≠ [] := by
      rintro rfl
      exact absurd hnonempty (by simp [cpuSetOf])
    simp only [if_neg hnil, Thread.schedSetaffinity, dif_pos hnonempty]
    exact ⟨_, rfl, Option.some.inj hset, rfl⟩

/-- **What the thread is bound to while the buffer is allocated**, if it is. -/
def boundTo (fs : FileSystem) (thread : Thread) (answers : NumaAnswers) :
    Option ℕ → Option CpuSet
  | none => none
  | some node =>
    if isNumaAvailable fs ∧ answers.get = none then bindsTo fs thread answers.bind node else none

/-- **The thread is released**: the allocation returns, and the call that does it succeeds. -/
def Releases (allocator : Allocator) (answers : NumaAnswers) (size : ℕ) : Prop :=
  answers.release = none ∧
    ∃ result, allocateAlignedBuffer allocator size answers.alloc = .returned result

/-- **A thread after an allocation**: where it was, unless it was bound and not released. -/
structure Leaves (fs : FileSystem) (thread : Thread) (allocator : Allocator)
    (answers : NumaAnswers) (size : ℕ) (numaNode : Option ℕ) (after : Thread) : Prop where
  /-- What it can be bound to is the same. -/
  allowed : after.allowed = thread.allowed
  /-- If it was not bound, it is where it was. -/
  free : boundTo fs thread answers numaNode = none → after.affinity = thread.affinity
  /-- And so it is if it was released. -/
  released : Releases allocator answers size → after.affinity = thread.affinity
  /-- Else it is still bound. -/
  bound : ∀ cpuSet, boundTo fs thread answers numaNode = some cpuSet →
    ¬Releases allocator answers size → after.affinity = cpuSet

/-- A thread that is not bound is left where it was. -/
theorem Leaves.of_none (h : boundTo fs thread answers numaNode = none) :
    Leaves fs thread allocator answers size numaNode thread where
  allowed := rfl
  free _ := rfl
  released _ := rfl
  bound cpuSet hsome := absurd (h.symm.trans hsome) (by simp)

/-- **Where the thread is not bound**, there is no buffer yet, and it is where it was. -/
theorem tryNumaAllocation_of_none
    (h : ∀ cpuSet, answers.get = none → bindsTo fs thread answers.bind node ≠ some cpuSet) :
    ∃ e, tryNumaAllocation fs thread allocator answers size node =
      (.returned (.error e), thread) := by
  rw [tryNumaAllocation]
  rcases hget : answers.get with _ | code
  · obtain ⟨e, he⟩ := setNumaAffinity_of_none
      (Option.eq_none_iff_forall_ne_some.mpr fun cpuSet => h cpuSet hget)
    simp only [Thread.schedGetaffinity, he]
    exact ⟨e, rfl⟩
  · exact ⟨_, rfl⟩

/-- **Where it is bound**, the buffer is allocated, and then it is released, or not. -/
theorem tryNumaAllocation_of_some (hget : answers.get = none)
    (h : bindsTo fs thread answers.bind node = some cpuSet) :
    ∃ after, tryNumaAllocation fs thread allocator answers size node =
        ((allocateAlignedBuffer allocator size answers.alloc).map .ok, after) ∧
      after.allowed = thread.allowed ∧
      (Releases allocator answers size → after.affinity = thread.affinity) ∧
      (¬Releases allocator answers size → after.affinity = cpuSet) := by
  obtain ⟨bound, hbound, haffinity, hallowed⟩ := setNumaAffinity_of_some h
  rw [tryNumaAllocation, hget]
  simp only [Thread.schedGetaffinity, hbound]
  have hnot : (∀ result, allocateAlignedBuffer allocator size answers.alloc ≠ .returned result) →
      ¬Releases allocator answers size := by
    rintro hne ⟨-, result, hresult⟩
    exact hne result hresult
  rcases halloc : allocateAlignedBuffer allocator size answers.alloc with result | _ | _
  · rcases hrelease : answers.release with _ | code
    · have hback : (bound.schedSetaffinity none thread.affinity).2.affinity = thread.affinity :=
        Thread.affinity_schedSetaffinity_of_subset (hallowed ▸ thread.affinity_subset)
          thread.affinity_nonempty
      refine ⟨_, rfl, ?_, fun _ => hback, fun hn => absurd ⟨hrelease, result, halloc⟩ hn⟩
      rw [Thread.schedSetaffinity]
      split
      · exact hallowed
      · exact hallowed
    · refine ⟨bound, rfl, hallowed, fun hr => ?_, fun _ => haffinity⟩
      exact absurd (hrelease.symm.trans hr.1) (by simp)
  · have hnone := hnot (by simp [halloc])
    exact ⟨bound, rfl, hallowed, fun h => absurd h hnone, fun _ => haffinity⟩
  · have hnone := hnot (by simp [halloc])
    exact ⟨bound, rfl, hallowed, fun h => absurd h hnone, fun _ => haffinity⟩

/-- **A buffer on a node is allocated as any other is**, once, whether the thread is bound or not;
and the thread, if it was bound, is released unless the allocation panics or the call that releases
it fails. -/
theorem allocateNumaBuffer_eq (fs : FileSystem) (thread : Thread) (allocator : Allocator)
    (answers : NumaAnswers) (size : ℕ) (numaNode : Option ℕ) :
    ∃ after, allocateNumaBuffer fs thread allocator answers size numaNode =
        (allocateAlignedBuffer allocator size answers.alloc, after) ∧
      Leaves fs thread allocator answers size numaNode after := by
  rcases numaNode with _ | node
  · exact ⟨thread, rfl, .of_none rfl⟩
  rw [allocateNumaBuffer]
  rcases havailable : isNumaAvailable fs with _ | _
  · exact ⟨thread, rfl, .of_none (if_neg fun h => absurd (havailable.symm.trans h.1) (by simp))⟩
  have hboundTo : answers.get = none →
      boundTo fs thread answers (some node) = bindsTo fs thread answers.bind node :=
    fun hget => if_pos ⟨havailable, hget⟩
  by_cases hbound : ∃ cpuSet, answers.get = none ∧
      bindsTo fs thread answers.bind node = some cpuSet
  · obtain ⟨cpuSet, hget, hsome⟩ := hbound
    obtain ⟨after, htry, hallowed, hreleased, hleft⟩ :=
      tryNumaAllocation_of_some hget hsome
    refine ⟨after, ?_, hallowed, fun hnone => ?_, hreleased, fun cpuSet' hsome' hn => ?_⟩
    · rw [if_pos rfl, htry]
      rcases allocateAlignedBuffer allocator size answers.alloc with result | _ | _
      · rfl
      · rfl
      · rfl
    · rw [hboundTo hget, hsome] at hnone
      cases hnone
    · rw [hboundTo hget, hsome] at hsome'
      rw [hleft hn, Option.some.inj hsome']
  · obtain ⟨e, htry⟩ := tryNumaAllocation_of_none
      fun cpuSet hget hsome => hbound ⟨cpuSet, hget, hsome⟩
    refine ⟨thread, ?_, .of_none ?_⟩
    · rw [if_pos rfl, htry]
    · rw [boundTo, Option.eq_none_iff_forall_ne_some]
      intro cpuSet hsome
      obtain ⟨⟨-, hget⟩, hsome⟩ := Option.ite_none_right_eq_some.mp hsome
      exact hbound ⟨cpuSet, hget, hsome⟩

end Binding

/-! ### Runs -/

/-- **A call of `allocate_numa_buffer`**: what it finds, what it is given, and how it is
answered. -/
structure NumaCall where
  /-- The files of the system. -/
  fs : FileSystem
  /-- The allocator, as the threads have left it. -/
  allocator : Allocator
  /-- The answers of the system. -/
  answers : NumaAnswers
  /-- The size of the buffer. -/
  size : ℕ
  /-- The node, if it is to be on one. -/
  numaNode : Option ℕ

namespace NumaCall

open Transition (Move Guarded Always Run)

/-- What a call does in a thread. -/
def run (call : NumaCall) (thread : Thread) : Outcome (BoxedSlice × Allocator) × Thread :=
  allocateNumaBuffer call.fs thread call.allocator call.answers call.size call.numaNode

/-- **A step of a thread**: a call, which may panic. -/
def Step (thread : Thread) (call : NumaCall) (thread' : Thread) : Prop :=
  (call.run thread).2 = thread'

/-- **If the thread is bound elsewhere** for a call, it is released. -/
def Frees (thread : Thread) (call : NumaCall) : Prop :=
  ∀ cpuSet, boundTo call.fs thread call.answers call.numaNode = some cpuSet →
    cpuSet ≠ thread.affinity → Releases call.allocator call.answers call.size

variable {thread thread' : Thread} {call : NumaCall} {ms : List (Move Thread NumaCall)}

/-- **A call leaves the thread where it was** exactly when it frees it. -/
theorem affinity_step_iff (hstep : Step thread call thread') :
    thread'.affinity = thread.affinity ↔ call.Frees thread := by
  obtain ⟨after, hafter, hleaves⟩ := allocateNumaBuffer_eq call.fs thread call.allocator
    call.answers call.size call.numaNode
  obtain rfl : after = thread' := (congrArg Prod.snd hafter).symm.trans hstep
  by_cases hreleases : Releases call.allocator call.answers call.size
  · exact iff_of_true (hleaves.released hreleases) fun _ _ _ => hreleases
  rcases hbound : boundTo call.fs thread call.answers call.numaNode with _ | cpuSet
  · refine iff_of_true (hleaves.free hbound) fun cpuSet hsome => ?_
    exact absurd (hbound.symm.trans hsome) (by simp)
  · rw [hleaves.bound cpuSet hbound hreleases]
    constructor
    · intro heq cpuSet' hsome hne
      obtain rfl := Option.some.inj (hbound.symm.trans hsome)
      exact absurd heq hne
    · exact fun hfrees => by_contra fun hne => hreleases (hfrees cpuSet hbound hne)

/-- **A thread runs where it did before, all along its allocations, exactly when it is released**
each time it was bound elsewhere; and each buffer is what it would be without a node: for all
calls, with any files and any answers of the system. -/
theorem affinity_exact (hrun : Run Step thread ms thread') :
    (∀ m ∈ ms, (m.label.run m.before).1 =
      allocateAlignedBuffer m.label.allocator m.label.size m.label.answers.alloc) ∧
    (Always (fun t => t.affinity = thread.affinity) thread ms ↔
      Guarded (fun t call => Frees t call) ms) := by
  constructor
  · intro m _
    obtain ⟨after, hafter, -⟩ := allocateNumaBuffer_eq m.label.fs m.before m.label.allocator
      m.label.answers m.label.size m.label.numaNode
    exact congrArg Prod.fst hafter
  · have hexact : ∀ t call t', Step t call t' → True → t.affinity = thread.affinity →
        True ∧ (t'.affinity = thread.affinity ↔ Frees t call) := by
      intro t call t' hstep _ heq
      exact ⟨trivial, heq ▸ affinity_step_iff hstep⟩
    exact hrun.always_iff_step hexact trivial rfl

/-- A system of two nodes, with one processor each. -/
def twoNodes : FileSystem where
  pathExists _ := true
  readToString path :=
    .ok (if path = "/sys/devices/system/node/node1/cpulist" then "1\n" else "0\n")
  readDir _ := .ok 2

/-- **A buffer on the other node**: the thread is bound to its processor, and released. -/
theorem affinity_exact_otherNode : ∃ (thread : Thread) (call : NumaCall) (thread' : Thread),
    boundTo call.fs thread call.answers call.numaNode = some {1} ∧ thread.affinity = {0} ∧
      Always (fun t => t.affinity = thread.affinity) thread [⟨thread, call, thread'⟩] := by
  let thread : Thread := ⟨{0}, {0, 1}, by decide, by decide⟩
  let call : NumaCall := ⟨twoNodes, ⟨∅⟩, ⟨none, none, some 4096, none⟩, 64, some 1⟩
  have hreleases : Releases ⟨∅⟩ ⟨none, none, some 4096, none⟩ 64 := ⟨rfl, _, rfl⟩
  have hrun : Run Step thread [⟨thread, call, (call.run thread).2⟩] (call.run thread).2 :=
    .single rfl
  refine ⟨thread, call, _, ?_, rfl, (affinity_exact hrun).2.mpr fun m hm => ?_⟩
  · decide
  · obtain rfl := List.mem_singleton.mp hm
    exact fun _ _ _ => hreleases

end NumaCall

end SaferRing
