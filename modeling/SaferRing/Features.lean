import SaferRing.Config
import SaferRing.KernelVersion

/-!
# The features of the kernel

Which features the kernel has is told from its version alone
(`SaferRing.FeatureDetector.probeFeatures`), and asked by name
(`SaferRing.FeatureDetector.hasFeature`). Before a ring with features is made, two of them are
switched off where the kernel has them not (`SaferRing.adjustAdvanced`), with a warning each.

`SaferRing.switchedOff_iff` is that **the features a ring is made with are those of the kernel
exactly when all others that were asked for are**.
-/

namespace SaferRing

/-! ### Detection -/

/-- **The version of a kernel.** -/
structure KernelVersion where
  /-- The first number. -/
  major : ℕ
  /-- The second. -/
  minor : ℕ
  /-- The third. -/
  patch : ℕ
  deriving DecidableEq, Repr

/-- Whether a version comes after another, or is the same. -/
def KernelVersion.ge (self other : KernelVersion) : Bool :=
  self.major > other.major || self.major = other.major &&
    (self.minor > other.minor || self.minor = other.minor && self.patch ≥ other.patch)

/-- **The features a kernel has.** -/
structure AvailableFeatures where
  /-- Buffer selection. -/
  bufferSelection : Bool
  /-- Multi-shot operations. -/
  multiShot : Bool
  /-- Provided buffers. -/
  providedBuffers : Bool
  /-- Fast poll. -/
  fastPoll : Bool
  /-- Polling of the submission queue. -/
  sqPoll : Bool
  /-- Cooperative task running. -/
  coopTaskrun : Bool
  /-- Deferred task running. -/
  deferTaskrun : Bool
  /-- Fixed files. -/
  fixedFiles : Bool
  /-- Fixed buffers. -/
  fixedBuffers : Bool
  -- since 6.1
  /-- Task work management. -/
  advancedTaskWork : Bool
  /-- Deferred asynchronous work. -/
  deferAsyncWork : Bool
  -- since 6.2
  /-- Reporting of zero-copy sends. -/
  sendZcReporting : Bool
  /-- Batching of multishot completions. -/
  multishotCompletionBatching : Bool
  /-- Wakes through epoll. -/
  epollUringWake : Bool
  -- since 6.3
  /-- Registration of the ring's descriptor. -/
  registeredRingFd : Bool
  -- since 6.4
  /-- Multishot timeouts. -/
  multishotTimeouts : Bool
  -- since 6.5
  /-- Ring memory of the user's. -/
  userAllocatedRingMemory : Bool
  -- since 6.6
  /-- Cancellation of operations. -/
  asyncCancelOp : Bool
  /-- Commands for sockets. -/
  socketCommandSupport : Bool
  /-- Switching io_uring off. -/
  sysctlDisableSupport : Bool
  /-- Direct input and output. -/
  directIoOptimizations : Bool
  -- since 6.11
  /-- Faster messages between rings. -/
  msgRingSpeedup : Bool
  /-- Bind and listen. -/
  nativeBindListen : Bool
  -- since 6.12
  /-- Huge pages. -/
  improvedHugePages : Bool
  /-- Asynchronous discard. -/
  asyncDiscard : Bool
  /-- Minimum timeouts. -/
  minimumTimeoutWaits : Bool
  /-- Absolute timeouts. -/
  absoluteTimeouts : Bool
  /-- Incremental consumption of buffers. -/
  incrementalBufferConsumption : Bool
  /-- Cloning of registered buffers. -/
  registeredBufferCloning : Bool
  deriving DecidableEq, Repr

/-- **The kernel as it was detected.** -/
structure FeatureDetector where
  /-- Its version. -/
  kernelVersion : KernelVersion
  /-- The features it has. -/
  features : AvailableFeatures
  deriving DecidableEq, Repr

namespace FeatureDetector

/-- **The features of a version**: each came with one. -/
def probeFeatures (kernelVersion : KernelVersion) : AvailableFeatures where
  fixedFiles := kernelVersion.ge ⟨5, 1, 0⟩
  fixedBuffers := kernelVersion.ge ⟨5, 1, 0⟩
  fastPoll := kernelVersion.ge ⟨5, 7, 0⟩
  sqPoll := kernelVersion.ge ⟨5, 11, 0⟩
  bufferSelection := kernelVersion.ge ⟨5, 13, 0⟩
  providedBuffers := kernelVersion.ge ⟨5, 13, 0⟩
  multiShot := kernelVersion.ge ⟨5, 19, 0⟩
  coopTaskrun := kernelVersion.ge ⟨6, 0, 0⟩
  deferTaskrun := kernelVersion.ge ⟨6, 0, 0⟩
  advancedTaskWork := kernelVersion.ge ⟨6, 1, 0⟩
  deferAsyncWork := kernelVersion.ge ⟨6, 1, 0⟩
  sendZcReporting := kernelVersion.ge ⟨6, 2, 0⟩
  multishotCompletionBatching := kernelVersion.ge ⟨6, 2, 0⟩
  epollUringWake := kernelVersion.ge ⟨6, 2, 0⟩
  registeredRingFd := kernelVersion.ge ⟨6, 3, 0⟩
  multishotTimeouts := kernelVersion.ge ⟨6, 4, 0⟩
  userAllocatedRingMemory := kernelVersion.ge ⟨6, 5, 0⟩
  asyncCancelOp := kernelVersion.ge ⟨6, 6, 0⟩
  socketCommandSupport := kernelVersion.ge ⟨6, 6, 0⟩
  sysctlDisableSupport := kernelVersion.ge ⟨6, 6, 0⟩
  directIoOptimizations := kernelVersion.ge ⟨6, 6, 0⟩
  msgRingSpeedup := kernelVersion.ge ⟨6, 11, 0⟩
  nativeBindListen := kernelVersion.ge ⟨6, 11, 0⟩
  improvedHugePages := kernelVersion.ge ⟨6, 12, 0⟩
  asyncDiscard := kernelVersion.ge ⟨6, 12, 0⟩
  minimumTimeoutWaits := kernelVersion.ge ⟨6, 12, 0⟩
  absoluteTimeouts := kernelVersion.ge ⟨6, 12, 0⟩
  incrementalBufferConsumption := kernelVersion.ge ⟨6, 12, 0⟩
  registeredBufferCloning := kernelVersion.ge ⟨6, 12, 0⟩

/-- The kernel of a version. -/
def ofVersion (kernelVersion : KernelVersion) : FeatureDetector :=
  ⟨kernelVersion, probeFeatures kernelVersion⟩

/-- **Detect the kernel**, by the release that the system tells. -/
def new (uname : Except IoError String) : Except SaferRingError FeatureDetector :=
  match uname with
  | .error e => .error (.io e)
  | .ok release =>
    match parseKernelVersion release with
    | .error e => .error (.ioNew .invalidData s!"Failed to parse kernel version: {e}")
    | .ok (major, minor, patch) => .ok (ofVersion ⟨major, minor, patch⟩)

variable (self : FeatureDetector)

/-- The names that are known, and the feature each stands for. -/
def known : List (String × Bool) :=
  [("buffer_selection", self.features.bufferSelection), ("multi_shot", self.features.multiShot),
    ("provided_buffers", self.features.providedBuffers), ("fast_poll", self.features.fastPoll),
    ("sq_poll", self.features.sqPoll), ("coop_taskrun", self.features.coopTaskrun),
    ("defer_taskrun", self.features.deferTaskrun), ("fixed_files", self.features.fixedFiles),
    ("fixed_buffers", self.features.fixedBuffers),
    ("advanced_task_work", self.features.advancedTaskWork),
    ("defer_async_work", self.features.deferAsyncWork),
    ("send_zc_reporting", self.features.sendZcReporting),
    ("multishot_completion_batching", self.features.multishotCompletionBatching),
    ("epoll_uring_wake", self.features.epollUringWake),
    ("registered_ring_fd", self.features.registeredRingFd),
    ("multishot_timeouts", self.features.multishotTimeouts),
    ("user_allocated_ring_memory", self.features.userAllocatedRingMemory),
    ("async_cancel_op", self.features.asyncCancelOp),
    ("socket_command_support", self.features.socketCommandSupport),
    ("sysctl_disable_support", self.features.sysctlDisableSupport),
    ("direct_io_optimizations", self.features.directIoOptimizations),
    ("msg_ring_speedup", self.features.msgRingSpeedup),
    ("native_bind_listen", self.features.nativeBindListen),
    ("improved_huge_pages", self.features.improvedHugePages),
    ("async_discard", self.features.asyncDiscard),
    ("minimum_timeout_waits", self.features.minimumTimeoutWaits),
    ("absolute_timeouts", self.features.absoluteTimeouts),
    ("incremental_buffer_consumption", self.features.incrementalBufferConsumption),
    ("registered_buffer_cloning", self.features.registeredBufferCloning)]

/-- **Whether the kernel has a feature**, by name; none has one that is not known. -/
def hasFeature (feature : String) : Bool := (self.known.lookup feature).getD false

end FeatureDetector

/-! ### What a ring is made with -/

/-- Switch a feature off that was asked for and is not there, with a warning. -/
def switchOff (supported enabled : Bool) (now : ℤ) (warning : String) (logger : Option Logger) :
    Bool × Option Logger :=
  if !supported && enabled then
    (false, logger.map fun logger => logger.log now .warn "ring" warning)
  else (enabled, logger)

/-- **Adjust the features asked for** to those there are. -/
def adjustAdvanced (detector : FeatureDetector) (config : AdvancedConfig) (now : ℤ)
    (logger : Option Logger) : AdvancedConfig × Option Logger :=
  let (bufferSelection, logger) := switchOff (detector.hasFeature "buffer_selection")
    config.bufferSelection now
    "Buffer selection not supported on this kernel, disabling feature" logger
  let (multiShot, logger) := switchOff (detector.hasFeature "multi_shot") config.multiShot now
    "Multi-shot operations not supported on this kernel, disabling feature" logger
  ({ config with bufferSelection, multiShot }, logger)

/-- The configuration that a ring with features is made from. -/
def adjustedConfig (detector : FeatureDetector) (config : AdvancedConfig) (now : ℤ)
    (logger : Option Logger) : SaferRingConfig × Option Logger :=
  let (advanced, logger) := adjustAdvanced detector config now logger
  ({ SaferRingConfig.default with advanced }, logger)

/-- **Features that are not there are switched off**, and those that are stay on. -/
def SwitchedOff (detector : FeatureDetector) (config adjusted : AdvancedConfig) : Prop :=
  (∀ name ∈ adjusted.enabledFeatures, detector.hasFeature name) ∧
    ∀ name ∈ config.enabledFeatures, detector.hasFeature name →
      name ∈ adjusted.enabledFeatures

variable {detector : FeatureDetector} {config : AdvancedConfig} {now : ℤ}
  {logger : Option Logger} {name : String}

theorem switchOff_fst {supported enabled : Bool} {warning : String} :
    (switchOff supported enabled now warning logger).1 = (enabled && supported) := by
  cases supported <;> cases enabled <;> rfl

/-- The others have other names. -/
theorem not_mem_drop_flags (config : AdvancedConfig) (enabled : Bool) :
    ("buffer_selection", enabled) ∉ config.flags.drop 2 ∧
      ("multi_shot", enabled) ∉ config.flags.drop 2 := by
  have hnames : ∀ name, name ∉ (config.flags.drop 2).map Prod.fst →
      (name, enabled) ∉ config.flags.drop 2 :=
    fun name hname hmem => hname (List.mem_map_of_mem hmem)
  have hbuffer : "buffer_selection" ∉ (AdvancedConfig.default.flags.drop 2).map Prod.fst := by
    decide
  have hmulti : "multi_shot" ∉ (AdvancedConfig.default.flags.drop 2).map Prod.fst := by
    decide
  -- the names are the same in every configuration
  exact ⟨hnames _ hbuffer, hnames _ hmulti⟩

/-- **What is still asked for**: of two features only what is there, of the others all. -/
theorem mem_adjustAdvanced :
    name ∈ (adjustAdvanced detector config now logger).1.enabledFeatures ↔
      name ∈ config.enabledFeatures ∧
        (name = "buffer_selection" ∨ name = "multi_shot" → detector.hasFeature name) := by
  obtain ⟨others, hothers⟩ : ∃ others, others = config.flags.drop 2 := ⟨_, rfl⟩
  obtain ⟨hbuffer, hmulti⟩ := not_mem_drop_flags config true
  have hconfig : config.flags = ("buffer_selection", config.bufferSelection) ::
      ("multi_shot", config.multiShot) :: others := by
    rw [hothers]
    rfl
  have hadjusted : (adjustAdvanced detector config now logger).1.flags =
      ("buffer_selection", config.bufferSelection && detector.hasFeature "buffer_selection") ::
        ("multi_shot", config.multiShot && detector.hasFeature "multi_shot") :: others := by
    rw [hothers, ← switchOff_fst, ← switchOff_fst]
    rfl
  rw [← hothers] at hbuffer hmulti
  rw [AdvancedConfig.mem_enabledFeatures, AdvancedConfig.mem_enabledFeatures, hadjusted, hconfig]
  simp only [List.mem_cons, Prod.mk.injEq]
  by_cases hname : name = "buffer_selection"
  · subst hname
    simp [hbuffer]
  by_cases hname' : name = "multi_shot"
  · subst hname'
    simp [hmulti]
  · simp [hname, hname']

/-- **The features a ring is made with are those of the kernel exactly when all that were asked
for are**, but for the two that are switched off: for every version and all features. -/
theorem switchedOff_iff (version : KernelVersion) (config : AdvancedConfig) (now : ℤ)
    (logger : Option Logger) :
    SwitchedOff (.ofVersion version) config
        (adjustedConfig (.ofVersion version) config now logger).1.advanced ↔
      ∀ name ∈ config.enabledFeatures, name ≠ "buffer_selection" → name ≠ "multi_shot" →
        (FeatureDetector.ofVersion version).hasFeature name := by
  change SwitchedOff _ config (adjustAdvanced (.ofVersion version) config now logger).1 ↔ _
  simp only [SwitchedOff, mem_adjustAdvanced]
  constructor
  · intro h name hname hbuffer hmulti
    exact h.1 name ⟨hname, fun hc => absurd hc (not_or.mpr ⟨hbuffer, hmulti⟩)⟩
  · refine fun h => ⟨?_, fun name hname hhas => ⟨hname, fun _ => hhas⟩⟩
    rintro name ⟨hname, hgated⟩
    by_cases htwo : name = "buffer_selection" ∨ name = "multi_shot"
    · exact hgated htwo
    · rw [not_or] at htwo
      exact h name hname htwo.1 htwo.2

/-- **Fast poll on the first kernel with io_uring stays on.** -/
theorem not_switchedOff_fastPoll :
    "fast_poll" ∈ (adjustedConfig (.ofVersion ⟨5, 1, 0⟩)
        { AdvancedConfig.default with fastPoll := true } 0 none).1.advanced.enabledFeatures ∧
      (FeatureDetector.ofVersion ⟨5, 1, 0⟩).hasFeature "fast_poll" = false ∧
      ¬SwitchedOff (.ofVersion ⟨5, 1, 0⟩) { AdvancedConfig.default with fastPoll := true }
        (adjustedConfig (.ofVersion ⟨5, 1, 0⟩)
          { AdvancedConfig.default with fastPoll := true } 0 none).1.advanced := by
  have hstays : "fast_poll" ∈ (adjustedConfig (.ofVersion ⟨5, 1, 0⟩)
      { AdvancedConfig.default with fastPoll := true } 0 none).1.advanced.enabledFeatures := by
    decide
  have hmissing : (FeatureDetector.ofVersion ⟨5, 1, 0⟩).hasFeature "fast_poll" = false := by decide
  refine ⟨hstays, hmissing, fun h => ?_⟩
  have hhas := h.1 _ hstays
  rw [hmissing] at hhas
  exact absurd hhas (by decide)

end SaferRing
