import SaferRing.Error
import SaferRing.Logging

/-!
# Configuration

What a ring is made with: `SaferRing.SaferRingConfig`, of which
`SaferRing.AdvancedConfig` says which features of the kernel are asked for. A configuration is
checked as a whole (`SaferRing.SaferRingConfig.validate`), and all that come with the crate pass
(`SaferRing.SaferRingConfig.validate_presets`).
-/

namespace SaferRing

/-! ### Features -/

/-- **The features asked for.** -/
structure AdvancedConfig where
  /-- Buffer selection. -/
  bufferSelection : Bool
  /-- Multi-shot operations. -/
  multiShot : Bool
  /-- Provided buffers. -/
  providedBuffers : Bool
  /-- Fast poll. -/
  fastPoll : Bool
  /-- Polling of the submission queue. -/
  sqPoll : Bool
  /-- The processor of the polling thread. -/
  sqThreadCpu : Option ℕ
  /-- Cooperative task running. -/
  coopTaskrun : Bool
  /-- Deferred task running. -/
  deferTaskrun : Bool
  -- since 6.1
  /-- Task work management. -/
  advancedTaskWork : Bool
  /-- Deferred asynchronous work. -/
  deferAsyncWork : Bool
  -- since 6.2
  /-- Reporting of zero-copy sends. -/
  sendZcReporting : Bool
  /-- Batching of multishot completions. -/
  multishotCompletionBatching : Bool
  /-- Wakes through epoll. -/
  epollUringWake : Bool
  -- since 6.3
  /-- Registration of the ring's descriptor. -/
  registeredRingFd : Bool
  -- since 6.4
  /-- Multishot timeouts. -/
  multishotTimeouts : Bool
  -- since 6.5
  /-- Ring memory of the user's. -/
  userAllocatedRingMemory : Bool
  -- since 6.6
  /-- Cancellation of operations. -/
  asyncCancelOp : Bool
  /-- Commands for sockets. -/
  socketCommandSupport : Bool
  /-- Direct input and output. -/
  directIoOptimizations : Bool
  -- since 6.11
  /-- Faster messages between rings. -/
  msgRingSpeedup : Bool
  /-- Bind and listen. -/
  nativeBindListen : Bool
  -- since 6.12
  /-- Huge pages. -/
  improvedHugePages : Bool
  /-- Asynchronous discard. -/
  asyncDiscard : Bool
  /-- Minimum timeouts. -/
  minimumTimeoutWaits : Bool
  /-- Absolute timeouts. -/
  absoluteTimeouts : Bool
  /-- Incremental consumption of buffers. -/
  incrementalBufferConsumption : Bool
  /-- Cloning of registered buffers. -/
  registeredBufferCloning : Bool
  deriving DecidableEq, Repr

namespace AdvancedConfig

/-- Nothing is asked for. -/
def default : AdvancedConfig where
  bufferSelection := false
  multiShot := false
  providedBuffers := false
  fastPoll := false
  sqPoll := false
  sqThreadCpu := none
  coopTaskrun := false
  deferTaskrun := false
  advancedTaskWork := false
  deferAsyncWork := false
  sendZcReporting := false
  multishotCompletionBatching := false
  epollUringWake := false
  registeredRingFd := false
  multishotTimeouts := false
  userAllocatedRingMemory := false
  asyncCancelOp := false
  socketCommandSupport := false
  directIoOptimizations := false
  msgRingSpeedup := false
  nativeBindListen := false
  improvedHugePages := false
  asyncDiscard := false
  minimumTimeoutWaits := false
  absoluteTimeouts := false
  incrementalBufferConsumption := false
  registeredBufferCloning := false

variable (self : AdvancedConfig)

/-- The features by name, in the order they are listed in, and whether each is asked for. -/
def flags : List (String × Bool) :=
  [("buffer_selection", self.bufferSelection), ("multi_shot", self.multiShot),
    ("provided_buffers", self.providedBuffers), ("fast_poll", self.fastPoll),
    ("sq_poll", self.sqPoll), ("coop_taskrun", self.coopTaskrun),
    ("defer_taskrun", self.deferTaskrun),
    ("advanced_task_work", self.advancedTaskWork), ("defer_async_work", self.deferAsyncWork),
    ("send_zc_reporting", self.sendZcReporting),
    ("multishot_completion_batching", self.multishotCompletionBatching),
    ("epoll_uring_wake", self.epollUringWake),
    ("registered_ring_fd", self.registeredRingFd),
    ("multishot_timeouts", self.multishotTimeouts),
    ("user_allocated_ring_memory", self.userAllocatedRingMemory),
    ("async_cancel_op", self.asyncCancelOp),
    ("socket_command_support", self.socketCommandSupport),
    ("direct_io_optimizations", self.directIoOptimizations),
    ("msg_ring_speedup", self.msgRingSpeedup), ("native_bind_listen", self.nativeBindListen),
    ("improved_huge_pages", self.improvedHugePages), ("async_discard", self.asyncDiscard),
    ("minimum_timeout_waits", self.minimumTimeoutWaits),
    ("absolute_timeouts", self.absoluteTimeouts),
    ("incremental_buffer_consumption", self.incrementalBufferConsumption),
    ("registered_buffer_cloning", self.registeredBufferCloning)]

/-- **The names of the features asked for.** -/
def enabledFeatures : List String := (self.flags.filter Prod.snd).map Prod.fst

variable {self}

/-- A feature asked for is one whose flag is set. -/
theorem mem_enabledFeatures {name : String} :
    name ∈ self.enabledFeatures ↔ (name, true) ∈ self.flags := by
  rw [enabledFeatures, List.mem_map]
  constructor
  · rintro ⟨⟨name, enabled⟩, hmem, rfl⟩
    obtain ⟨hflag, henabled⟩ := List.mem_filter.mp hmem
    obtain rfl : enabled = true := henabled
    exact hflag
  · exact fun h => ⟨(name, true), List.mem_filter.mpr ⟨h, rfl⟩, rfl⟩

end AdvancedConfig

/-! ### The whole configuration -/

/-- How the ring is to be set up. -/
structure RingConfig where
  /-- The entries of the submission queue. -/
  sqEntries : ℕ
  /-- The entries of the completion queue, `0` for as many as there are by default. -/
  cqEntries : ℕ
  /-- Whether the kernel polls the submission queue. -/
  sqPoll : Bool
  /-- The processor of the polling thread. -/
  sqThreadCpu : Option ℕ
  /-- After how many milliseconds the polling thread goes to sleep. -/
  sqThreadIdle : Option ℕ
  deriving DecidableEq, Repr

/-- What is checked about buffers. -/
structure BufferConfig where
  /-- The size of a buffer. -/
  defaultSize : ℕ
  /-- Whether buffers are pooled. -/
  enablePooling : Bool
  /-- How many are. -/
  poolSize : ℕ
  deriving DecidableEq, Repr

/-- What is checked about batches. -/
structure PerformanceConfig where
  /-- Whether operations are submitted in batches. -/
  batchSubmission : Bool
  /-- How many make a batch. -/
  maxBatchSize : ℕ
  deriving DecidableEq, Repr

/-- How the ring logs. -/
structure LoggingConfig where
  /-- Whether there is a logger. -/
  enabled : Bool
  /-- Its level. -/
  level : LogLevel
  /-- The file it writes to beside the standard error. -/
  logFile : Option String
  /-- Whether it writes JSON there. -/
  jsonFormat : Bool
  deriving DecidableEq, Repr

/-- What is checked about errors. -/
structure ErrorHandlingConfig where
  /-- Whether what fails is tried again. -/
  autoRetry : Bool
  /-- How often. -/
  maxRetries : ℕ
  deriving DecidableEq, Repr

/-- **The configuration of a ring**: what is checked of it, and what a ring is made from. -/
structure SaferRingConfig where
  /-- How the ring is to be set up. -/
  ring : RingConfig
  /-- Its buffers. -/
  buffer : BufferConfig
  /-- Its batches. -/
  performance : PerformanceConfig
  /-- Its logger. -/
  logging : LoggingConfig
  /-- The features asked for. -/
  advanced : AdvancedConfig
  /-- Its errors. -/
  errorHandling : ErrorHandlingConfig
  deriving DecidableEq, Repr

namespace SaferRingConfig

/-- The configuration by default. -/
def default : SaferRingConfig where
  ring := ⟨128, 0, false, none, none⟩
  buffer := ⟨4096, true, 64⟩
  performance := ⟨true, 32⟩
  logging := ⟨false, .info, none, false⟩
  advanced := .default
  errorHandling := ⟨false, 3⟩

/-- The configuration for low latency. -/
def lowLatency : SaferRingConfig where
  ring := ⟨32, 0, true, some 0, some 1⟩
  buffer := ⟨1024, true, 32⟩
  performance := ⟨false, 1⟩
  logging := ⟨false, .error, none, false⟩
  advanced :=
    { AdvancedConfig.default with
      bufferSelection := true
      providedBuffers := true
      fastPoll := true
      sqPoll := true
      sqThreadCpu := some 0
      coopTaskrun := true
      deferTaskrun := true }
  errorHandling := ⟨false, 0⟩

/-- The configuration for high throughput. -/
def highThroughput : SaferRingConfig where
  ring := ⟨1024, 2048, false, none, none⟩
  buffer := ⟨64 * 1024, true, 256⟩
  performance := ⟨true, 256⟩
  logging := ⟨true, .info, none, false⟩
  advanced :=
    { AdvancedConfig.default with
      bufferSelection := true
      multiShot := true
      providedBuffers := true
      coopTaskrun := true
      deferTaskrun := true }
  errorHandling := ⟨true, 3⟩

/-- The configuration for development. -/
def development : SaferRingConfig where
  ring := ⟨64, 0, false, none, none⟩
  buffer := ⟨4096, true, 32⟩
  performance := ⟨true, 16⟩
  logging := ⟨true, .debug, some "safer-ring.log", false⟩
  advanced := .default
  errorHandling := ⟨true, 1⟩

/-- The configuration for production. -/
def production : SaferRingConfig where
  ring := ⟨256, 0, false, none, none⟩
  buffer := ⟨8192, true, 128⟩
  performance := ⟨true, 64⟩
  logging := ⟨true, .warn, some "/var/log/safer-ring.log", true⟩
  advanced := .default
  errorHandling := ⟨true, 3⟩

/-- The configurations that come with the crate. -/
def presets : List SaferRingConfig :=
  [default, lowLatency, highThroughput, development, production]

variable (self : SaferRingConfig)

/-- **Check a configuration.** -/
def validate : Except SaferRingError Unit :=
  if self.ring.sqEntries = 0 then
    .error (.ioNew .invalidInput "SQ entries must be greater than 0")
  else if self.ring.sqEntries > 4096 then
    .error (.ioNew .invalidInput "SQ entries should not exceed 4096")
  else if self.buffer.defaultSize = 0 then
    .error (.ioNew .invalidInput "Default buffer size must be greater than 0")
  else if self.buffer.poolSize = 0 ∧ self.buffer.enablePooling then
    .error (.ioNew .invalidInput "Pool size must be greater than 0 when pooling is enabled")
  else if self.performance.maxBatchSize = 0 ∧ self.performance.batchSubmission then
    .error (.ioNew .invalidInput
      "Max batch size must be greater than 0 when batch submission is enabled")
  else if self.errorHandling.autoRetry ∧ self.errorHandling.maxRetries = 0 then
    .error (.ioNew .invalidInput "Max retries must be greater than 0 when auto retry is enabled")
  else .ok ()

/-- **A configuration passes** exactly when none of its counts that must not be zero is, and the
submission queue is not too long. -/
theorem validate_eq_ok_iff : self.validate = .ok () ↔
    (0 < self.ring.sqEntries ∧ self.ring.sqEntries ≤ 4096) ∧ 0 < self.buffer.defaultSize ∧
    (self.buffer.enablePooling → 0 < self.buffer.poolSize) ∧
    (self.performance.batchSubmission → 0 < self.performance.maxBatchSize) ∧
    (self.errorHandling.autoRetry → 0 < self.errorHandling.maxRetries) := by
  unfold validate
  split_ifs <;> grind

/-- **Every configuration that comes with the crate passes its own check.** -/
theorem validate_presets : ∀ config ∈ presets, config.validate = .ok () := by
  simp only [presets, List.forall_mem_cons, validate_eq_ok_iff]
  decide

end SaferRingConfig

end SaferRing
