import SaferRing.Features

/-!
# What is made of the features detected

A detector lists the features it has (`SaferRing.FeatureDetector.availableFeatures`), makes the
configuration that asks for all it would recommend
(`SaferRing.FeatureDetector.createOptimalConfig`), and may ask the kernel which operations it
supports besides looking at its version (`SaferRing.FeatureDetector.newWithProbing`).

* `SaferRing.FeatureDetector.createOptimalConfig_exact` – the configuration asks for every feature
  there is but for six, and is left alone when a ring is made with it;
* `SaferRing.FeatureDetector.availableFeatures_sublist` – a newer kernel lists what an older one
  does, and more;
* `SaferRing.FeatureDetector.newWithProbing_exact` – asking the kernel adds features, of seven, and
  none from 6.0 on.
-/

namespace SaferRing

/-! ### The order of versions -/

/-- **Versions are ordered** by their first number that differs. -/
theorem KernelVersion.ge_trans {v v' v'' : KernelVersion} (h : v''.ge v') (h' : v'.ge v) :
    v''.ge v := by
  simp only [ge, Bool.or_eq_true, Bool.and_eq_true, decide_eq_true_eq] at *
  omega

namespace FeatureDetector

variable (self : FeatureDetector) {name : String}

/-! ### Features by name -/

/-- The names of the features, in the order they are asked for. -/
def featureNames : List String := (ofVersion ⟨0, 0, 0⟩).known.map Prod.fst

/-- What is known is what is there, name by name. -/
theorem known_eq_map : self.known = featureNames.map fun name => (name, self.hasFeature name) := rfl

/-- A feature that is there has a name. -/
theorem mem_featureNames_of_hasFeature (h : self.hasFeature name = true) : name ∈ featureNames := by
  rw [hasFeature, known_eq_map] at h
  by_contra hname
  have hnone : (featureNames.map fun name => (name, self.hasFeature name)).lookup name = none := by
    refine List.lookup_eq_none_iff.mpr fun p hp => ?_
    obtain ⟨name', hname', rfl⟩ := List.mem_map.mp hp
    exact bne_iff_ne.mpr fun heq => hname (heq ▸ hname')
  rw [hnone] at h
  exact absurd h (by simp)

/-! ### The list of them -/

/-- The names in the order they are listed in. -/
def listedNames : List String :=
  ["fixed_files", "fixed_buffers", "fast_poll", "sq_poll", "buffer_selection", "provided_buffers",
    "multi_shot", "coop_taskrun", "defer_taskrun"] ++ featureNames.drop 9

/-- **`available_features`**: every feature in turn, where it is there. -/
def availableFeatures : List String :=
  ([("fixed_files", self.features.fixedFiles), ("fixed_buffers", self.features.fixedBuffers),
    ("fast_poll", self.features.fastPoll), ("sq_poll", self.features.sqPoll),
    ("buffer_selection", self.features.bufferSelection),
    ("provided_buffers", self.features.providedBuffers),
    ("multi_shot", self.features.multiShot), ("coop_taskrun", self.features.coopTaskrun),
    ("defer_taskrun", self.features.deferTaskrun),
    ("advanced_task_work", self.features.advancedTaskWork),
    ("defer_async_work", self.features.deferAsyncWork),
    ("send_zc_reporting", self.features.sendZcReporting),
    ("multishot_completion_batching", self.features.multishotCompletionBatching),
    ("epoll_uring_wake", self.features.epollUringWake),
    ("registered_ring_fd", self.features.registeredRingFd),
    ("multishot_timeouts", self.features.multishotTimeouts),
    ("user_allocated_ring_memory", self.features.userAllocatedRingMemory),
    ("async_cancel_op", self.features.asyncCancelOp),
    ("socket_command_support", self.features.socketCommandSupport),
    ("sysctl_disable_support", self.features.sysctlDisableSupport),
    ("direct_io_optimizations", self.features.directIoOptimizations),
    ("msg_ring_speedup", self.features.msgRingSpeedup),
    ("native_bind_listen", self.features.nativeBindListen),
    ("improved_huge_pages", self.features.improvedHugePages),
    ("async_discard", self.features.asyncDiscard),
    ("minimum_timeout_waits", self.features.minimumTimeoutWaits),
    ("absolute_timeouts", self.features.absoluteTimeouts),
    ("incremental_buffer_consumption", self.features.incrementalBufferConsumption),
    ("registered_buffer_cloning", self.features.registeredBufferCloning)].filter
      Prod.snd).map Prod.fst

/-- What is listed are the names, where the feature is there. -/
theorem availableFeatures_eq_filter :
    self.availableFeatures = listedNames.filter self.hasFeature := by
  change ((listedNames.map fun name => (name, self.hasFeature name)).filter Prod.snd).map
    Prod.fst = _
  rw [List.filter_map, List.map_map]
  exact List.map_id _

/-- Every name is listed. -/
theorem featureNames_subset_listedNames : featureNames ⊆ listedNames := by decide

/-- **What is listed is what is there**, once each. -/
theorem mem_availableFeatures :
    name ∈ self.availableFeatures ↔ self.hasFeature name = true := by
  rw [availableFeatures_eq_filter, List.mem_filter]
  exact and_iff_right_of_imp fun h =>
    featureNames_subset_listedNames (self.mem_featureNames_of_hasFeature h)

theorem nodup_availableFeatures : self.availableFeatures.Nodup := by
  have hlisted : listedNames.Nodup := by decide
  rw [availableFeatures_eq_filter]
  exact hlisted.filter _

/-! ### Newer kernels -/

/-- The version each feature came with. -/
def since : List (String × KernelVersion) :=
  featureNames.zip ([⟨5, 13, 0⟩, ⟨5, 19, 0⟩, ⟨5, 13, 0⟩, ⟨5, 7, 0⟩, ⟨5, 11, 0⟩, ⟨6, 0, 0⟩,
    ⟨6, 0, 0⟩, ⟨5, 1, 0⟩, ⟨5, 1, 0⟩, ⟨6, 1, 0⟩, ⟨6, 1, 0⟩, ⟨6, 2, 0⟩, ⟨6, 2, 0⟩, ⟨6, 2, 0⟩,
    ⟨6, 3, 0⟩, ⟨6, 4, 0⟩, ⟨6, 5, 0⟩, ⟨6, 6, 0⟩, ⟨6, 6, 0⟩, ⟨6, 6, 0⟩, ⟨6, 6, 0⟩, ⟨6, 11, 0⟩,
    ⟨6, 11, 0⟩] ++
    List.replicate 6 ⟨6, 12, 0⟩)

/-- What is there at a version came with it, or before. -/
theorem known_ofVersion (v : KernelVersion) :
    (ofVersion v).known = since.map fun (name, first) => (name, v.ge first) := rfl

/-- **A newer kernel has what an older one has.** -/
theorem hasFeature_mono {v v' : KernelVersion} (h : v'.ge v)
    (hname : (ofVersion v).hasFeature name = true) : (ofVersion v').hasFeature name = true := by
  have hlookup : ∀ (first : List (String × KernelVersion)),
      ((first.map fun (name, first) => (name, v.ge first)).lookup name).getD false = true →
      ((first.map fun (name, first) => (name, v'.ge first)).lookup name).getD false = true := by
    intro first
    induction first with
    | nil => exact fun hnone => hnone
    | cons p rest ih =>
      obtain ⟨name', first⟩ := p
      simp only [List.map_cons, List.lookup_cons]
      rcases name == name' with _ | _
      · exact ih
      · exact fun hfirst => KernelVersion.ge_trans h hfirst
  rw [hasFeature, known_ofVersion] at hname ⊢
  exact hlookup since hname

/-- **A newer kernel lists what an older one does**, in the same order, and each feature is listed
once, exactly where it is there: for all versions. -/
theorem availableFeatures_sublist {v v' : KernelVersion} (h : v'.ge v) :
    (ofVersion v).availableFeatures.Sublist (ofVersion v').availableFeatures ∧
      (ofVersion v').availableFeatures.Nodup ∧
      ∀ name, name ∈ (ofVersion v').availableFeatures ↔ (ofVersion v').hasFeature name = true := by
  refine ⟨?_, nodup_availableFeatures _, fun name => mem_availableFeatures _⟩
  rw [availableFeatures_eq_filter, availableFeatures_eq_filter]
  exact List.monotone_filter_right listedNames fun name hname => hasFeature_mono h hname

/-- Between 5.13 and 6.1 features were added. -/
theorem availableFeatures_upgraded :
    (ofVersion ⟨5, 13, 0⟩).availableFeatures.Sublist (ofVersion ⟨6, 1, 12⟩).availableFeatures :=
  (@availableFeatures_sublist ⟨5, 13, 0⟩ ⟨6, 1, 12⟩ (by decide)).1

/-! ### The configuration that asks for them -/

/-- **`create_optimal_config`**: everything there is, but for three features that cost, or that an
application must be made for. -/
def createOptimalConfig : AdvancedConfig where
  bufferSelection := self.features.bufferSelection
  multiShot := self.features.multiShot
  providedBuffers := self.features.providedBuffers
  fastPoll := self.features.fastPoll
  sqPoll := false
  sqThreadCpu := none
  coopTaskrun := self.features.coopTaskrun
  deferTaskrun := self.features.deferTaskrun
  advancedTaskWork := self.features.advancedTaskWork
  deferAsyncWork := false
  sendZcReporting := self.features.sendZcReporting
  multishotCompletionBatching := self.features.multishotCompletionBatching
  epollUringWake := self.features.epollUringWake
  registeredRingFd := self.features.registeredRingFd
  multishotTimeouts := self.features.multishotTimeouts
  userAllocatedRingMemory := false
  asyncCancelOp := self.features.asyncCancelOp
  socketCommandSupport := self.features.socketCommandSupport
  directIoOptimizations := self.features.directIoOptimizations
  msgRingSpeedup := self.features.msgRingSpeedup
  nativeBindListen := self.features.nativeBindListen
  improvedHugePages := self.features.improvedHugePages
  asyncDiscard := self.features.asyncDiscard
  minimumTimeoutWaits := self.features.minimumTimeoutWaits
  absoluteTimeouts := self.features.absoluteTimeouts
  incrementalBufferConsumption := self.features.incrementalBufferConsumption
  registeredBufferCloning := self.features.registeredBufferCloning

/-- The features that are not asked for: three are kept off, and three are no part of a
configuration. -/
def notAskedFor : List String :=
  ["sq_poll", "defer_async_work", "user_allocated_ring_memory", "fixed_files", "fixed_buffers",
    "sysctl_disable_support"]

/-- Whether a feature is asked for. -/
def asksFor (name : String) : Bool := !notAskedFor.contains name && self.hasFeature name

/-- What is asked for, name by name. -/
theorem flags_createOptimalConfig : self.createOptimalConfig.flags =
    (AdvancedConfig.default.flags.map Prod.fst).map fun name => (name, self.asksFor name) := rfl

/-- Every name that is not kept off can be asked for. -/
theorem featureNames_subset_flags : ∀ name ∈ featureNames, name ∉ notAskedFor →
    name ∈ AdvancedConfig.default.flags.map Prod.fst := by
  decide

/-- **The configuration asks for every feature there is but for six**, and for no other, for any
detector; when a ring is made with it, nothing is switched off, and no warning is logged. -/
theorem createOptimalConfig_exact (now : ℤ) (logger : Option Logger) :
    (∀ name, name ∈ self.createOptimalConfig.enabledFeatures ↔
      self.hasFeature name = true ∧ name ∉ notAskedFor) ∧
    adjustAdvanced self self.createOptimalConfig now logger =
      (self.createOptimalConfig, logger) := by
  constructor
  · intro name
    rw [AdvancedConfig.mem_enabledFeatures, flags_createOptimalConfig, List.mem_map]
    constructor
    · rintro ⟨name', -, hname⟩
      obtain ⟨rfl, hasks⟩ := Prod.mk.inj hname
      rw [asksFor, Bool.and_eq_true, Bool.not_eq_true', List.contains_eq_mem,
        decide_eq_false_iff_not] at hasks
      exact hasks.symm
    · rintro ⟨hhas, hnot⟩
      refine ⟨name, featureNames_subset_flags name (self.mem_featureNames_of_hasFeature hhas) hnot,
        ?_⟩
      rw [asksFor, hhas, List.contains_eq_mem, decide_eq_false hnot]
      rfl
  · have hnone : ∀ enabled warning,
        switchOff enabled enabled now warning logger = (enabled, logger) := by
      intro enabled warning
      rcases enabled with _ | _ <;> rfl
    have hbuffer : self.hasFeature "buffer_selection" = self.features.bufferSelection := rfl
    have hmulti : self.hasFeature "multi_shot" = self.features.multiShot := rfl
    simp only [adjustAdvanced, createOptimalConfig, hbuffer, hmulti, hnone]

/-! ### Asking the kernel -/

/-- The operations that the kernel is asked about, by their codes. -/
inductive ProbedOpcode
  /-- `Read`. -/
  | read
  /-- `Write`. -/
  | write
  /-- `PollAdd`. -/
  | pollAdd
  /-- `Recv`. -/
  | recv
  /-- `Accept`. -/
  | accept
  /-- `SendZc`. -/
  | sendZc
  /-- `Timeout`. -/
  | timeout
  /-- `AsyncCancel`. -/
  | asyncCancel
  deriving DecidableEq

/-- **`probe_kernel_features`**: the features that the operations supported stand for. -/
def probeKernelFeatures (isOpcodeSupported : ProbedOpcode → Bool) : AvailableFeatures where
  fixedFiles := isOpcodeSupported .read && isOpcodeSupported .write
  fixedBuffers := isOpcodeSupported .read
  fastPoll := isOpcodeSupported .pollAdd
  sqPoll := true
  bufferSelection := isOpcodeSupported .recv
  providedBuffers := isOpcodeSupported .recv
  multiShot := isOpcodeSupported .accept
  coopTaskrun := false
  deferTaskrun := false
  advancedTaskWork := false
  deferAsyncWork := false
  sendZcReporting := isOpcodeSupported .sendZc
  multishotCompletionBatching := false
  epollUringWake := false
  registeredRingFd := false
  multishotTimeouts := isOpcodeSupported .timeout
  userAllocatedRingMemory := false
  asyncCancelOp := isOpcodeSupported .asyncCancel
  socketCommandSupport := false
  sysctlDisableSupport := false
  directIoOptimizations := false
  msgRingSpeedup := false
  nativeBindListen := false
  improvedHugePages := false
  asyncDiscard := false
  minimumTimeoutWaits := false
  absoluteTimeouts := false
  incrementalBufferConsumption := false
  registeredBufferCloning := false

/-- **`merge_feature_detection`**: of nine features what either way says, of the others what the
version says. -/
def mergeFeatureDetection (versionFeatures probeFeatures : AvailableFeatures) :
    AvailableFeatures :=
  { versionFeatures with
    fixedFiles := versionFeatures.fixedFiles || probeFeatures.fixedFiles
    fixedBuffers := versionFeatures.fixedBuffers || probeFeatures.fixedBuffers
    fastPoll := versionFeatures.fastPoll || probeFeatures.fastPoll
    sqPoll := versionFeatures.sqPoll || probeFeatures.sqPoll
    bufferSelection := versionFeatures.bufferSelection || probeFeatures.bufferSelection
    providedBuffers := versionFeatures.providedBuffers || probeFeatures.providedBuffers
    multiShot := versionFeatures.multiShot || probeFeatures.multiShot
    coopTaskrun := versionFeatures.coopTaskrun || probeFeatures.coopTaskrun
    deferTaskrun := versionFeatures.deferTaskrun || probeFeatures.deferTaskrun }

/-- **`new_with_probing`**: by the version, and by what the kernel answers where it can be asked. -/
def newWithProbing (uname : Except IoError String)
    (probe : Except SaferRingError (ProbedOpcode → Bool)) :
    Except SaferRingError FeatureDetector :=
  match FeatureDetector.new uname with
  | .error e => .error e
  | .ok detector =>
    match probe with
    | .ok isOpcodeSupported =>
      let probeFeatures := probeKernelFeatures isOpcodeSupported
      .ok ⟨detector.kernelVersion, mergeFeatureDetection detector.features probeFeatures⟩
    | .error _ => .ok detector

/-- The features that answers are merged for. -/
def mergedNames : List String := featureNames.take 9

/-- Whether a feature is there by version, or can be added and is there by answer. -/
def mergedFeature (version : KernelVersion) (features probed : AvailableFeatures) (name : String) :
    Bool :=
  bif mergedNames.contains name then
    (FeatureDetector.mk version features).hasFeature name ||
      (FeatureDetector.mk version probed).hasFeature name
  else (FeatureDetector.mk version features).hasFeature name

/-- What is there once both were asked, name by name. -/
theorem known_merge (version : KernelVersion) (features probed : AvailableFeatures) :
    (FeatureDetector.mk version (mergeFeatureDetection features probed)).known =
      featureNames.map fun name => (name, mergedFeature version features probed name) := rfl

/-- **What is there once both were asked** is there by version, or is one of nine and there by
answer. -/
theorem hasFeature_merge (version : KernelVersion) (features probed : AvailableFeatures)
    (name : String) :
    (FeatureDetector.mk version (mergeFeatureDetection features probed)).hasFeature name = true ↔
      (FeatureDetector.mk version features).hasFeature name = true ∨
        name ∈ mergedNames ∧ (FeatureDetector.mk version probed).hasFeature name = true := by
  let merged := FeatureDetector.mk version (mergeFeatureDetection features probed)
  have hmerged : ∀ name ∈ featureNames,
      merged.hasFeature name = mergedFeature version features probed name := by
    intro name hname
    have heq := (merged.known_eq_map).symm.trans (known_merge version features probed)
    exact (Prod.mk.inj (List.map_inj_left.mp heq name hname)).2
  by_cases hname : name ∈ featureNames
  · change merged.hasFeature name = true ↔ _
    rw [hmerged name hname, mergedFeature, List.contains_eq_mem]
    by_cases hnine : name ∈ mergedNames
    · simp [hnine]
    · simp [hnine]
  · have hnone : ∀ detector : FeatureDetector, detector.hasFeature name ≠ true :=
      fun detector h => hname (detector.mem_featureNames_of_hasFeature h)
    simp [hnone]

/-- The features that asking adds, and the operations that stand for each: none for the polling of
the submission queue, which any kernel has that can be asked. -/
def addedBy : List (String × List ProbedOpcode) :=
  [("buffer_selection", [.recv]), ("multi_shot", [.accept]), ("provided_buffers", [.recv]),
    ("fast_poll", [.pollAdd]), ("sq_poll", []), ("fixed_files", [.read, .write]),
    ("fixed_buffers", [.read])]

/-- A feature that asking adds is there by answer exactly when its operations are supported. -/
theorem hasFeature_probed (version : KernelVersion) (isOpcodeSupported : ProbedOpcode → Bool) :
    ∀ p ∈ addedBy, (FeatureDetector.mk version (probeKernelFeatures isOpcodeSupported)).hasFeature
      p.1 = p.2.all isOpcodeSupported := by
  simp only [addedBy, List.forall_mem_cons, List.all_cons, List.all_nil, Bool.and_true]
  exact ⟨rfl, rfl, rfl, rfl, rfl, rfl, rfl, by simp⟩

/-- **Of the nine features that the answers are merged for, seven are ever there by answer**: task
running, cooperative or deferred, is not. -/
theorem mem_mergedNames_and_hasFeature (version : KernelVersion)
    (isOpcodeSupported : ProbedOpcode → Bool) :
    name ∈ mergedNames ∧ (FeatureDetector.mk version
        (probeKernelFeatures isOpcodeSupported)).hasFeature name = true ↔
      ∃ needed, (name, needed) ∈ addedBy ∧ ∀ opcode ∈ needed, isOpcodeSupported opcode = true := by
  have hnine : ∀ name ∈ mergedNames,
      name ∈ addedBy.map Prod.fst ∨ name = "coop_taskrun" ∨ name = "defer_taskrun" := by decide
  have hseven : ∀ p ∈ addedBy, p.1 ∈ mergedNames := by decide
  constructor
  · rintro ⟨hname, hprobed⟩
    rcases hnine name hname with hadded | rfl | rfl
    · obtain ⟨⟨name, needed⟩, hmem, rfl⟩ := List.mem_map.mp hadded
      rw [hasFeature_probed version isOpcodeSupported _ hmem] at hprobed
      exact ⟨needed, hmem, List.all_eq_true.mp hprobed⟩
    · exact absurd hprobed Bool.false_ne_true
    · exact absurd hprobed Bool.false_ne_true
  · rintro ⟨needed, hmem, hall⟩
    refine ⟨hseven _ hmem, ?_⟩
    rw [hasFeature_probed version isOpcodeSupported _ hmem]
    exact List.all_eq_true.mpr hall

/-- From 6.0 on every feature that asking adds is there by version. -/
theorem hasFeature_of_mem_addedBy {v : KernelVersion} (h : v.ge ⟨6, 0, 0⟩) :
    ∀ p ∈ addedBy, (ofVersion v).hasFeature p.1 = true := by
  have hsix : ∀ p ∈ addedBy, (ofVersion ⟨6, 0, 0⟩).hasFeature p.1 = true := by decide
  exact fun p hp => hasFeature_mono h (hsix p hp)

/-- What was detected by version is what the version has. -/
theorem eq_ofVersion {uname : Except IoError String} {detector : FeatureDetector}
    (h : FeatureDetector.new uname = .ok detector) :
    detector = ofVersion detector.kernelVersion := by
  unfold FeatureDetector.new at h
  split at h
  · exact absurd h (by simp)
  · split at h
    · exact absurd h (by simp)
    · obtain rfl := Except.ok.inj h
      rfl

/-- A detector is told by its version and by what it answers for the names. -/
theorem ext_hasFeature {detector other : FeatureDetector}
    (hversion : detector.kernelVersion = other.kernelVersion)
    (h : ∀ name, detector.hasFeature name = other.hasFeature name) : detector = other := by
  have hknown : detector.known = other.known := by
    rw [known_eq_map, known_eq_map]
    exact List.map_congr_left fun name _ => by rw [h name]
  obtain ⟨version, features⟩ := detector
  obtain ⟨version', features'⟩ := other
  obtain rfl : version = version' := hversion
  rcases features
  rcases features'
  simpa [known] using hknown

/-- **What asking the kernel makes of a detector**: a feature is there when it is by version, or
when the kernel can be asked, and the operations that stand for it are supported. -/
theorem hasFeature_newWithProbing {uname : Except IoError String}
    {probe : Except SaferRingError (ProbedOpcode → Bool)} {detector asked : FeatureDetector}
    (hdetector : FeatureDetector.new uname = .ok detector)
    (hasked : newWithProbing uname probe = .ok asked) :
    asked.kernelVersion = detector.kernelVersion ∧
    ∀ name, asked.hasFeature name = true ↔ detector.hasFeature name = true ∨
      ∃ isOpcodeSupported needed, probe = .ok isOpcodeSupported ∧ (name, needed) ∈ addedBy ∧
        ∀ opcode ∈ needed, isOpcodeSupported opcode = true := by
  unfold newWithProbing at hasked
  rw [hdetector] at hasked
  rcases probe with e | isOpcodeSupported
  · obtain rfl := Except.ok.inj hasked
    refine ⟨rfl, fun name => ?_⟩
    simp
  · obtain rfl := Except.ok.inj hasked
    refine ⟨rfl, fun name => (hasFeature_merge _ _ _ name).trans (or_congr_right ?_)⟩
    rw [mem_mergedNames_and_hasFeature]
    constructor
    · rintro ⟨needed, hneeded⟩
      exact ⟨isOpcodeSupported, needed, rfl, hneeded⟩
    · rintro ⟨_, needed, heq, hneeded⟩
      obtain rfl := Except.ok.inj heq
      exact ⟨needed, hneeded⟩

/-- **Asking the kernel adds features, of seven, and none from 6.0 on.** Detection with asking fails
as detection by the version alone does; else the version is the same, and a feature is there exactly
when it is by the version, or when it is one of the seven, the kernel can be asked, and all
operations that stand for it are supported. So all that is listed by the version is listed, in the
same order, with at most seven features more; and when the version is 6.0 or newer, whatever the
kernel answers, nothing changes. -/
theorem newWithProbing_exact (uname : Except IoError String)
    (probe : Except SaferRingError (ProbedOpcode → Bool)) :
    (∀ e, newWithProbing uname probe = .error e ↔ FeatureDetector.new uname = .error e) ∧
    ∀ detector asked, FeatureDetector.new uname = .ok detector →
      newWithProbing uname probe = .ok asked → asked.kernelVersion = detector.kernelVersion ∧
      (∀ name, asked.hasFeature name = true ↔ detector.hasFeature name = true ∨
        ∃ isOpcodeSupported needed, probe = .ok isOpcodeSupported ∧ (name, needed) ∈ addedBy ∧
          ∀ opcode ∈ needed, isOpcodeSupported opcode = true) ∧
      detector.availableFeatures.Sublist asked.availableFeatures ∧
      asked.availableFeatures.length ≤ detector.availableFeatures.length + 7 ∧
      (detector.kernelVersion.ge ⟨6, 0, 0⟩ → asked = detector) := by
  constructor
  · intro e
    unfold newWithProbing
    rcases FeatureDetector.new uname with e' | detector
    · rfl
    · rcases probe with _ | _ <;> simp
  · intro detector asked hdetector hasked
    obtain ⟨hversion, hfeature⟩ := hasFeature_newWithProbing hdetector hasked
    refine ⟨hversion, hfeature, ?_, ?_, fun hsix => ?_⟩
    · rw [availableFeatures_eq_filter, availableFeatures_eq_filter]
      exact List.monotone_filter_right listedNames fun name h => (hfeature name).mpr (.inl h)
    · -- what is listed anew is one of the seven
      have hsubset : asked.availableFeatures ⊆
          detector.availableFeatures ++ addedBy.map Prod.fst := by
        intro name hname
        rw [mem_availableFeatures, hfeature] at hname
        rw [List.mem_append, mem_availableFeatures]
        refine hname.imp_right ?_
        rintro ⟨_, needed, -, hmem, -⟩
        exact List.mem_map.mpr ⟨_, hmem, rfl⟩
      have hlength := (List.subperm_of_subset asked.nodup_availableFeatures hsubset).length_le
      rwa [List.length_append] at hlength
    · refine ext_hasFeature hversion fun name => Bool.eq_iff_iff.mpr ?_
      rw [hfeature name]
      refine or_iff_left_of_imp ?_
      rintro ⟨_, needed, -, hmem, -⟩
      rw [eq_ofVersion hdetector]
      exact hasFeature_of_mem_addedBy hsix _ hmem

end FeatureDetector

end SaferRing
