import SaferRing.Features

/-!
# Setting a ring up

`SaferRing.Ring.withConfig` checks a configuration, starts the logger, and sets up an io_uring
instance with what was asked for (`SaferRing.UringCrate.configured`). The ring it returns has
another one: the backend sets up its own, and is told of the submission queue only. So
`SaferRing.honours_iff` is that **a ring honours its configuration exactly when this asks for
nothing but the entries of the submission queue**.
-/

namespace SaferRing

/-! ### The crate -/

/-- What an instance is set up with, beside the entries of its submission queue. -/
structure SetupParams where
  /-- The entries of the completion queue, if they were asked for. -/
  cqEntries : Option ℕ
  /-- Whether the kernel polls the submission queue. -/
  sqPoll : Bool
  /-- After how long the polling thread goes to sleep. -/
  sqThreadIdle : ℕ
  /-- Its processor, if one was asked for. -/
  sqThreadCpu : Option ℕ
  /-- Whether tasks run cooperatively. -/
  coopTaskrun : Bool
  /-- Whether tasks are deferred. -/
  deferTaskrun : Bool
  deriving DecidableEq, Repr

/-- What an instance is set up with when nothing was asked for. -/
def SetupParams.default : SetupParams := ⟨none, false, 0, none, false, false⟩

/-- **What setting up relies on of the io_uring crate and the kernel**, as they document it. -/
structure UringCrate where
  /-- What an instance is built from. -/
  Builder : Type
  /-- A new builder. -/
  builder : Builder
  /-- Ask for polling, with an idle time. -/
  setupSqpoll : ℕ → Builder → Builder
  /-- Ask for a processor to poll on. -/
  setupSqpollCpu : ℕ → Builder → Builder
  /-- Ask for a size of the completion queue. -/
  setupCqsize : ℕ → Builder → Builder
  /-- Ask for cooperative task running. -/
  setupCoopTaskrun : Builder → Builder
  /-- Ask for deferred task running. -/
  setupDeferTaskrun : Builder → Builder
  /-- What was asked for. -/
  params : Builder → SetupParams
  /-- Nothing is asked for by a new builder. -/
  params_builder : params builder = .default
  /-- Polling is asked for. -/
  params_setupSqpoll : ∀ idle b,
    params (setupSqpoll idle b) = { params b with sqPoll := true, sqThreadIdle := idle }
  /-- A processor is asked for. -/
  params_setupSqpollCpu : ∀ cpu b,
    params (setupSqpollCpu cpu b) = { params b with sqThreadCpu := some cpu }
  /-- A size is asked for. -/
  params_setupCqsize : ∀ entries b,
    params (setupCqsize entries b) = { params b with cqEntries := some entries }
  /-- Cooperative task running is asked for. -/
  params_setupCoopTaskrun : ∀ b,
    params (setupCoopTaskrun b) = { params b with coopTaskrun := true }
  /-- Deferred task running is asked for. -/
  params_setupDeferTaskrun : ∀ b,
    params (setupDeferTaskrun b) = { params b with deferTaskrun := true }

/-- **An io_uring instance**, by what it was set up with. What the kernel makes of a number of
entries, which it rounds up, is its own affair. -/
structure UringInstance where
  /-- Its descriptor. -/
  fd : ℕ
  /-- The entries its submission queue was set up with. -/
  sqEntries : ℕ
  /-- What else was asked for. -/
  params : SetupParams
  deriving DecidableEq, Repr

namespace UringCrate

variable (K : UringCrate)

/-- Build an instance, if the kernel answers with a descriptor. -/
def build (b : K.Builder) (entries : ℕ) (answer : Except IoError ℕ) :
    Except IoError UringInstance :=
  answer.map fun fd => ⟨fd, entries, K.params b⟩

/-- An instance nothing is asked for, `IoUring::new`. -/
def newInstance (entries : ℕ) (answer : Except IoError ℕ) : Except IoError UringInstance :=
  K.build K.builder entries answer

/-- Do something to a builder in a certain case. -/
def setupIf (c : Bool) (setup : K.Builder → K.Builder) (b : K.Builder) : K.Builder :=
  if c then setup b else b

/-- Do something to a builder with a value, if there is one. -/
def setupWith (value : Option ℕ) (setup : ℕ → K.Builder → K.Builder) (b : K.Builder) :
    K.Builder :=
  match value with
  | none => b
  | some n => setup n b

/-- **The builder with what a configuration asks for.** -/
def configured (config : SaferRingConfig) : K.Builder :=
  let b := K.setupSqpoll config.ring.sqEntries K.builder
  let b := K.setupIf (config.ring.cqEntries > 0) (K.setupCqsize config.ring.cqEntries) b
  let b := K.setupIf config.ring.sqPoll
    (fun b =>
      let b := K.setupSqpoll config.ring.sqEntries b
      let b := K.setupWith config.ring.sqThreadCpu K.setupSqpollCpu b
      K.setupWith config.ring.sqThreadIdle K.setupSqpoll b) b
  let b := K.setupIf config.advanced.coopTaskrun K.setupCoopTaskrun b
  K.setupIf config.advanced.deferTaskrun K.setupDeferTaskrun b

end UringCrate

/-! ### Making a ring -/

/-- What the system answers while a ring is made. -/
structure SetupAnswers where
  /-- What time it is. -/
  now : ℤ
  /-- The descriptor of the configured instance, or an error. -/
  configured : Except IoError ℕ
  /-- The descriptor of the backend's instance, or an error. -/
  backend : Except IoError ℕ
  /-- Whether there is a runtime that watches descriptors. -/
  inRuntime : Bool
  /-- Whether it watches this one. -/
  watched : Bool

/-- **A ring that was made**, with the instance its backend submits to. -/
structure MadeRing where
  /-- The ring. -/
  ring : Ring
  /-- The instance. -/
  uring : UringInstance
  /-- The descriptor the runtime watches, if it does. -/
  asyncFd : Option ℕ

/-- The logger a configuration asks for: the one there is, or a new one. -/
def LoggingConfig.start (config : LoggingConfig) (logger : Option Logger) : Option Logger :=
  if config.enabled then
    let logger := { logger.getD .new with minLevel := config.level }
    some
      (match config.logFile with
      | none => logger
      | some path => { logger with outputs := logger.outputs ++ [.file path config.jsonFormat] })
  else logger

namespace Ring

/-- **Make a ring from a configuration.** The instance that is built from it is closed on
return, and the backend has its own. -/
def withConfig (K : UringCrate) (config : SaferRingConfig) (answers : SetupAnswers)
    (logger : Option Logger) : Except SaferRingError MadeRing × Option Logger :=
  match config.validate with
  | .error e => (.error e, logger)
  | .ok () =>
    let logger := config.logging.start logger
    match K.build (K.configured config) config.ring.sqEntries answers.configured with
    | .error e => (.error (.io e), logger)
    | .ok _inner =>
      let created := s!"Created ring with {config.ring.sqEntries} SQ entries, " ++
        s!"{max config.ring.cqEntries config.ring.sqEntries} CQ entries"
      let logger := logger.map fun logger => logger.log answers.now .info "ring" created
      match K.newInstance config.ring.sqEntries answers.backend with
      | .error e => (.error (.io e), logger)
      | .ok uring =>
        let asyncFd := if answers.inRuntime && answers.watched then some uring.fd else none
        (.ok ⟨.new, uring, asyncFd⟩, logger)

/-- **Make a ring with features**, as far as the kernel has them. -/
def withAdvancedConfig (K : UringCrate) (config : AdvancedConfig)
    (uname : Except IoError String) (answers : SetupAnswers) (logger : Option Logger) :
    Except SaferRingError MadeRing × Option Logger :=
  match FeatureDetector.new uname with
  | .error e => (.error e, logger)
  | .ok detector =>
    let (config, logger) := adjustedConfig detector config answers.now logger
    withConfig K config answers logger

end Ring

/-! ### Honouring a configuration -/

/-- **An instance honours a configuration**: it was set up with the sizes of the queues that are
asked for, and to poll, and to run its tasks, as is asked for. -/
structure Honours (config : SaferRingConfig) (uring : UringInstance) : Prop where
  /-- The submission queue was set up with the entries asked for. -/
  sqEntries : uring.sqEntries = config.ring.sqEntries
  /-- So was the completion queue, where entries are asked for. -/
  cqEntries : 0 < config.ring.cqEntries → uring.params.cqEntries = some config.ring.cqEntries
  /-- The kernel polls exactly when it was asked to. -/
  sqPoll : uring.params.sqPoll = config.ring.sqPoll
  /-- It polls with the idle time asked for. -/
  sqThreadIdle : config.ring.sqPoll → ∀ idle ∈ config.ring.sqThreadIdle,
    uring.params.sqThreadIdle = idle
  /-- It polls on the processor asked for. -/
  sqThreadCpu : config.ring.sqPoll → ∀ cpu ∈ config.ring.sqThreadCpu,
    uring.params.sqThreadCpu = some cpu
  /-- Tasks run cooperatively exactly when that was asked for. -/
  coopTaskrun : uring.params.coopTaskrun = config.advanced.coopTaskrun
  /-- Tasks are deferred exactly when that was asked for. -/
  deferTaskrun : uring.params.deferTaskrun = config.advanced.deferTaskrun

variable {K : UringCrate} {config : SaferRingConfig} {answers : SetupAnswers}
  {logger after : Option Logger} {made : MadeRing}

/-- **The instance of a ring that was made** is one nothing was asked for. -/
theorem uring_of_withConfig
    (h : Ring.withConfig K config answers logger = (.ok made, after)) :
    made.uring.sqEntries = config.ring.sqEntries ∧ made.uring.params = .default := by
  rw [Ring.withConfig] at h
  rcases hvalid : config.validate with e | ⟨⟨⟩⟩
  · simp only [hvalid] at h
    cases h
  rcases hinner : K.build (K.configured config) config.ring.sqEntries answers.configured with
    e | inner
  · simp only [hvalid, hinner] at h
    cases h
  rcases hbackend : K.newInstance config.ring.sqEntries answers.backend with e | uring
  · simp only [hvalid, hinner, hbackend] at h
    cases h
  · simp only [hvalid, hinner, hbackend] at h
    obtain rfl := Except.ok.inj (Prod.mk.inj h).1
    rw [UringCrate.newInstance, UringCrate.build] at hbackend
    rcases hfd : answers.backend with e | fd
    · rw [hfd] at hbackend
      cases hbackend
    · rw [hfd] at hbackend
      obtain rfl := Except.ok.inj hbackend
      exact ⟨rfl, K.params_builder⟩

/-- **A ring honours its configuration exactly when this asks for nothing** beside the entries of
the submission queue: for no entries of the completion queue, no polling, and no way to run
tasks. -/
theorem honours_iff (K : UringCrate) (config : SaferRingConfig) (answers : SetupAnswers)
    (logger after : Option Logger) (made : MadeRing)
    (h : Ring.withConfig K config answers logger = (.ok made, after)) :
    Honours config made.uring ↔
      config.ring.cqEntries = 0 ∧ config.ring.sqPoll = false ∧
        config.advanced.coopTaskrun = false ∧ config.advanced.deferTaskrun = false := by
  obtain ⟨hentries, hparams⟩ := uring_of_withConfig h
  constructor
  · intro hon
    refine ⟨?_, ?_, ?_, ?_⟩
    · by_contra hne
      have hcq := hon.cqEntries (Nat.pos_of_ne_zero hne)
      rw [hparams] at hcq
      exact absurd hcq (by simp [SetupParams.default])
    · rw [← hon.sqPoll, hparams]
      rfl
    · rw [← hon.coopTaskrun, hparams]
      rfl
    · rw [← hon.deferTaskrun, hparams]
      rfl
  · rintro ⟨hsize, hpoll, hcoop, hdefer⟩
    refine ⟨hentries, fun hpos => ?_, ?_, fun hc => ?_, fun hc => ?_, ?_, ?_⟩
    · exact absurd hsize (Nat.ne_of_gt hpos)
    · rw [hparams, hpoll]
      rfl
    · exact absurd (hc.symm.trans hpoll) (by decide)
    · exact absurd (hc.symm.trans hpoll) (by decide)
    · rw [hparams, hcoop]
      rfl
    · rw [hparams, hdefer]
      rfl

/-- The crate, with what was asked for as a builder. -/
def plainCrate : UringCrate where
  Builder := SetupParams
  builder := .default
  setupSqpoll idle b := { b with sqPoll := true, sqThreadIdle := idle }
  setupSqpollCpu cpu b := { b with sqThreadCpu := some cpu }
  setupCqsize entries b := { b with cqEntries := some entries }
  setupCoopTaskrun b := { b with coopTaskrun := true }
  setupDeferTaskrun b := { b with deferTaskrun := true }
  params b := b
  params_builder := rfl
  params_setupSqpoll _ _ := rfl
  params_setupSqpollCpu _ _ := rfl
  params_setupCqsize _ _ := rfl
  params_setupCoopTaskrun _ := rfl
  params_setupDeferTaskrun _ := rfl

/-- A system that gives descriptors 3 and 4. -/
def twoDescriptors : SetupAnswers := ⟨0, .ok 3, .ok 4, false, false⟩

/-- A ring made by default honours its configuration. -/
theorem honours_default : Honours .default ⟨4, 128, .default⟩ :=
  (honours_iff plainCrate .default twoDescriptors none none ⟨.new, ⟨4, 128, .default⟩, none⟩
    rfl).mpr ⟨rfl, rfl, rfl, rfl⟩

/-- **A larger completion queue and a polling thread are asked for in vain.** -/
theorem not_honours_polling :
    (∃ made after, Ring.withConfig plainCrate { SaferRingConfig.default with
          ring := ⟨128, 1024, false, none, none⟩ } twoDescriptors none = (.ok made, after) ∧
      ¬Honours { SaferRingConfig.default with
          ring := ⟨128, 1024, false, none, none⟩ } made.uring) ∧
    ∃ made after, Ring.withConfig plainCrate { SaferRingConfig.default with
          ring := ⟨128, 0, true, some 0, some 1⟩ } twoDescriptors none = (.ok made, after) ∧
      ¬Honours { SaferRingConfig.default with
          ring := ⟨128, 0, true, some 0, some 1⟩ } made.uring := by
  refine ⟨⟨_, _, rfl, fun h => ?_⟩, _, _, rfl, fun h => ?_⟩
  · exact absurd (h.cqEntries (by decide)) (by decide)
  · exact absurd h.sqPoll (by decide)

end SaferRing
