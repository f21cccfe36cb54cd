import Mathlib.Data.List.Induction
import SaferRing.Compat
import SaferRing.Library.Run
import SaferRing.Logging.Metrics

/-!
# Runs of a logger

A `SaferRing.MeteredLogger` is a logger with the metrics of what it is told took how long, behind a
lock. The calls of it may come in any order, with outputs added and the level changed in between,
and an output may refuse an entry, before or after it has taken a part of it
(`SaferRing.WriteAnswer`). A file that does is complained about on the standard error; the standard
error itself panics, and then the entry goes to no more outputs and a timing is not recorded.

A sum of durations that is too long panics while the lock is held, which poisons it. So **the
metrics are there exactly as long as all sums have fit**, and sum up what was timed since they were
last reset: `SaferRing.MeteredLogger.getMetrics_exact`.
-/

namespace SaferRing

/-! ### What errors say -/

/-- The text of an error, with those of the C library. -/
def ErrorText.render (strerror : ℕ → String) : ErrorText → String
  | .text s => s
  | .strerror code => strerror code

/-- **An error as it is printed.** -/
def SaferRingError.printed (strerror : ℕ → String) (self : SaferRingError) : String :=
  .join (self.display.map (ErrorText.render strerror))

/-! ### Entries and outputs -/

namespace LogEntry

variable (self : LogEntry)

/-- An entry about an operation. -/
def withOperationId (operationId : ℕ) : LogEntry := { self with operationId := some operationId }

/-- An entry about a descriptor. -/
def withFd (fd : ℤ) : LogEntry := { self with fd := some fd }

/-- An entry about a duration. -/
def withDuration (duration : Duration) : LogEntry := { self with duration := some duration }

end LogEntry

/-- **What becomes of a line** that is written. -/
inductive WriteAnswer
  /-- It is written. -/
  | written
  /-- There is an error, when some characters of it were taken. -/
  | failed (taken : ℕ) (e : IoError)
  deriving DecidableEq

/-- What is written of a line. -/
def WriteAnswer.part (line : String) : WriteAnswer → String
  | written => line
  | failed taken _ => .ofList (line.toList.take taken)

/-- **Print to the standard error**, which panics on an error. -/
def WriteAnswer.eprint : WriteAnswer → Outcome Unit
  | written => .returned ()
  | failed .. => .panicked

namespace LogOutput

/-- The path of a file. -/
def path : LogOutput → Option String
  | .console _ => none
  | .file path _ => some path

/-- **How writing an entry ends.** -/
def write (answer : WriteAnswer) : LogOutput → Outcome (Except SaferRingError Unit)
  | .console _ => answer.eprint.map .ok
  | .file .. =>
    match answer with
    | .written => .returned (.ok ())
    | .failed _ e => .returned (.error (.io e))

/-- **Write an entry, and complain about an error** on the standard error: what is written where,
and how it ends. -/
def writes (strerror : ℕ → String) (entry : LogEntry) (answer complaint : WriteAnswer)
    (self : LogOutput) : List (LogOutput × String) × Outcome Unit :=
  let wrote := (self, answer.part (self.line entry))
  match self.write answer with
  | .returned (.ok ()) => ([wrote], .returned ())
  | .returned (.error e) =>
    let failed := s!"Failed to write log entry: {e.printed strerror}\n"
    ([wrote, (.console false, complaint.part failed)], complaint.eprint)
  | .blocked => ([wrote], .blocked)
  | .panicked => ([wrote], .panicked)

end LogOutput

/-! ### The logger -/

/-- Metrics that were reset. -/
def PerformanceMetrics.reset (self : PerformanceMetrics) : PerformanceMetrics :=
  { self with
    operationCounts := ∅
    operationDurations := ∅
    minDurations := ∅
    maxDurations := ∅ }

/-- **A logger with its metrics**, which are `none` once their lock is poisoned. -/
structure MeteredLogger extends Logger where
  /-- The metrics. -/
  metrics : Option PerformanceMetrics

/-- When a call is made, and what becomes of what it writes to each output. -/
structure Moment where
  /-- The time. -/
  now : ℤ
  /-- The answers of the outputs. -/
  answers : ℕ → WriteAnswer
  /-- The answers of the standard error to the complaints about them. -/
  complaints : ℕ → WriteAnswer

/-- **Write an entry to outputs**, one after the other, unless one panics. -/
def Moment.writeTo (strerror : ℕ → String) (m : Moment) (entry : LogEntry) :
    List (LogOutput × ℕ) → List (LogOutput × String) × Outcome Unit
  | [] => ([], .returned ())
  | (output, i) :: rest =>
    match output.writes strerror entry (m.answers i) (m.complaints i) with
    | (written, .returned ()) =>
      let (more, outcome) := m.writeTo strerror entry rest
      (written ++ more, outcome)
    | (written, outcome) => (written, outcome)

/-- The entry of a timing. -/
def LogEntry.ofTiming (now : ℤ) (component operation : String) (duration : Duration) : LogEntry :=
  (LogEntry.new now .debug component s!"{operation} completed").withDuration duration

/-- The error of a poisoned lock. -/
def metricsLockError : SaferRingError := .ioNew .other "Failed to acquire metrics lock"

namespace MeteredLogger

/-- A logger to the standard error, with new metrics. -/
def new : MeteredLogger := ⟨.new, some .new⟩

variable (strerror : ℕ → String) (self : MeteredLogger) (m : Moment)

/-- **Write an entry to all outputs.** -/
def writeEntry (entry : LogEntry) : Outcome Unit × MeteredLogger :=
  let (written, outcome) := m.writeTo strerror entry self.outputs.zipIdx
  (outcome, { self with written := self.written ++ written })

/-- Set the level. -/
def setLevel (level : LogLevel) : MeteredLogger := { self with minLevel := level }

/-- Add an output. -/
def addOutput (output : LogOutput) : MeteredLogger :=
  { self with outputs := self.outputs ++ [output] }

/-- Log a message. -/
def log (level : LogLevel) (component message : String) : Outcome Unit × MeteredLogger :=
  if level.rank ≥ self.minLevel.rank then
    self.writeEntry strerror m (.new m.now level component message)
  else (.returned (), self)

/-- Log a message about an operation. -/
def logOperation (level : LogLevel) (component : String) (operationId : ℕ) (fd : Option ℤ)
    (message : String) : Outcome Unit × MeteredLogger :=
  if level.rank ≥ self.minLevel.rank then
    let entry := (LogEntry.new m.now level component message).withOperationId operationId
    match fd with
    | some fd => self.writeEntry strerror m (entry.withFd fd)
    | none => self.writeEntry strerror m entry
  else (.returned (), self)

/-- **Log how long an operation took**, and record it, which may panic and poison the lock. -/
def logTiming (component operation : String) (duration : Duration) : Outcome Unit × MeteredLogger :=
  if LogLevel.debug.rank ≥ self.minLevel.rank then
    match self.writeEntry strerror m (.ofTiming m.now component operation duration) with
    | (.returned (), logger) =>
      match logger.metrics with
      | none => (.returned (), logger)
      | some metrics =>
        match metrics.recordOperation operation duration with
        | .returned metrics => (.returned (), { logger with metrics := some metrics })
        | .blocked => (.blocked, logger)
        | .panicked => (.panicked, { logger with metrics := none })
    | (outcome, logger) => (outcome, logger)
  else (.returned (), self)

/-- Log an error, at any level. -/
def logError (component : String) (error : SaferRingError) (context : String) :
    Outcome Unit × MeteredLogger :=
  self.writeEntry strerror m
    (.new m.now .error component s!"{context}: {error.printed strerror}")

/-- **The metrics**, unless their lock is poisoned. -/
def getMetrics : Except SaferRingError PerformanceMetrics :=
  match self.metrics with
  | some metrics => .ok metrics
  | none => .error metricsLockError

/-- Reset the metrics, unless their lock is poisoned. -/
def resetMetrics : Except SaferRingError Unit × MeteredLogger :=
  match self.metrics with
  | some metrics => (.ok (), { self with metrics := some metrics.reset })
  | none => (.error metricsLockError, self)

end MeteredLogger

/-! ### Runs -/

/-- **The calls of a logger** that change it, or write. -/
inductive LogCall
  /-- `log`. -/
  | log (level : LogLevel) (component message : String)
  /-- `log_operation`. -/
  | logOperation (level : LogLevel) (component : String) (operationId : ℕ) (fd : Option ℤ)
      (message : String)
  /-- `log_timing`. -/
  | logTiming (component operation : String) (duration : Duration)
  /-- `log_error`. -/
  | logError (component : String) (error : SaferRingError) (context : String)
  /-- `set_level`. -/
  | setLevel (level : LogLevel)
  /-- `add_output`. -/
  | addOutput (output : LogOutput)
  /-- `reset_metrics`. -/
  | resetMetrics

namespace MeteredLogger

open Transition (Move Guarded)
open PerformanceMetrics (durationsOf totalNanos)

/-- What a logger is after a call. -/
def call (strerror : ℕ → String) (self : MeteredLogger) (m : Moment) : LogCall → MeteredLogger
  | .log level component message => (self.log strerror m level component message).2
  | .logOperation level component operationId fd message =>
    (self.logOperation strerror m level component operationId fd message).2
  | .logTiming component operation duration =>
    (self.logTiming strerror m component operation duration).2
  | .logError component error context => (self.logError strerror m component error context).2
  | .setLevel level => self.setLevel level
  | .addOutput output => self.addOutput output
  | .resetMetrics => self.resetMetrics.2

/-- **A step of a logger**: a call at a moment. -/
def Step (strerror : ℕ → String) (logger : MeteredLogger) (e : Moment × LogCall)
    (logger' : MeteredLogger) : Prop :=
  logger.call strerror e.1 e.2 = logger'

variable {strerror : ℕ → String} {logger logger' : MeteredLogger} {m : Moment} {c : LogCall}
  {ms : List (Move MeteredLogger (Moment × LogCall))} {metrics : PerformanceMetrics}
  {operation : String} {duration : Duration} {timings : List (String × Duration)}

/-! ### What is timed -/

/-- What a call makes of what was timed since the metrics were last reset: a timing counts at a
level that is logged, once its entry is written. -/
def timed (strerror : ℕ → String) (logger : MeteredLogger) (m : Moment)
    (timings : List (String × Duration)) : LogCall → List (String × Duration)
  | .logTiming component operation duration =>
    if LogLevel.debug.rank ≥ logger.minLevel.rank ∧
        (logger.writeEntry strerror m (.ofTiming m.now component operation duration)).1 =
          .returned () then
      timings ++ [(operation, duration)]
    else timings
  | .resetMetrics => []
  | _ => timings

/-- **What was timed** since the metrics were last reset, at a level that is logged, in calls whose
entries were written. -/
def timingsOf (strerror : ℕ → String) (ms : List (Move MeteredLogger (Moment × LogCall))) :
    List (String × Duration) :=
  ms.foldl (fun timings move => timed strerror move.before move.label.1 timings move.label.2) []

/-- **The sums fit**, that of each operation. -/
def Fits (timings : List (String × Duration)) : Prop :=
  ∀ operation, totalNanos (durationsOf operation timings) < 2 ^ 64 * 1000000000

/-- **The metrics sum up** what was timed. -/
def SumUp (timings : List (String × Duration)) (logger : MeteredLogger) : Prop :=
  ∃ metrics, logger.metrics = some metrics ∧
    ∀ operation, metrics.Summary operation (durationsOf operation timings)

/-- To write is nothing to the metrics. -/
theorem metrics_of_writeEntry {entry : LogEntry} {outcome : Outcome Unit}
    (h : logger.writeEntry strerror m entry = (outcome, logger')) :
    logger'.metrics = logger.metrics := by
  obtain ⟨-, rfl⟩ := Prod.mk.inj h
  rfl

theorem timingsOf_concat (move : Move MeteredLogger (Moment × LogCall)) :
    timingsOf strerror (ms ++ [move]) =
      timed strerror move.before move.label.1 (timingsOf strerror ms) move.label.2 :=
  List.foldl_concat _ _ _ _

/-- A call times one operation at most. -/
theorem length_timed_le (logger : MeteredLogger) (m : Moment) (timings : List (String × Duration))
    (c : LogCall) : (timed strerror logger m timings c).length ≤ timings.length + 1 := by
  fun_cases timed strerror logger m timings c with
  | case1 component operation duration => rw [List.length_append, List.length_singleton]
  | case2 => exact Nat.le_succ _
  | case3 => exact Nat.zero_le _
  | case4 => exact Nat.le_succ _

/-- There are no more timings than moves. -/
theorem length_timingsOf (strerror : ℕ → String)
    (ms : List (Move MeteredLogger (Moment × LogCall))) :
    (timingsOf strerror ms).length ≤ ms.length := by
  induction ms using List.reverseRecOn with
  | nil => exact le_rfl
  | append_singleton ms move ih =>
    rw [timingsOf_concat, List.length_append, List.length_singleton]
    exact (length_timed_le _ _ _ _).trans (Nat.succ_le_succ ih)

/-- A record of one more duration, when the sums fit. -/
theorem record_of_fits
    (h : ∀ operation, metrics.Summary operation (durationsOf operation timings))
    (hfits : Fits (timings ++ [(operation, duration)])) (hlen : timings.length + 1 < 2 ^ 64) :
    ∃ later, metrics.recordOperation operation duration = .returned later ∧
      ∀ name, later.Summary name (durationsOf name (timings ++ [(operation, duration)])) := by
  obtain ⟨later, hlater, hsummary⟩ := PerformanceMetrics.recordAll_summary timings h hfits
    (by rwa [List.length_append, List.length_singleton])
  rcases hrecord : metrics.recordOperation operation duration with next | _ | _
  · simp only [PerformanceMetrics.recordAll, hrecord] at hlater
    obtain rfl := Outcome.returned.inj hlater
    exact ⟨next, rfl, hsummary⟩
  · simp [PerformanceMetrics.recordAll, hrecord] at hlater
  · simp [PerformanceMetrics.recordAll, hrecord] at hlater

/-- **A record panics** when the sums do not fit any more. -/
theorem record_of_not_fits
    (h : ∀ operation, metrics.Summary operation (durationsOf operation timings))
    (hfits : Fits timings) (hlong : ¬Fits (timings ++ [(operation, duration)])) :
    metrics.recordOperation operation duration = .panicked := by
  obtain ⟨name, hname⟩ := not_forall.mp hlong
  rw [PerformanceMetrics.durationsOf_append] at hname
  -- it is the sum of the operation that is too long, as no other one has changed
  by_cases heq : operation = name
  · obtain rfl := heq
    have hlast : durationsOf operation [(operation, duration)] = [duration] := by
      simp [durationsOf]
    rw [hlast, PerformanceMetrics.totalNanos_concat, ← (h operation).total_getD] at hname
    rw [PerformanceMetrics.recordOperation, Duration.add, dif_neg hname]
    rfl
  · have hlast : durationsOf name [(operation, duration)] = [] := by
      simp [durationsOf, heq]
    rw [hlast, List.append_nil] at hname
    exact absurd (hfits name) hname

/-- What was timed, and whether the metrics tell it. -/
def Told (timings : List (String × Duration)) (logger : MeteredLogger) : Prop :=
  (Fits timings ∧ SumUp timings logger) ∨ (¬Fits timings ∧ logger.metrics = none)

/-- What a timing does, once its entry is written. -/
theorem logTiming_of_returned {component : String}
    (hlevel : LogLevel.debug.rank ≥ logger.minLevel.rank)
    (hwrite : (logger.writeEntry strerror m (.ofTiming m.now component operation duration)).1 =
      .returned ()) (hmetrics : logger.metrics = some metrics) :
    (logger.logTiming strerror m component operation duration).2.metrics =
      match metrics.recordOperation operation duration with
      | .returned metrics => some metrics
      | .blocked => some metrics
      | .panicked => none := by
  rcases hentry : logger.writeEntry strerror m (.ofTiming m.now component operation duration) with
    ⟨outcome, written⟩
  have hkept : written.metrics = some metrics := (metrics_of_writeEntry hentry).trans hmetrics
  rw [hentry] at hwrite
  obtain rfl : outcome = .returned () := hwrite
  simp only [logTiming, if_pos hlevel, hentry, hkept]
  rcases metrics.recordOperation operation duration with _ | _ | _
  · rfl
  · exact hkept
  · rfl

/-- **A timing whose entry is not written is lost.** -/
theorem metrics_logTiming_of_not_returned {component : String}
    (hwrite : (logger.writeEntry strerror m (.ofTiming m.now component operation duration)).1 ≠
      .returned ()) :
    (logger.logTiming strerror m component operation duration).2.metrics = logger.metrics := by
  rw [logTiming]
  split
  · rcases hentry : logger.writeEntry strerror m (.ofTiming m.now component operation duration)
      with ⟨outcome, written⟩
    have hkept := metrics_of_writeEntry hentry
    rcases outcome with ⟨⟨⟩⟩ | _ | _
    · exact absurd (congrArg Prod.fst hentry) hwrite
    · exact hkept
    · exact hkept
  · rfl

/-- **A timing is told by the metrics, or poisons their lock.** -/
theorem told_logTiming (component : String) (hfits : Fits timings) (h : SumUp timings logger)
    (hlen : timings.length + 1 < 2 ^ 64) (hlevel : LogLevel.debug.rank ≥ logger.minLevel.rank)
    (hwrite : (logger.writeEntry strerror m (.ofTiming m.now component operation duration)).1 =
      .returned ()) :
    Told (timings ++ [(operation, duration)])
      (logger.logTiming strerror m component operation duration).2 := by
  obtain ⟨metrics, hmetrics, hsummary⟩ := h
  have htold := logTiming_of_returned hlevel hwrite hmetrics
  by_cases hlast : Fits (timings ++ [(operation, duration)])
  · obtain ⟨later, hlater, hall⟩ := record_of_fits hsummary hlast hlen
    rw [hlater] at htold
    exact Or.inl ⟨hlast, later, htold, hall⟩
  · rw [record_of_not_fits hsummary hfits hlast] at htold
    exact Or.inr ⟨hlast, htold⟩

/-- **What a call makes of the metrics**: what was timed with it is told, or their lock is
poisoned. -/
theorem told_call (hfits : Fits timings) (h : SumUp timings logger)
    (hlen : timings.length + 1 < 2 ^ 64) :
    Told (timed strerror logger m timings c) (logger.call strerror m c) := by
  cases c with
  | log level component message =>
    refine Or.inl ⟨hfits, ?_⟩
    rw [call, log]
    split
    · exact h
    · exact h
  | logOperation level component operationId fd message =>
    refine Or.inl ⟨hfits, ?_⟩
    rw [call, logOperation]
    split
    · rcases fd with _ | fd
      · exact h
      · exact h
    · exact h
  | logTiming component operation duration =>
    rw [timed, call]
    split
    · rename_i hwritten
      exact told_logTiming component hfits h hlen hwritten.1 hwritten.2
    · rename_i hnot
      obtain ⟨metrics, hmetrics, hsummary⟩ := h
      refine Or.inl ⟨hfits, metrics, ?_, hsummary⟩
      by_cases hlevel : LogLevel.debug.rank ≥ logger.minLevel.rank
      · have hwrite := fun hwrite => hnot ⟨hlevel, hwrite⟩
        exact (metrics_logTiming_of_not_returned hwrite).trans hmetrics
      · rw [logTiming, if_neg hlevel]
        exact hmetrics
  | logError component error context => exact Or.inl ⟨hfits, h⟩
  | setLevel level => exact Or.inl ⟨hfits, h⟩
  | addOutput output => exact Or.inl ⟨hfits, h⟩
  | resetMetrics =>
    obtain ⟨metrics, hmetrics, -⟩ := h
    refine Or.inl ⟨fun operation => Nat.zero_lt_of_lt Duration.zero.lt, .new, ?_, fun _ => .new⟩
    rw [call, resetMetrics, hmetrics]
    rfl

/-- **A poisoned lock stays poisoned.** -/
theorem metrics_call_eq_none (h : logger.metrics = none) :
    (logger.call strerror m c).metrics = none := by
  cases c with
  | log level component message =>
    rw [call, log]
    split
    · exact h
    · exact h
  | logOperation level component operationId fd message =>
    rw [call, logOperation]
    split
    · rcases fd with _ | fd
      · exact h
      · exact h
    · exact h
  | logTiming component operation duration =>
    rw [call, logTiming]
    split
    · rcases hentry : logger.writeEntry strerror m (.ofTiming m.now component operation duration)
        with ⟨outcome, written⟩
      have hkept : written.metrics = none := (metrics_of_writeEntry hentry).trans h
      rcases outcome with ⟨⟨⟩⟩ | _ | _
      · simp only [hkept]
      · exact hkept
      · exact hkept
    · exact h
  | logError component error context => exact h
  | setLevel level => exact h
  | addOutput output => exact h
  | resetMetrics =>
    rw [call, resetMetrics, h]
    exact h

/-- **The metrics after a run**: all sums have fit, and the metrics sum up what was timed; or one
did not, and their lock is poisoned. -/
theorem told_of_run (hrun : Transition.Run (Step strerror) new ms logger)
    (hfew : ms.length < 2 ^ 64) :
    ((∀ before, before <+: ms → Fits (timingsOf strerror before)) ∧
        SumUp (timingsOf strerror ms) logger) ∨
      (∃ before, before <+: ms ∧ ¬Fits (timingsOf strerror before)) ∧ logger.metrics = none := by
  induction hrun with
  | nil =>
    refine Or.inl ⟨fun before hbefore operation => ?_, .new, rfl, fun _ => .new⟩
    rw [List.prefix_nil.mp hbefore]
    exact Nat.zero_lt_of_lt Duration.zero.lt
  | @snoc s t ms e _ hstep ih =>
    obtain ⟨m, c⟩ := e
    obtain rfl : s.call strerror m c = t := hstep
    rw [List.length_append, List.length_singleton] at hfew
    rcases ih (by omega) with ⟨hall, hsum⟩ | ⟨⟨before, hbefore, hlong⟩, hnone⟩
    · have hlen := length_timingsOf strerror ms
      rw [timingsOf_concat]
      rcases told_call (hall ms (List.prefix_refl ms)) hsum (by omega) with
        ⟨hfits, hsum⟩ | ⟨hlong, hnone⟩
      · refine Or.inl ⟨fun before hbefore => ?_, hsum⟩
        rcases List.prefix_concat_iff.mp hbefore with rfl | hbefore
        · rwa [timingsOf_concat]
        · exact hall before hbefore
      · refine Or.inr ⟨⟨_, List.prefix_refl _, ?_⟩, hnone⟩
        rwa [timingsOf_concat]
    · exact Or.inr ⟨⟨before, hbefore.trans (List.prefix_append ms _), hlong⟩,
        metrics_call_eq_none hnone⟩

/-- **The metrics are there exactly as long as all sums have fit**, and then sum up what was timed
since they were last reset, by the calls whose entries were written: after any calls, at any levels,
with any outputs and whatever becomes of what is written, panics included. -/
theorem getMetrics_exact (hrun : Transition.Run (Step strerror) new ms logger)
    (hfew : ms.length < 2 ^ 64) :
    ((∃ metrics, logger.getMetrics = .ok metrics) ↔
      ∀ before, before <+: ms → Fits (timingsOf strerror before)) ∧
    ∀ metrics, logger.getMetrics = .ok metrics →
      ∀ operation, metrics.Summary operation (durationsOf operation (timingsOf strerror ms)) := by
  rcases told_of_run hrun hfew with ⟨hall, metrics, hmetrics, hsummary⟩ | ⟨hlong, hnone⟩
  · have hget : logger.getMetrics = .ok metrics := by
      rw [getMetrics, hmetrics]
    refine ⟨iff_of_true ⟨metrics, hget⟩ hall, fun metrics' hget' => ?_⟩
    obtain rfl := Except.ok.inj (hget.symm.trans hget')
    exact hsummary
  · have hget : ∀ metrics, logger.getMetrics ≠ .ok metrics := by
      intro metrics
      rw [getMetrics, hnone]
      exact fun h => absurd h (by simp)
    obtain ⟨before, hbefore, hlong⟩ := hlong
    refine ⟨iff_of_false ?_ fun h => hlong (h before hbefore), fun metrics h => absurd h (hget _)⟩
    rintro ⟨metrics, h⟩
    exact hget metrics h

/-- **A read that took 5 nanoseconds** is timed once its level is logged. -/
theorem getMetrics_timedRead : ∃ ms logger, Transition.Run (Step fun _ => "") new ms logger ∧
    ∃ metrics, logger.getMetrics = .ok metrics ∧ metrics.Summary "read" [⟨5, by decide⟩] := by
  let m : Moment := ⟨0, fun _ => .written, fun _ => .written⟩
  let read : LogCall := .logTiming "ring" "read" ⟨5, by decide⟩
  have hlevel : Step (fun _ => "") new (m, .setLevel .debug) (new.setLevel .debug) := rfl
  have hread : Step (fun _ => "") (new.setLevel .debug) (m, read)
      ((new.setLevel .debug).call (fun _ => "") m read) := rfl
  have hrun := (Transition.Run.single hlevel).snoc hread
  exact ⟨_, _, hrun, _, rfl, (getMetrics_exact hrun (by decide)).2 _ rfl "read"⟩

end MeteredLogger

end SaferRing
