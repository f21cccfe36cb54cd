import SaferRing.Library.Lines
import SaferRing.Logging.Json
import SaferRing.Logging.Runs

/-!
# The log file

A file that entries are written to as JSON is read back line by line. After any run of a logger
its lines are the entries that the calls have made at a level that is logged, in order and with
every field, **exactly when none of these has anything to escape** but quotes where they are
escaped: `SaferRing.MeteredLogger.readBack_iff`. An entry with a line break in it is two lines, and
takes all that come behind it out of step.
-/

namespace SaferRing

open Json Lines

/-! ### Entries -/

namespace LogEntry

variable {entry : LogEntry}

/-- **An entry is read back from a line**, with every field. -/
def ReadBack (entry : LogEntry) (line : List Char) : Prop :=
  ∃ members, Reads line (.object members) ∧ entry.Recovered members ∧
    (named "timestamp" members).map Value.asInt = [some (entry.timestampMillis : ℤ)] ∧
    named "level" members = [.string entry.level.name.toList] ∧
    (named "duration_us" members).map Value.asInt =
      (entry.duration.map fun d => some (d.asMicros : ℤ)).toList

/-- What is not a number of an entry, nor any of its first four members, is metadata. -/
theorem named_jsonMembers_duration :
    (named "duration_us" entry.jsonMembers).map Value.asInt =
      (entry.duration.map fun d => some (d.asMicros : ℤ)).toList := by
  have hop : "operation_id" ≠ "duration_us" := by decide
  have hfd : "fd" ≠ "duration_us" := by decide
  rw [jsonMembers, named_behind (by decide) (by decide) (by decide) (by decide), named_append,
    named_metadataMembers (by decide), List.append_nil, numbers, named_append, named_append,
    named_numberMembers hop, named_numberMembers hfd, List.nil_append, List.nil_append,
    asInt_numberMembers, Option.map_map]
  rfl

theorem named_jsonMembers_timestamp :
    (named "timestamp" entry.jsonMembers).map Value.asInt =
      [some (entry.timestampMillis : ℤ)] := by
  rw [jsonMembers, named_cons_self, named_cons_of_ne (by decide), named_cons_of_ne (by decide),
    named_cons_of_ne (by decide), named_append, named_metadataMembers (by decide),
    named_numbers (by decide) (by decide) (by decide), List.map_cons, asInt_toString]
  rfl

theorem named_jsonMembers_level :
    named "level" entry.jsonMembers = [.string entry.level.name.toList] := by
  rw [jsonMembers, named_cons_of_ne (by decide), named_cons_self, named_cons_of_ne (by decide),
    named_cons_of_ne (by decide), named_append, named_metadataMembers (by decide),
    named_numbers (by decide) (by decide) (by decide)]
  rfl

/-- **An entry is one line that it is read back from** exactly when there is nothing to escape in
it but quotes, and those where they are escaped. -/
theorem readBack_formatJson_iff (entry : LogEntry) :
    '\n' ∉ entry.formatJson.toList ∧ entry.ReadBack entry.formatJson.toList ↔ entry.Clean := by
  constructor
  · rintro ⟨-, members, hreads, hrecovered, -⟩
    exact clean_of_recovered hreads hrecovered
  · intro h
    exact ⟨newline_not_mem_formatJson h, _, reads_jsonMembers h, recovered_jsonMembers,
      named_jsonMembers_timestamp, named_jsonMembers_level, named_jsonMembers_duration⟩

end LogEntry

/-! ### What calls write -/

/-- **The entry a call makes**, if its level is logged. -/
def LogCall.entry (strerror : ℕ → String) (now : ℤ) (minLevel : LogLevel) :
    LogCall → Option LogEntry
  | .log level component message =>
    if level.rank ≥ minLevel.rank then some (.new now level component message) else none
  | .logOperation level component operationId fd message =>
    if level.rank ≥ minLevel.rank then
      some { LogEntry.new now level component message with operationId := some operationId, fd }
    else none
  | .logTiming component operation duration =>
    if LogLevel.debug.rank ≥ minLevel.rank then
      some { LogEntry.new now .debug component s!"{operation} completed" with
        duration := some duration }
    else none
  | .logError component error context =>
    some (.new now .error component s!"{context}: {error.printed strerror}")
  | .setLevel _ | .addOutput _ | .resetMetrics => none

/-- The outputs a call adds. -/
def LogCall.added : LogCall → List LogOutput
  | .addOutput output => [output]
  | _ => []

namespace MeteredLogger

open Transition (Move Guarded)

variable {strerror : ℕ → String} {logger : MeteredLogger} {m : Moment} {c : LogCall}
  {ms : List (Move MeteredLogger (Moment × LogCall))} {path : String}

/-- Whatever becomes of the metrics, a timing is an entry. -/
theorem toLogger_logTiming (component operation : String) (duration : Duration) :
    (logger.logTiming strerror m component operation duration).2.toLogger =
      if LogLevel.debug.rank ≥ logger.minLevel.rank then
        (logger.writeEntry strerror m (.ofTiming m.now component operation duration)).2.toLogger
      else logger.toLogger := by
  rw [logTiming]
  split
  · rcases logger.writeEntry strerror m (.ofTiming m.now component operation duration)
      with ⟨⟨⟨⟩⟩ | _ | _, written⟩
    · rcases hmetrics : written.metrics with _ | metrics
      · simp only [hmetrics]
      · rcases hrecord : metrics.recordOperation operation duration with _ | _ | _
        all_goals simp only [hmetrics, hrecord]
    · rfl
    · rfl
  · rfl

/-- What a reset does to the metrics does nothing to the log. -/
theorem toLogger_resetMetrics : logger.resetMetrics.2.toLogger = logger.toLogger := by
  rw [resetMetrics]
  split
  · rfl
  · rfl

/-- What is written of an entry, where. -/
def wrote (strerror : ℕ → String) (logger : MeteredLogger) (m : Moment) (entry : LogEntry) :
    List (LogOutput × String) :=
  (m.writeTo strerror entry logger.outputs.zipIdx).1

/-- **What a call does to the log**: it writes its entry, if it makes one. -/
theorem toLogger_call : (logger.call strerror m c).toLogger =
    { minLevel := (match c with
        | .setLevel level => level
        | _ => logger.minLevel)
      outputs := logger.outputs ++ c.added
      written := logger.written ++
        (c.entry strerror m.now logger.minLevel).toList.flatMap (logger.wrote strerror m) } := by
  cases c with
  | log level component message =>
    rw [call, log, LogCall.entry]
    split
    · simp [writeEntry, LogCall.added, wrote]
    · simp [LogCall.added]
  | logOperation level component operationId fd message =>
    rw [call, logOperation, LogCall.entry]
    split
    · rcases fd with _ | fd
      · simp [writeEntry, LogCall.added, wrote, LogEntry.withOperationId, LogEntry.new]
      · simp [writeEntry, LogCall.added, wrote, LogEntry.withOperationId, LogEntry.withFd]
    · simp [LogCall.added]
  | logTiming component operation duration =>
    rw [call, toLogger_logTiming, LogCall.entry]
    split
    · simp [writeEntry, LogCall.added, wrote, LogEntry.ofTiming, LogEntry.withDuration]
    · simp [LogCall.added]
  | logError component error context =>
    simp [call, logError, writeEntry, LogCall.entry, LogCall.added, wrote]
  | setLevel level => simp [call, setLevel, LogCall.entry, LogCall.added]
  | addOutput output => simp [call, addOutput, LogCall.entry, LogCall.added]
  | resetMetrics => simp [call, toLogger_resetMetrics, LogCall.entry, LogCall.added]

/-! ### The file -/

/-- **What is in a file**, of what was written. -/
def fileText (path : String) (written : List (LogOutput × String)) : List Char :=
  written.flatMap fun (output, text) => if output.path = some path then text.toList else []

/-- **The outputs an entry is written to**: all, or as far as the first that panics. -/
def reached (strerror : ℕ → String) (m : Moment) (entry : LogEntry) :
    List (LogOutput × ℕ) → List (LogOutput × ℕ)
  | [] => []
  | (output, i) :: rest =>
    match (output.writes strerror entry (m.answers i) (m.complaints i)).2 with
    | .returned () => (output, i) :: reached strerror m entry rest
    | _ => [(output, i)]

/-- What is written of an entry is what each output reached writes. -/
theorem writeTo_eq (entry : LogEntry) (outputs : List (LogOutput × ℕ)) :
    (m.writeTo strerror entry outputs).1 = (reached strerror m entry outputs).flatMap
      fun (output, i) => (output.writes strerror entry (m.answers i) (m.complaints i)).1 := by
  induction outputs with
  | nil => rfl
  | cons p rest ih =>
    obtain ⟨output, i⟩ := p
    rcases houtput : output.writes strerror entry (m.answers i) (m.complaints i) with
      ⟨written, ⟨⟨⟩⟩ | _ | _⟩
    · simp only [Moment.writeTo, reached, houtput, List.flatMap_cons, ih]
    · simp [Moment.writeTo, reached, houtput]
    · simp [Moment.writeTo, reached, houtput]

theorem mem_of_mem_reached {entry : LogEntry} {outputs : List (LogOutput × ℕ)} {p : LogOutput × ℕ}
    (h : p ∈ reached strerror m entry outputs) : p ∈ outputs := by
  induction outputs with
  | nil => exact h
  | cons q rest ih =>
    obtain ⟨output, i⟩ := q
    rw [reached] at h
    split at h
    · rcases List.mem_cons.mp h with rfl | h
      · exact List.mem_cons_self
      · exact List.mem_cons_of_mem _ (ih h)
    · rw [List.mem_singleton.mp h]
      exact List.mem_cons_self

/-- The entries a move has written to a file as a whole, once for each output that does. -/
def wholeEntries (strerror : ℕ → String) (path : String)
    (move : Move MeteredLogger (Moment × LogCall)) : List LogEntry :=
  let (m, c) := move.label
  (c.entry strerror m.now move.before.minLevel).toList.flatMap fun entry =>
    (reached strerror m entry move.before.outputs.zipIdx).flatMap fun (output, i) =>
      if output.path = some path ∧ m.answers i = .written then [entry] else []

/-- An output to a path is a file, and written to as JSON. -/
def AsJson (path : String) (output : LogOutput) : Prop :=
  output.path = some path → output = .file path true

/-- **A call adds no output** to a file but as JSON. -/
def AddsJson (path : String) (_ : MeteredLogger) (e : Moment × LogCall) : Prop :=
  ∀ output ∈ e.2.added, AsJson path output

/-- **A file takes nothing of a line** that is not written as a whole. -/
def NothingTorn (path : String) (logger : MeteredLogger) (e : Moment × LogCall) : Prop :=
  ∀ output i, (output, i) ∈ logger.outputs.zipIdx → output.path = some path →
    ∀ taken error, e.1.answers i = .failed taken error → taken = 0

/-- What is in a file of what an output has written: the line, or nothing. -/
theorem fileText_writes {output : LogOutput} {entry : LogEntry} {answer complaint : WriteAnswer}
    (hjson : AsJson path output)
    (hwhole : output.path = some path → ∀ taken error, answer = .failed taken error → taken = 0) :
    fileText path (output.writes strerror entry answer complaint).1 =
      ended '\n' ((if output.path = some path ∧ answer = .written then [entry] else []).map
        fun entry => entry.formatJson.toList) := by
  -- the standard error is no file
  have hconsole : ∀ text, fileText path [(.console false, text)] = [] := fun _ => rfl
  by_cases hpath : output.path = some path
  · obtain rfl := hjson hpath
    rcases answer with _ | ⟨taken, error⟩
    · simp [fileText, LogOutput.writes, LogOutput.write, LogOutput.line, LogOutput.path,
        WriteAnswer.part]
    · obtain rfl := hwhole hpath taken error rfl
      simp [fileText, LogOutput.writes, LogOutput.write, LogOutput.path, WriteAnswer.part]
  · rw [if_neg fun h => hpath h.1]
    have hwrote : ∀ text, fileText path [(output, text)] = [] := by
      intro text
      exact (List.flatMap_singleton _ _).trans (if_neg hpath)
    rw [LogOutput.writes]
    split
    · exact hwrote _
    · rw [fileText, List.flatMap_cons]
      exact (congrArg (_ ++ ·) (hconsole _)).trans ((List.append_nil _).trans (if_neg hpath))
    · exact hwrote _
    · exact hwrote _

/-- What is in a file of what a call writes. -/
theorem fileText_wrote {e : Moment × LogCall}
    (hjson : ∀ output ∈ logger.outputs, AsJson path output)
    (hwhole : NothingTorn path logger e) (logger' : MeteredLogger) :
    fileText path ((e.2.entry strerror e.1.now logger.minLevel).toList.flatMap
      (logger.wrote strerror e.1)) =
        ended '\n' ((wholeEntries strerror path ⟨logger, e, logger'⟩).map
          fun entry => entry.formatJson.toList) := by
  rw [wholeEntries, fileText, List.flatMap_assoc, List.map_flatMap, ended, List.flatMap_assoc]
  refine List.flatMap_congr fun entry _ => ?_
  rw [wrote, writeTo_eq, List.flatMap_assoc, List.map_flatMap, List.flatMap_assoc]
  refine List.flatMap_congr fun p hp => ?_
  obtain ⟨output, i⟩ := p
  have hmem := mem_of_mem_reached hp
  have houtput : output ∈ logger.outputs := (List.mem_zipIdx' hmem).2 ▸ List.getElem_mem _
  exact fileText_writes (hjson output houtput) (hwhole output i hmem)

/-- **The file after a run** is the entries that were written to it as a whole, each a line, and
its outputs are as JSON still. -/
theorem fileText_of_run (hrun : Transition.Run (Step strerror) new ms logger)
    (hjson : Guarded (AddsJson path) ms) (hwhole : Guarded (NothingTorn path) ms) :
    (∀ output ∈ logger.outputs, AsJson path output) ∧
      fileText path logger.written = ended '\n'
        ((ms.flatMap (wholeEntries strerror path)).map fun entry => entry.formatJson.toList) := by
  induction hrun with
  | nil =>
    refine ⟨fun output h => ?_, rfl⟩
    obtain rfl := List.mem_singleton.mp h
    exact fun h => absurd h (by simp [LogOutput.path])
  | @snoc s t ms e _ hstep ih =>
    obtain ⟨m, c⟩ := e
    obtain rfl : s.call strerror m c = t := hstep
    obtain ⟨hjson, hadds⟩ := Transition.guarded_snoc.mp hjson
    obtain ⟨hwhole, hlast⟩ := Transition.guarded_snoc.mp hwhole
    obtain ⟨houtputs, htext⟩ := ih hjson hwhole
    rw [toLogger_call]
    constructor
    · exact List.forall_mem_append.mpr ⟨houtputs, hadds⟩
    · rw [fileText, List.flatMap_append, List.flatMap_append, List.map_append, ended_append]
      refine congrArg₂ (· ++ ·) htext ?_
      rw [List.flatMap_singleton]
      exact fileText_wrote houtputs hlast _

/-- **The log file is read back exactly when there is nothing to escape.** After any calls, at any
levels and with any outputs and answers, but with no line torn and no output to the file but as
JSON, its lines are the entries made at a level that is logged and not refused, in order and with
every field, just when each of these has nothing to escape but quotes where they are escaped. -/
theorem readBack_iff (hrun : Transition.Run (Step strerror) new ms logger)
    (hjson : Guarded (AddsJson path) ms) (hwhole : Guarded (NothingTorn path) ms) :
    List.Forall₂ LogEntry.ReadBack (ms.flatMap (wholeEntries strerror path))
        (lines '\n' (fileText path logger.written)) ↔
      ∀ entry ∈ ms.flatMap (wholeEntries strerror path), entry.Clean := by
  rw [(fileText_of_run hrun hjson hwhole).2, forall₂_lines_iff]
  exact forall₂_congr fun entry _ => entry.readBack_formatJson_iff

/-- **A message to a file** is read back from it. -/
theorem readBack_message : ∃ ms logger, Transition.Run (Step fun _ => "") new ms logger ∧
    List.Forall₂ LogEntry.ReadBack [.new 0 .warn "ring" "the \"small\" queue is full"]
      (lines '\n' (fileText "ring.log" logger.written)) := by
  let m : Moment := ⟨0, fun _ => .written, fun _ => .written⟩
  let output : LogOutput := .file "ring.log" true
  let warning : LogCall := .log .warn "ring" "the \"small\" queue is full"
  have hadd : Step (fun _ => "") new (m, .addOutput output) (new.addOutput output) := rfl
  have hwarn : Step (fun _ => "") (new.addOutput output) (m, warning)
      ((new.addOutput output).call (fun _ => "") m warning) := rfl
  have hrun := (Transition.Run.single hadd).snoc hwarn
  refine ⟨_, _, hrun, (@readBack_iff _ _ _ "ring.log" hrun ?_ ?_).mpr fun entry hentry => ?_⟩
  · intro move hmove
    rcases List.mem_cons.mp hmove with rfl | hmove
    · exact fun _ h _ => List.mem_singleton.mp h
    · obtain rfl := List.mem_singleton.mp hmove
      exact fun _ h => absurd h List.not_mem_nil
  · intro move hmove
    rcases List.mem_cons.mp hmove with rfl | hmove
    · exact fun _ _ _ _ _ _ h => absurd h (by simp [m])
    · obtain rfl := List.mem_singleton.mp hmove
      exact fun _ _ _ _ _ _ h => absurd h (by simp [m])
  · obtain rfl := List.mem_singleton.mp hentry
    exact ⟨by decide, by decide, by decide, fun _ h => absurd h List.not_mem_nil⟩

end MeteredLogger

end SaferRing
