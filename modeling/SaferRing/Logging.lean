import Mathlib.Data.List.AList
import SaferRing.Completion

/-!
# Logging

An entry of the log (`SaferRing.LogEntry`) is written as text or as JSON, one line an entry, by
every output of the logger (`SaferRing.Logger.log`). Nothing is logged below the logger's level,
and nothing at all before there is a logger.
-/

namespace SaferRing

/-! ### Durations -/

/-- **A duration**: as many nanoseconds as 64 bits of seconds and one second less a nanosecond
can hold. -/
structure Duration where
  /-- The nanoseconds. -/
  nanos : ℕ
  /-- There are not too many. -/
  lt : nanos < 2 ^ 64 * 1000000000
  deriving DecidableEq, Repr

namespace Duration

/-- No time. -/
def zero : Duration := ⟨0, by decide⟩

/-- The whole microseconds. -/
def asMicros (self : Duration) : ℕ := self.nanos / 1000

/-- The sum of two durations, with a panic when it is too long. -/
def add (self other : Duration) : Outcome Duration :=
  if h : self.nanos + other.nanos < 2 ^ 64 * 1000000000 then
    .returned ⟨self.nanos + other.nanos, h⟩
  else .panicked

/-- A duration divided by a number of 32 bits, rounded down to the nanosecond, with a panic when
the number is `0`. -/
def divU32 (self : Duration) (n : ℕ) : Outcome Duration :=
  if n = 0 then .panicked
  else .returned ⟨self.nanos / n, Nat.lt_of_le_of_lt (Nat.div_le_self _ _) self.lt⟩

end Duration

/-! ### Entries -/

/-- How much an entry matters. -/
inductive LogLevel
  | trace | debug | info | warn | error
  deriving DecidableEq, Repr

namespace LogLevel

/-- The levels in order. -/
def rank : LogLevel → ℕ
  | .trace => 0
  | .debug => 1
  | .info => 2
  | .warn => 3
  | .error => 4

/-- How a level is written. -/
def name : LogLevel → String
  | .trace => "TRACE"
  | .debug => "DEBUG"
  | .info => "INFO"
  | .warn => "WARN"
  | .error => "ERROR"

instance : ToString LogLevel := ⟨name⟩

end LogLevel

/-- **An entry of the log.** -/
structure LogEntry where
  /-- When it was made, in nanoseconds since the epoch. -/
  timestamp : ℤ
  /-- How much it matters. -/
  level : LogLevel
  /-- Where it comes from. -/
  component : String
  /-- The operation it is about, if any. -/
  operationId : Option ℕ
  /-- The descriptor, if any. -/
  fd : Option ℤ
  /-- What it says. -/
  message : String
  /-- What else there is to say, by name. -/
  metadata : AList fun _ : String => String
  /-- How long something took, if that is what it is about. -/
  duration : Option Duration

namespace LogEntry

variable (self : LogEntry)

/-- An entry about nothing in particular. -/
def new (timestamp : ℤ) (level : LogLevel) (component message : String) : LogEntry :=
  ⟨timestamp, level, component, none, none, message, ∅, none⟩

/-- The milliseconds since the epoch, `0` before it. -/
def timestampMillis : ℕ := self.timestamp.toNat / 1000000

/-- **An entry as text.** -/
def format : String :=
  let parts := [s!"[{self.timestampMillis}]", s!"{self.level}", s!"{self.component}"] ++
    (self.operationId.map fun opId => s!"op:{opId}").toList ++
    (self.fd.map fun fd => s!"fd:{fd}").toList ++
    [self.message] ++
    (self.duration.map fun duration => s!"duration:{duration.asMicros}μs").toList ++
    if self.metadata.entries = [] then []
    else
      let metadataStr := ",".intercalate (self.metadata.entries.map fun e => s!"{e.1}:{e.2}")
      ["metadata:\x7b" ++ metadataStr ++ "\x7d"]
  " ".intercalate parts

/-- A text with a backslash before every quote. -/
def escapeQuotes (text : String) : String :=
  .ofList (text.toList.flatMap fun c => if c = '"' then ['\\', '"'] else [c])

/-- The members of an entry as JSON. -/
def jsonParts : List String :=
  [s!"\"timestamp\":{self.timestampMillis}", s!"\"level\":\"{self.level}\"",
    s!"\"component\":\"{self.component}\"",
    s!"\"message\":\"{escapeQuotes self.message}\""] ++
  (self.operationId.map fun opId => s!"\"operation_id\":{opId}").toList ++
  (self.fd.map fun fd => s!"\"fd\":{fd}").toList ++
  (self.duration.map fun duration => s!"\"duration_us\":{duration.asMicros}").toList ++
  if self.metadata.entries = [] then []
  else
    let metadataJson := ",".intercalate
      (self.metadata.entries.map fun e => s!"\"{e.1}\":\"{escapeQuotes e.2}\"")
    ["\"metadata\":\x7b" ++ metadataJson ++ "\x7d"]

/-- **An entry as JSON.** -/
def formatJson : String := "\x7b" ++ ",".intercalate self.jsonParts ++ "\x7d"

end LogEntry

/-! ### The logger -/

/-- Where entries are written to, and whether as JSON. -/
inductive LogOutput
  /-- The standard error. -/
  | console (jsonFormat : Bool)
  /-- A file, by its path. -/
  | file (path : String) (jsonFormat : Bool)
  deriving DecidableEq, Repr

/-- The line an output writes for an entry. -/
def LogOutput.line (entry : LogEntry) : LogOutput → String
  | .console jsonFormat | .file _ jsonFormat =>
    (if jsonFormat then entry.formatJson else entry.format) ++ "\n"

/-- **The logger**, and the lines it has written. -/
structure Logger where
  /-- What matters less is not written. -/
  minLevel : LogLevel
  /-- Where entries go. -/
  outputs : List LogOutput
  /-- What was written where. -/
  written : List (LogOutput × String)
  deriving DecidableEq

namespace Logger

/-- A logger to the standard error. -/
def new : Logger := ⟨.info, [.console false], []⟩

variable (self : Logger)

/-- Log a message, at a time. -/
def log (now : ℤ) (level : LogLevel) (component message : String) : Logger :=
  if level.rank ≥ self.minLevel.rank then
    let entry := LogEntry.new now level component message
    { self with written := self.written ++ self.outputs.map fun output =>
        (output, output.line entry) }
  else self

end Logger

end SaferRing
