import Pagescript.Fault
import Pagescript.Json.Writer
/-!
# Event logs

The log of a run is a file with one line of JSON for each step of the program.
-/

namespace Pagescript

/-- What is recorded about a step. -/
structure Event where
  source : Value
  action : Value
  ok : Value
  value : Value := .null
  error : Value := .null
  /-- In milliseconds. -/
  duration : Value := .null

inductive EventError where
  | unexpected (name : String)
  /-- The name is the one by which the log itself goes. -/
  | reserved (name : String)
  | missing (names : List String)

namespace EventError

/-- Names in quotes, the last of them after a conjunction. -/
def listing (names : List String) : String :=
  match names.map Text.quote with
  | [a, b] => a ++ " and " ++ b
  | [a, b, c] => a ++ ", " ++ b ++ ", and " ++ c
  | quoted => ", ".intercalate quoted

def message : EventError → String
  | unexpected name =>
    "StructuredLogger.log_event() got an unexpected keyword argument '" ++ name ++ "'"
  | reserved name =>
    "StructuredLogger.log_event() got multiple values for argument '" ++ name ++ "'"
  | missing names =>
    "StructuredLogger.log_event() missing " ++ toString names.length ++
      " required keyword-only argument" ++ (if names.length = 1 then "" else "s") ++ ": " ++
      listing names

end EventError

namespace Event

def needed : List String := ["source", "action", "ok"]

def optional : List String := ["value", "error", "duration_ms"]

/-- The name by which the log itself goes. -/
def logName : String := "self"

/-- An event from its fields.  A field that is not known is reported before one that is missing. -/
def ofFields (fields : Fields) : Except EventError Event :=
  let part (name : String) : Value := (Entries.get? fields name).getD .null
  match fields.find? fun entry => !(needed ++ optional).contains entry.1 with
  | some entry => .error (if entry.1 = logName then .reserved entry.1 else .unexpected entry.1)
  | none =>
    match needed.filter fun name => !Entries.contains fields name with
    | [] => .ok ⟨part "source", part "action", part "ok", part "value", part "error",
        part "duration_ms"⟩
    | names => .error (.missing names)

end Event

structure EventLog where
  runId : String
  base : Path
  /-- The name of the file in the archive, if it is kept there. -/
  name : Option String
  /-- How many events have been counted. -/
  step : Nat := 0
  closed : Bool := false
  /-- How much room there is for the values in the report of an error. -/
  room : Nat := usualRoom

namespace EventLog

def path (base : Path) : Path :=
  base.append "events.jsonl"

/-- Opens the log of a run in a directory of its own.  What its file holds already is kept. -/
def start (root : Path) (runId : String) : Archive.Change EventLog := do
  let base := root.append runId
  Archive.makeDirectories base.root base.parts.reverse
  return { runId, base, name := ← Archive.openFile (path base) }

/-- How much more room there is for a line than for the values in a report. -/
def lineMargin : Nat := 2

def line (log : EventLog) (now : Binary64) (event : Event) : Except WriteError String :=
  Json.write .line (log.room + lineMargin) (.mapping [("ts", .float now),
    ("run_id", .text log.runId), ("step", .int log.step), ("source", event.source),
    ("action", event.action), ("ok", event.ok), ("value", event.value), ("error", event.error),
    ("duration_ms", event.duration)])

/-- Adds a line to the file of a log, if it is kept. -/
def add (log : EventLog) (line : String) (archive : Archive) : Archive :=
  match log.name with
  | some name => archive.append name (line ++ "\n")
  | none => archive

/-- The log after it has counted some more events. -/
def count (log : EventLog) (n : Nat) : EventLog :=
  { log with step := log.step + n }

/-- Counts an event and writes it.  An event that makes no line is counted as well, and is complained
of before a log that is closed. -/
def write (log : EventLog) (now : Binary64) (event : Event) (archive : Archive) :
    EventLog × Except Fault Archive :=
  (log.count 1, match (log.count 1).line now event with
    | .error e => .error (.unwritable e)
    | .ok line => if log.closed then .error .closedLog else .ok (log.add line archive))

def close (log : EventLog) : EventLog :=
  { log with closed := true }

end EventLog

end Pagescript
