import Pagescript.Config
import Pagescript.Document
import Pagescript.EventLog
import Pagescript.Interpreter
/-!
# Runners

A runner carries out programs on one surface.  Its store, its token and its log outlive the single
run: what one run has stored the next one sees, and once the token has fired no run waits any more.
-/

namespace Pagescript

/-- What stays the same over all runs. -/
structure Runner (σ : Type) where
  surface : Surface σ
  config : Config
  registry : Registry
  logger : String := LogRecord.programLogger

/-- What runs change. -/
structure Session (σ : Type) where
  world : World σ
  /-- The program whose selectors and actions are in force. -/
  program : Program := .empty
  events : Option EventLog := none
  archive : Archive := {}
  closed : Bool := false

/-- A step as it is given to a runner: an action, or a value that is yet to be read as one. -/
inductive Step where
  | action (a : Action)
  | raw (v : Value)

def Step.fields : Step → Fields
  | .action a => a.payload
  | .raw v => Interpreter.rawFields v

abbrev Activity (σ α : Type) := ExceptT Fault (StateM (Session σ)) α

namespace Activity

variable {σ α : Type}

def ofInteraction (x : Interaction σ α) : Activity σ α := fun s =>
  let (result, next) := x s.world
  (result, { s with world := next })

def changeWorld (f : World σ → World σ) : Activity σ Unit :=
  modify fun s => { s with world := f s.world }

/-- Does one thing and then another, whether or not the first one succeeds.  If both of them fail
the second failure counts. -/
def andThenAlways (x : Activity σ α) (last : Activity σ Unit) : Activity σ α := do
  let result : Except Fault α ← tryCatch (.ok <$> x) fun fault => return .error fault
  last
  match result with
  | .ok v => return v
  | .error fault => throw fault

end Activity

open Activity

def Config.timeouts (config : Config) : Timeouts :=
  { action := config.actionTimeout, navigation := config.navigationTimeout
    wait := config.waitTimeout }

/-- A session in which nothing has happened yet. -/
def Session.initial {σ : Type} (config : Config) (page : σ) : Session σ :=
  { world := { page, token := { timeout := config.timeout } } }

namespace Runner

variable {σ : Type}

/-- A runner that is given a registry, or none. -/
def create (naming : Naming) (surface : Surface σ) (config : Config) (given : Option Registry)
    (logger : String) : Runner σ :=
  { surface, config, logger
    registry := Interpreter.chooseRegistry naming config.maxDepth given }

def openLog (root : Path) (runId : String) : Activity σ Unit := fun s =>
  match EventLog.start root runId s.archive with
  | (.ok log, archive) => (.ok (), { s with events := some log, archive })
  | (.error e, archive) => (.error (.file e), { s with archive })

/-- Starts a browser as the configuration says, and then the log of the run if it has a name. -/
def launch (page : Page σ) (config : Config) (runId : Option String) : Activity σ Unit := do
  ofInteraction (Surface.launch page config.headless config.address)
  match runId with
  | none => return ()
  | some name => openLog config.logRoot name

def interpreter (r : Runner σ) (program : Program) : Interpreter σ :=
  { program, surface := r.surface, registry := r.registry, logger := r.logger
    maxDepth := r.config.maxDepth, maxSourceLength := r.config.maxSourceLength }

/-- Reports the error that ends a run. -/
def failed (e : ActionError) : Activity σ Outcome := do
  changeWorld fun w =>
    { w with records := w.records ++ e.records LogRecord.runnerLogger Level.warning false }
  return .error e

/-- An error as it is recorded, or null. -/
def errorValue (room : Nat) : Outcome → Except WriteError Value
  | .ok _ => .ok .null
  | .error e => (e.report room).map .mapping

def event (room : Nat) (source : String) (step : Step) (outcome : Outcome)
    (started now : Binary64) : Except WriteError Event := do
  return {
    source := .text source
    action := .mapping step.fields
    ok := .bool outcome.succeeded
    value := outcome.valueOr .null
    error := ← errorValue room outcome
    duration := .float ((now.sub started).mul (.ofInt 1000)) }

/-- Records a step that began at some time, if there is a log.  An error that cannot be reported is
not counted. -/
def record (source : String) (step : Step) (outcome : Outcome) (started : Binary64) :
    Activity σ Unit := fun s =>
  match s.events with
  | none => (.ok (), s)
  | some log =>
    match event log.room source step outcome started s.world.now with
    | .error e => (.error (.unwritable e), s)
    | .ok event =>
      match log.write s.world.now event s.archive with
      | (log, .ok archive) => (.ok (), { s with events := some log, archive })
      | (log, .error f) => (.error f, { s with events := some log })

def evaluateStep (it : Interpreter σ) (frame : Frame Handle) : Step → Evaluation σ Value
  | .action a => it.evaluate a frame
  | .raw v => it.evaluateRaw v frame

def sourceOf (index : Nat) : String :=
  "root[" ++ toString index ++ "]"

def runStep (it : Interpreter σ) (index : Nat) (step : Step) : Activity σ Outcome := do
  let source := sourceOf index
  let started := (← get).world.now
  let outcome ← ofInteraction (evaluateStep it { source } step).outcome
  record source step outcome started
  return outcome

/-- Evaluates steps up to the first that fails; `v` is the value so far. -/
def runFrom (it : Interpreter σ) (index : Nat) (v : Value) : List Step → Activity σ Outcome
  | [] => return .ok v
  | step :: rest => do
    match ← runStep it index step with
    | .ok v => runFrom it (index + 1) v rest
    | .error e => failed e

/-- Evaluates steps under the program in force.  The value is the last step's. -/
def runSteps (r : Runner σ) (steps : List Step) : Activity σ Outcome := do
  changeWorld World.arm
  runFrom (r.interpreter (← get).program) 0 .null steps

/-- The error for a document that is refused, because of one of its mappings. -/
def refusal (e : ParseError) (action : Fields) : ActionError :=
  { code := e.code
    message := e.message
    source := if e.location.isEmpty then "root" else "root." ++ e.location
    action := .mapping action
    payload := e.details.map Issue.toValue }

/-- Reports that a document is refused.  A document that is nested too deep is not reported. -/
def refuse (document : Document) (e : ParseError) : Activity σ Outcome :=
  match document.offending e.details with
  | .ok action => failed (refusal e action)
  | .error container => throw (.nestedTooDeep container)

/-- Reads a document and evaluates its steps.  A document that is refused changes nothing. -/
def run (r : Runner σ) (document : Document) : Activity σ Outcome :=
  match document.parse r.registry with
  | .error e => refuse document e
  | .ok program => do
    modify fun s => { s with program }
    r.runSteps (program.steps.map .action)

def closeLog : Activity σ Unit :=
  modify fun s => { s with events := s.events.map EventLog.close }

/-- Cancels the runs and closes the browser and the log.  To close again does nothing. -/
def close (r : Runner σ) : Activity σ Unit := do
  if (← get).closed then return ()
  modify fun s => { s with closed := true }
  changeWorld World.cancel
  (ofInteraction (Surface.close r.surface.page)).andThenAlways closeLog

def runAndClose (r : Runner σ) (document : Document) : Activity σ Outcome :=
  (r.run document).andThenAlways r.close

/-! ### Operations -/

/-- What can be asked of a runner.  Times are in seconds. -/
inductive Operation where
  | run (document : Document)
  | runSteps (steps : List Step)
  | cancel
  | cancelAfter (seconds : Binary64)
  | advance (seconds : Binary64)
  | close
  | runAndClose (document : Document)

/-- Does what is asked; only runs have an outcome. -/
def perform (r : Runner σ) : Operation → Activity σ (Option Outcome)
  | .run document => some <$> r.run document
  | .runSteps steps => some <$> r.runSteps steps
  | .cancel => do
    changeWorld World.cancel
    return none
  | .cancelAfter seconds => do
    changeWorld (·.cancelAfter seconds)
    return none
  | .advance seconds => do
    changeWorld (·.sleep seconds)
    return none
  | .close => do
    r.close
    return none
  | .runAndClose document => some <$> r.runAndClose document

end Runner

end Pagescript
