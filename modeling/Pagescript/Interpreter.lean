import Pagescript.Handler
import Pagescript.Outcome
/-!
# The interpreter

Evaluates actions of a program against a surface.  The handler of an action plans what to do, and to
evaluate the action is to serve the requests of that plan.  An evaluation stops at the first failure,
which is passed on unchanged by all that encloses it.  How far evaluations may be nested is bounded,
so every evaluation comes to an end.
-/

namespace Pagescript

/-- What an interpreter works with. -/
structure Interpreter (σ : Type) where
  program : Program
  surface : Surface σ
  registry : Registry
  logger : String := LogRecord.programLogger
  maxDepth : Int := Registry.defaultMaxDepth
  maxSourceLength : Int := 1000

abbrev Evaluation (σ α : Type) := ExceptT Stop (StateM (World σ)) α

abbrev Evaluator (σ : Type) := Action → Frame Handle → Evaluation σ Value

namespace Evaluation

variable {σ α : Type}

def ofInteraction (x : Interaction σ α) : Evaluation σ α := fun w =>
  let (result, next) := x w
  (result.mapError .fault, next)

def log (logger : String) (level : Level) (message : String) : Evaluation σ Unit :=
  modify (·.log logger level message)

/-- The outcome of an evaluation, unless a fault stopped it. -/
def outcome (x : Evaluation σ Value) : Interaction σ Outcome := fun w =>
  match x w with
  | (.ok v, next) => (.ok (.ok v), next)
  | (.error (.failed e), next) => (.ok (.error e), next)
  | (.error (.fault f), next) => (.error f, next)

end Evaluation

open Evaluation

/-- Carries a plan out; `serve` answers its requests. -/
def Plan.run {σ α : Type} (serve : (r : Request) → Evaluation σ r.Answer) : Plan α → Evaluation σ α
  | .done v => return v
  | .stop s => throw s
  | .request r next => do (next (← serve r)).run serve

namespace Interpreter

variable {σ : Type}

/-- An interpreter without a registry, or with one that is empty, knows all kinds. -/
def chooseRegistry (naming : Naming) (maxDepth : Int) : Option Registry → Registry
  | some registry => if registry.size = 0 then Registry.builtin naming maxDepth else registry
  | none => Registry.builtin naming maxDepth

/-- An interpreter that is given a registry, or none. -/
def create (naming : Naming) (program : Program) (surface : Surface σ) (given : Option Registry)
    (logger : String) (maxDepth maxSourceLength : Int) : Interpreter σ :=
  { program, surface, logger, maxDepth, maxSourceLength
    registry := chooseRegistry naming maxDepth given }

/-- Answers the requests of a plan; `recur` evaluates the actions it leads to. -/
def serve (it : Interpreter σ) (recur : Evaluator σ) : (r : Request) → Evaluation σ r.Answer
  | .evaluate a frame => recur a frame
  | .carryOut task => ofInteraction (it.surface.carryOut task)
  | .wait awaited => ofInteraction (Interaction.race (it.surface.work awaited))
  | .timeout => return (← get).token.timeout
  | .lookUp name => return (← get).store.get? name
  | .commit batch => modify fun w => { w with store := w.store.commit batch }
  | .log level message => log it.logger level message

/-- What an action does at a frame: a call goes to the program, any other action to its handler. -/
def plan (it : Interpreter σ) (a : Action) (frame : Frame Handle) : Plan Value :=
  match a.form with
  | .call name => Handler.call it.program name a frame
  | form =>
    match (it.registry.get? form.name).bind (·.handler) with
    | some k => Handler.plan it.program k a frame
    | none => Plan.failAt a frame .unknownAction
      ("could not find a defined action with the name " ++ Text.quote form.name) []

/-- A failure of the surface in a handler is a failure of the action; any other reason to stop is
passed on. -/
def rescue (a : Action) (frame : Frame Handle) : Stop → Evaluation σ Value
  | .fault (.surface (.notFound selector)) =>
    throw (.failure frame a.payload .elementNotFound (SurfaceError.notFound selector).message
      [.text selector])
  | .fault (.surface e) => do
    log LogRecord.interpreterLogger Level.debug
      ("Surface failure at " ++ frame.source ++ ": " ++ e.message)
    throw (.failure frame a.payload .surfaceError e.message [.text e.operation, .mapping e.details])
  | stop => throw stop

/-- Carries out an action that has been entered; `recur` evaluates the actions it leads to.  A call
has no handler that could fail on the surface. -/
def step (it : Interpreter σ) (recur : Evaluator σ) (a : Action) (frame : Frame Handle) :
    Evaluation σ Value :=
  let x := (it.plan a frame).run (it.serve recur)
  match a.form with
  | .call _ => x
  | _ => tryCatch x (rescue a frame)

def recursionFailure (a : Action) (frame : Frame Handle) (message : String) : Stop :=
  .failure frame a.payload .recursionLimit message
    [.mapping [("depth", .int frame.depth), ("length", .int frame.source.length),
      ("calls", .list (frame.calls.map .text))]]

def overlong (it : Interpreter σ) (a : Action) (frame : Frame Handle) : Stop :=
  recursionFailure a frame ("action chain longer than " ++ toString it.maxSourceLength ++
    " chars, expected to be inside a recursive loop")

def tooDeep (it : Interpreter σ) (a : Action) (frame : Frame Handle) : Stop :=
  recursionFailure a frame ("actions nested deeper than " ++ toString it.maxDepth ++ " levels")

/-- Evaluates an action that may be entered, and may lead to others, `budget` levels deep. -/
def evaluateWithin (it : Interpreter σ) : Nat → Evaluator σ
  | budget, a, frame =>
    let entered := frame.enter a.name
    if it.maxSourceLength < entered.source.length then throw (it.overlong a entered)
    else
      match budget with
      | 0 => throw (it.tooDeep a entered)
      | budget + 1 => it.step (evaluateWithin it budget) a entered

def evaluate (it : Interpreter σ) (a : Action) (frame : Frame Handle) : Evaluation σ Value :=
  it.evaluateWithin (it.maxDepth - frame.depth).toNat a frame

/-- The mapping by which a raw value is reported. -/
def rawFields : Value → Fields
  | .mapping fields => fields
  | v => [("value", v)]

def evaluateRaw (it : Interpreter σ) (v : Value) (frame : Frame Handle) : Evaluation σ Value :=
  match it.registry.parseAction v with
  | .ok a => it.evaluate a frame
  | .error e =>
    let at' := match Registry.rawAction v with
      | .ok (_, kind) => frame.enter kind
      | .error _ => frame
    throw (.failure at' (rawFields v) e.code e.message (e.details.map Issue.toValue))

end Interpreter

end Pagescript
