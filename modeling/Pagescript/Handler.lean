import Pagescript.Action.Field
import Pagescript.Key
import Pagescript.Plan
import Pagescript.Program
import Pagescript.Text.Fold
/-!
# Handlers

The handler of a kind says by a plan what an action of that kind does at a frame.
-/

namespace Pagescript.Handler

open Plan

/-! ### Parts of handlers -/

def selector (program : Program) (a : Action) (frame : Frame Handle) (expression : String) :
    Plan String :=
  match program.selector? expression with
  | some selector => return selector
  | none => failAt a frame .unknownSelector
    ("could not find a custom selector named " ++ Text.quote expression) [.text expression]

def hasTarget (a : Action) (frame : Frame Handle) : Bool :=
  a.form.target?.isSome || frame.element.isSome

/-- The element an action acts on: the one it names, else the one that a loop has bound. -/
def target (program : Program) (a : Action) (frame : Frame Handle) : Plan Handle :=
  match a.form.target?, frame.element with
  | some expression, _ => do
    let selector ← selector program a frame expression
    carryOut (.queryOne selector)
  | none, some handle => return handle
  | none, none => failAt a frame .malformedAction "an 'element' key (type string) is required" []

def mismatch {α : Type} (a : Action) (frame : Frame Handle) (label expected : String) (v : Value) :
    Plan α :=
  failAt a frame .typeMismatch
    ("expected " ++ label ++ " to return a " ++ expected ++ " type, got " ++ v.typeName) [v]

/-- Evaluates a part of an action that has to give a flag. -/
def expectFlag (a : Action) (frame : Frame Handle) (node : Action) (label : String) : Plan Bool := do
  match ← evaluate node frame with
  | .bool b => return b
  | v => mismatch a frame label "bool" v

def expectText (a : Action) (frame : Frame Handle) (node : Action) (label : String) :
    Plan String := do
  match ← evaluate node frame with
  | .text s => return s
  | v => mismatch a frame label "str" v

/-- Waits for something, unless the run is cancelled or its time is over. -/
def wait (a : Action) (frame : Frame Handle) (awaited : Surface.Awaited) : Plan Value := do
  let ending : Except Interruption Unit ← ask (.wait awaited)
  match ending with
  | .ok () => return .null
  | .error .cancelled =>
    failAt a frame .cancelled "run was cancelled before the wait completed" []
  | .error .timeout =>
    let limit : Option Binary64 ← ask .timeout
    failAt a frame .timeout "run deadline exceeded before the wait completed"
      [(limit.map .float).getD .null]

/-! ### Loops -/

/-- Evaluates actions in order; the value is the last one's. -/
def evaluateAll (frame : Frame Handle) (v : Value) : List Action → Plan Value
  | [] => return v
  | a :: rest => do evaluateAll frame (← evaluate a frame) rest

/-- Evaluates an action once for each element, which is bound meanwhile. -/
def turns (execute : Action) (frame : Frame Handle) (index : Nat) : List Handle → Plan Value
  | [] => return .null
  | handle :: rest => do
    let _ ← evaluate execute ((frame.item index).bind (some handle))
    turns execute frame (index + 1) rest

def itemValue (program : Program) (frame : Frame Handle) (item : Item Action) : Plan Value :=
  match item with
  | .node a => evaluate a frame
  | .literal (.text s) =>
    match program.resolve s with
    | .action .. =>
      match Reader.referenceText (.text s) with
      | .valid name => evaluate (.callOf name) frame
      | .invalid issues => stop (.fault (.badReference (issues.map (Issue.under (.key "action")))))
    | .selector _ text => return .text text
    | .literal _ text => return .text text
  | .literal v => return v

def itemValues (program : Program) (frame : Frame Handle) :
    List (String × Item Action) → Plan Fields
  | [] => return []
  | (name, item) :: rest => do
    let v ← itemValue program (frame.field name) item
    return (name, v) :: (← itemValues program frame rest)

/-! ### Comparisons -/

def occursIn (part : List Char) : List Char → Bool
  | [] => part.isEmpty
  | c :: rest => part.isPrefixOf (c :: rest) || occursIn part rest

def compareTexts : Comparison → List Char → List Char → Bool
  | .equal, expected, actual => expected == actual
  | .notEqual, expected, actual => expected != actual
  | .contains, expected, actual => occursIn expected actual

def expectedOf (a : Action) : Comparison → Plan String
  | .equal | .notEqual => need a "expected" a.form.expected?
  | .contains => need a "text" a.form.text?

/-- The statement of an action that cannot have a flag in its place. -/
def statementOf (a : Action) : Plan Action := do
  match ← need a "statement" a.form.statement? with
  | .node statement => return statement
  | .flag _ => stop (.fault (.missingField "bool" "action_name"))

def comparison (c : Comparison) (a : Action) (frame : Frame Handle) : Plan Value := do
  let expected ← expectedOf a c
  let actual ← expectText a frame (← statementOf a) "statement"
  if ← need a "ignore_case" a.form.ignoreCase? then
    return .bool (compareTexts c (Text.fold expected.toList) (Text.fold actual.toList))
  else
    return .bool (compareTexts c expected.toList actual.toList)

/-! ### Kinds -/

def plan (program : Program) (k : Kind) (a : Action) (frame : Frame Handle) : Plan Value :=
  match k with
  | .sequence => do
    evaluateAll frame .null (← need a "statements" a.form.statements?)
  | .branch => do
    if ← expectFlag a frame (← need a "condition" a.form.condition?) "condition" then
      evaluate (← statementOf a) frame
    else
      match ← need a "otherwise" a.form.otherwise? with
      | some otherwise => evaluate otherwise frame
      | none => return .null
  | .negate => do
    match ← need a "statement" a.form.statement? with
    | .flag b => return .bool !b
    | .node statement => return .bool !(← expectFlag a frame statement "statement")
  | .forEach => do
    let selector ← selector program a frame (← need a "elements" a.form.elements?)
    let handles : List Handle ← carryOut (.queryAll selector)
    turns (← need a "execute" a.form.execute?) frame 0 handles
  | .has => do
    match ← need a "element" a.form.element? with
    | some expression => do
      let selector ← selector program a frame expression
      let handles : List Handle ← carryOut (.queryAll selector)
      return .bool !handles.isEmpty
    | none => stop (.fault .missingSelector)
  | .inspect inspection => do
    let handle ← target program a frame
    carryOut (.inspect handle inspection)
  | .attributeOf => do
    let handle ← target program a frame
    let name ← need a "name" a.form.name?
    carryOut (.readAttribute handle name)
  | .compare c => comparison c a frame
  | .gesture g => do
    let handle ← target program a frame
    carryOut (.gesture handle g)
    return .null
  | .input => do
    if hasTarget a frame then
      let handle ← target program a frame
      let text ← need a "text" a.form.text?
      carryOut (.input handle text)
    else
      let text ← need a "text" a.form.text?
      carryOut (.insertText text)
    return .null
  | .press => do
    let key := Key.normalize (← need a "key" a.form.key?)
    if hasTarget a frame then
      let handle ← target program a frame
      carryOut (.press handle key)
    else
      carryOut (.pressKey key)
    return .null
  | .navigate => do
    let link ← need a "link" a.form.link?
    carryOut (.navigate link)
    return .null
  | .eval => do
    if hasTarget a frame then
      let handle ← target program a frame
      let expression ← need a "expression" a.form.expression?
      carryOut (.evaluateOn handle expression)
    else
      let expression ← need a "expression" a.form.expression?
      carryOut (.evaluate expression)
  | .sleep => do
    wait a frame (.pause (← need a "duration" a.form.duration?))
  | .awaitPage state => wait a frame (.page state)
  | .awaitElement state => do
    let handle ← target program a frame
    wait a frame (.element handle state)
  | .store => do
    let batch ← itemValues program frame (← need a "items" a.form.items?)
    ask (.commit batch)
    return .null
  | .logStore => do
    let name ← need a "name" a.form.name?
    let stored : Option Value ← ask (.lookUp name)
    match stored with
    | some v => do
      log Level.info (name ++ " = " ++ v.literal)
      return v
    | none =>
      failAt a frame .unknownStoreKey
        ("the key " ++ Text.quote name ++ " is not in the program store") [.text name]
  | .log => do
    let message ← need a "message" a.form.message?
    log Level.info message
    return .null
  | .error => do
    let message ← need a "message" a.form.message?
    log Level.error message
    failAt a frame .userRaised message [.text message]

def call (program : Program) (name : String) (a : Action) (frame : Frame Handle) : Plan Value :=
  match program.action? name with
  | some target => evaluate target (frame.calling name)
  | none => failAt a frame .unknownCustomAction
    ("could not find a custom action named " ++ Text.quote name) [.text name]

end Pagescript.Handler
