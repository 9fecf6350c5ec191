import Pagescript.Action.Fold
import Pagescript.Value.Literal
/-!
# Actions as mappings

An action that was not read from a document is shown by its fields.
-/

namespace Pagescript

/-- How the fields of an action are shown. -/
inductive DumpStyle where
  /-- Every field, absent ones as null. -/
  | full
  /-- As a program would have it: absent fields left out. -/
  | program
  deriving DecidableEq

/-- A field of a form. -/
inductive Part (α : Type) where
  | value (v : Value)
  | node (a : α)
  | nodes (as : List α)
  | items (is : List (String × Item α))
  | absent

/-- The name of the field that holds the expected text of a comparison. -/
def Comparison.expectedField : Comparison → String
  | equal | notEqual => "expected"
  | contains => "text"

namespace Part

variable {α : Type}

def text (s : String) : Part α :=
  .value (.text s)

def element : Option String → Part α
  | some s => text s
  | none => .absent

def operand : Operand α → Part α
  | .flag b => .value (.bool b)
  | .node a => .node a

def option : Option α → Part α
  | some a => .node a
  | none => .absent

end Part

/-- The fields of a form, in the order of its schema. -/
def Form.parts {α : Type} (form : Form α) : List (String × Part α) :=
  let name := ("action", Part.text form.name)
  match form with
  | .sequence statements => [name, ("statements", .nodes statements)]
  | .branch condition statement otherwise =>
    [name, ("condition", .node condition), ("statement", .node statement),
      ("otherwise", .option otherwise)]
  | .negate operand => [name, ("statement", .operand operand)]
  | .forEach elements execute => [name, ("elements", .text elements), ("execute", .node execute)]
  | .call _ => [name]
  | .has element => [name, ("element", .text element)]
  | .inspect _ element => [("element", .element element), name]
  | .attributeOf element attr => [("element", .element element), name, ("name", .text attr)]
  | .compare comparison expected statement ignoreCase =>
    [name, (comparison.expectedField, .text expected), ("statement", .node statement),
      ("ignore_case", .value (.bool ignoreCase))]
  | .gesture _ element => [("element", .element element), name]
  | .input element text => [("element", .element element), name, ("text", .text text)]
  | .press element key => [("element", .element element), name, ("key", .text key)]
  | .navigate link => [name, ("link", .text link)]
  | .eval element expression =>
    [("element", .element element), name, ("expression", .text expression)]
  | .sleep duration => [name, ("duration", .value (.float duration))]
  | .awaitPage _ => [name]
  | .awaitElement _ element => [("element", .element element), name]
  | .store items => [name, ("items", .items items)]
  | .logStore key => [name, ("key", .text (reference key))]
  | .log message => [name, ("message", .text message)]
  | .error message => [name, ("message", .text message)]

namespace Action

def partLiteral : Part String → String
  | .value v => v.literal
  | .node shown => shown
  | .nodes shown => "[" ++ ", ".intercalate shown ++ "]"
  | .items items =>
    "\x7b" ++ ", ".intercalate (items.map fun (key, item) =>
      Text.quote key ++ ": " ++ (match item with
        | .literal v => v.literal
        | .node shown => shown)) ++ "\x7d"
  | .absent => "None"

def formLiteral (form : Form String) : String :=
  form.title ++ "(" ++
    ", ".intercalate (form.parts.map fun (key, part) => key ++ "=" ++ partLiteral part) ++ ")"

/-- The title of the action, and its fields in brackets. -/
def literal : Action → String :=
  fold fun _ form => formLiteral form

/-- A dump goes down this many levels; an action, a list and a mapping are a level each. -/
def maxDumpLevel : Nat := 255

/-- What is kept of an action while it is dumped: its literal, and its dump at a given level. -/
abbrev Dumped := String × (Nat → Value)

def fieldName (style : DumpStyle) (key : String) : String :=
  match style with
  | .full => key
  | .program => if key = "ignore_case" then "ignoreCase" else key

/-- The dump of a field of an action at some level. -/
def partValue? (style : DumpStyle) (level : Nat) : Part Dumped → Option Value
  | .value v => some v
  | .node a => some (a.2 (level + 1))
  | .nodes as => some (.list (as.map fun a => a.2 (level + 2)))
  | .items items =>
    some (.mapping (items.map fun (key, item) =>
      (key, match item with
        | .literal v => v
        | .node a => a.2 (level + 2))))
  | .absent => match style with
    | .full => some .null
    | .program => none

def formDump (style : DumpStyle) (form : Form Dumped) (level : Nat) : Fields :=
  form.parts.filterMap fun (key, part) =>
    (partValue? style level part).map (fieldName style key, ·)

/-- The fields of an action; an action that lies too deep is left as it is. -/
def dumped (style : DumpStyle) : Action → Dumped :=
  fold fun _ form =>
    let shown := formLiteral (form.map (·.1))
    (shown, fun level =>
      if maxDumpLevel < level then .foreign shown else .mapping (formDump style form level))

def dump (style : DumpStyle) (a : Action) : Fields :=
  formDump style (a.form.map (dumped style)) 1

/-- All fields of an action and of the actions in it. -/
def fields (a : Action) : Fields :=
  a.dump .full

/-- The action as it was written, or else as a program would have it. -/
def payload (a : Action) : Fields :=
  a.written.getD (a.dump .program)

end Action

end Pagescript
