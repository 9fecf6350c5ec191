import Pagescript.Action.Schema
/-!
# Registries

A registry binds the names of actions to schemas and handlers, and reads raw values as actions.

The schemas share one table of names: to register a schema under a name also makes that name the one
under which the schema is registered, wherever it is registered next without a name.
-/

namespace Pagescript

/-- The names that schemas were given, the latest first. -/
structure Naming where
  given : List (Schema × String)

namespace Naming

/-- Every kind goes by its own name. -/
def initial : Naming := ⟨[]⟩

/-- The name of a schema.  The schema of element actions takes over the one of the base. -/
def nameOf? (naming : Naming) (schema : Schema) : Option String :=
  match naming.given.lookup schema, schema with
  | some name, _ => some name
  | none, .base => none
  | none, .element => naming.given.lookup .base
  | none, .call => some (String.singleton sigil)
  | none, .kind k => some k.name

def give (naming : Naming) (schema : Schema) (name : String) : Naming :=
  ⟨(schema, name) :: naming.given⟩

end Naming

structure Registration where
  name : String
  schema : Schema
  /-- The kind whose handler carries the action out, if there is one. -/
  handler : Option Kind
  description : String

structure Registry where
  registrations : Entries Registration
  maxDepth : Int

inductive RegistrationError where
  | notAnAction
  | reservedName

def RegistrationError.message : RegistrationError → String
  | notAnAction => "model must subclass ActionBase"
  | reservedName => "'$' is reserved for custom action references"

/-- What is registered: a schema, with a name and a description of its own or the usual ones. -/
structure RegistrationRequest where
  /-- Absent if something else than a schema is to be registered. -/
  schema : Option Schema
  handler : Option Kind
  name : Option String := none
  description : Option String := none

def nonempty? (s : Option String) : Option String :=
  s.filter (!·.isEmpty)

structure ParseError where
  code : ErrorCode
  message : String
  location : String := ""
  details : List Issue := []

namespace ParseError

def malformed (message : String) : ParseError :=
  { code := .malformedAction, message }

def unknown (kind : String) : ParseError :=
  { code := .unknownAction
    message := "could not find a defined action with the name " ++ Text.quote kind }

def tooDeep (maxDepth : Int) : ParseError :=
  { code := .recursionLimit
    message := "actions nested deeper than " ++ toString maxDepth ++ " levels" }

/-- The code that the first issue stands for: a nested refusal keeps the more telling codes. -/
def codeOf : Complaint → ErrorCode
  | .nested .unknownAction _ => .unknownAction
  | .nested .recursionLimit _ => .recursionLimit
  | _ => .malformedAction

/-- The refusal for a list of issues: it speaks of the first one. -/
def ofIssues (issues : List Issue) : ParseError :=
  match issues with
  | [] => malformed ""
  | first :: _ =>
    let code := codeOf first.complaint
    let location := formatLocation first.loc
    let message :=
      if code = .recursionLimit || location.isEmpty then first.complaint.message
      else location ++ ": " ++ first.complaint.message
    { code, message, location, details := issues }

def inAction (kind : String) (issues : List Issue) : ParseError :=
  let e := ofIssues issues
  if e.code = .recursionLimit then e
  else { e with message := "invalid " ++ Text.quote kind ++ " action: " ++ e.message }

def toIssue (e : ParseError) : Issue :=
  .here (.nested e.code e.message)

end ParseError

namespace Registry

def defaultMaxDepth : Int := 128

def empty (maxDepth : Int) : Registry :=
  ⟨[], maxDepth⟩

def get? (registry : Registry) (name : String) : Option Registration :=
  Entries.get? registry.registrations name

def size (registry : Registry) : Nat :=
  registry.registrations.length

def unknownName (name : String) : String :=
  "Unknown action '" ++ name ++ "'"

/-- Registers a schema under the name asked for, else under its current name, else its title. -/
def register (registry : Registry) (naming : Naming) (request : RegistrationRequest) :
    Except RegistrationError (Registry × Naming) :=
  match request.schema with
  | none => .error .notAnAction
  | some schema =>
    let name := ((nonempty? request.name).or (nonempty? (naming.nameOf? schema))).getD schema.title
    if name.startsWith (String.singleton sigil) then .error .reservedName
    else
      let registration : Registration :=
        { name, schema
          handler := request.handler
          description := (nonempty? request.description).getD schema.description }
      .ok ({ registry with registrations := Entries.insert registry.registrations name registration },
        naming.give schema name)

/-- A registry of all kinds, each under its current name and with its own handler. -/
def builtin (naming : Naming) (maxDepth : Int) : Registry :=
  Kind.all.foldl
    (fun registry k =>
      match registry.register naming { schema := some (.kind k), handler := some k } with
      | .ok (next, _) => next
      | .error _ => registry)
    (empty maxDepth)

/-- The schema of the actions of a name; an unknown name that begins with the sigil is a call. -/
def schemaOf? (registry : Registry) (kind : String) : Option Schema :=
  match registry.get? kind with
  | some registration => some registration.schema
  | none => if kind.startsWith (String.singleton sigil) then some .call else none

def rawAction (v : Value) : Except ParseError (Fields × String) :=
  match v with
  | .mapping fields =>
    match Entries.get? fields "action" with
    | some (.text kind) => .ok (fields, kind)
    | _ => .error (.malformed "an 'action' key (type string) is required")
  | v => .error (.malformed ("expected an action mapping, got " ++ v.typeName))

/-- Reads a raw value as an action that nests at most `budget` levels. -/
def parseWithin (registry : Registry) : Nat → Value → Except ParseError Action
  | budget, v => do
    let (fields, kind) ← rawAction v
    match registry.schemaOf? kind with
    | none => throw (.unknown kind)
    | some schema =>
      match budget with
      | 0 => throw (.tooDeep registry.maxDepth)
      | budget + 1 =>
        let node (v : Value) : Check Action :=
          match parseWithin registry budget v with
          | .ok a => .valid a
          | .error e => .invalid [e.toIssue]
        match schema.read node fields with
        | .valid (some form) => return .node (some fields) form
        | .valid none => throw (.malformed "an 'action' key (type string) is required")
        | .invalid issues => throw (.inAction kind issues)

def parseAction (registry : Registry) (v : Value) : Except ParseError Action :=
  registry.parseWithin registry.maxDepth.toNat v

def node (registry : Registry) : Reader Action := fun v =>
  match registry.parseAction v with
  | .ok a => .valid a
  | .error e => .invalid [e.toIssue]

end Registry

/-- What reading goes by besides the text: registries and other values, by their names. -/
abbrev Context := Entries (Sum Registry Value)

def Context.registry? (context : Context) : Option Registry :=
  match Entries.get? context "registry" with
  | some (.inl registry) => some registry
  | _ => none

/-- The registry of a context; the shared one if it has none. -/
def Registry.ofContext (shared : Registry) (context : Option Context) : Registry :=
  (context.bind Context.registry?).getD shared

inductive InstanceError where
  | issues (found : List Issue)
  /-- The schema describes no action, so its instances have no name. -/
  | nameless (schema : Schema)
  /-- A program is no action at all. -/
  | program

def InstanceError.message : InstanceError → String
  | issues found => (ParseError.ofIssues found).message
  | nameless schema => Text.quote schema.title ++ " object has no attribute 'action'"
  | program => "'Program' object has no attribute 'action_name'"

namespace Schema

/-- An action made from a mapping by its schema alone.  It does not remember the mapping. -/
def validate (registry : Registry) (schema : Schema) (v : Value) : Except InstanceError Action :=
  match v with
  | .mapping fields =>
    match schema.read registry.node fields with
    | .valid (some form) => .ok (.node none form)
    | .valid none => .error (.nameless schema)
    | .invalid issues => .error (.issues issues)
  | _ => .error (.issues [.here (.notInstance .value schema.title)])

def ofStatements (registry : Registry) (schema : Schema) (statements : List Action) :
    Except InstanceError Action :=
  match schema with
  | .kind .sequence => .ok (.node none (.sequence statements))
  | schema => schema.validate registry (.mapping [("statements", .list [])])

end Schema

end Pagescript
