import Pagescript.Action.Dump
import Pagescript.Check
/-!
# Schemas

What the mapping of an action has to look like.  Besides the schemas of the kinds there is one for
calls, and two that describe no action of their own: the schema that all others extend, and the one
that the actions on an element extend.
-/

namespace Pagescript

inductive Schema where
  | base
  | element
  | call
  | kind (k : Kind)
  deriving DecidableEq, Repr

namespace Schema

def title : Schema → String
  | base => "ActionBase"
  | element => "ElementActionBase"
  | call => "CustomActionCall"
  | kind k => k.title

def all : List Schema :=
  [base, element, call] ++ Kind.all.map kind

def ofTitle? (s : String) : Option Schema :=
  all.find? (·.title == s)

/-- What the schema is for, in one line. -/
def description : Schema → String
  | base => "Base class for all DSL actions."
  | element => "Actions operating on one element."
  | call => "Reference to a named action from ``Program.actions``."
  | kind .input => "Type text into an element, or at the keyboard focus without one."
  | kind _ => ""

end Schema

namespace Form

open Reader

variable {α : Type}

/-- The `action` field of a kind: its name, if it is there at all. -/
def literalName (k : Kind) (fields : Fields) : Check Unit :=
  withDefault fields "action" () (literal k.name)

/-- The fields of a kind: its name, then its own, and no others. -/
def ofKind (k : Kind) (fields : Fields) (own : List String) (body : Check (Form α)) : Check (Form α) :=
  (fun _ form _ => form) <$> literalName k fields <*> body <*> onlyFields fields ("action" :: own)

/-- The fields of a kind that acts on an element: the element comes first. -/
def ofElementKind (k : Kind) (fields : Fields) (own : List String)
    (body : Check (Option String → Form α)) : Check (Form α) :=
  (fun element _ form _ => form element) <$> withDefault fields "element" none (nullable text) <*>
    literalName k fields <*> body <*> onlyFields fields ("element" :: "action" :: own)

/-- The name under which the case of letters is turned off. -/
def caseField (fields : Fields) : String :=
  if Entries.contains fields "ignoreCase" then "ignoreCase" else "ignore_case"

def item (node : Reader α) : Reader (Item α)
  | .mapping fields => (node (.mapping fields)).map .node
  | v => .valid (.literal v)

def operand (node : Reader α) : Reader (Operand α)
  | .bool b => .valid (.flag b)
  | v => (node v).map .node

/-- Reads the fields of a kind; `node` reads the actions among them. -/
def read (node : Reader α) (k : Kind) (fields : Fields) : Check (Form α) :=
  match k with
  | .sequence =>
    ofKind k fields ["statements"] (sequence <$> required fields "statements" (listOf .value node))
  | .branch =>
    ofKind k fields ["condition", "statement", "otherwise"]
      (branch <$> required fields "condition" node <*> required fields "statement" node <*>
        withDefault fields "otherwise" none (nullable node))
  | .negate => ofKind k fields ["statement"] (negate <$> required fields "statement" (operand node))
  | .forEach =>
    ofKind k fields ["elements", "execute"]
      (forEach <$> required fields "elements" text <*> required fields "execute" node)
  | .has => ofKind k fields ["element"] (has <$> required fields "element" text)
  | .inspect inspection => ofElementKind k fields [] (pure (inspect inspection))
  | .attributeOf =>
    ofElementKind k fields ["name"]
      ((fun name element => attributeOf element name) <$> required fields "name" text)
  | .compare comparison =>
    ofKind k fields [comparison.expectedField, "statement", caseField fields]
      (compare comparison <$> required fields comparison.expectedField text <*>
        required fields "statement" node <*> withDefault fields (caseField fields) false flag)
  | .gesture g => ofElementKind k fields [] (pure (gesture g))
  | .input =>
    ofElementKind k fields ["text"] ((fun s element => input element s) <$> required fields "text" text)
  | .press =>
    ofElementKind k fields ["key"]
      ((fun key element => press element key) <$> required fields "key" nonemptyText)
  | .navigate => ofKind k fields ["link"] (navigate <$> required fields "link" text)
  | .eval =>
    ofElementKind k fields ["expression"]
      ((fun expression element => eval element expression) <$> required fields "expression" text)
  | .sleep => ofKind k fields ["duration"] (sleep <$> required fields "duration" duration)
  | .awaitPage state => ofKind k fields [] (pure (awaitPage state))
  | .awaitElement state => ofElementKind k fields [] (pure (awaitElement state))
  | .store =>
    ofKind k fields ["items"]
      (store <$> withDefault fields "items" [] (mappingOf .value (item node)))
  | .logStore => ofKind k fields ["key"] (logStore <$> required fields "key" referenceText)
  | .log => ofKind k fields ["message"] (log <$> required fields "message" text)
  | .error => ofKind k fields ["message"] (error <$> required fields "message" text)

end Form

namespace Schema

open Reader

/-- Reads the fields of a schema.  The two schemas that are no action have no form. -/
def read {α : Type} (node : Reader α) (schema : Schema) (fields : Fields) : Check (Option (Form α)) :=
  match schema with
  | base => (fun _ => none) <$> onlyFields fields []
  | element =>
    (fun _ _ => none) <$> withDefault fields "element" none (nullable text) <*>
      onlyFields fields ["element"]
  | call =>
    (fun name _ => some (.call name)) <$> required fields "action" referenceText <*>
      onlyFields fields ["action"]
  | kind k => some <$> Form.read node k fields

end Schema

end Pagescript
