import Pagescript.Action.Kind
import Pagescript.Value.Basic
/-!
# Actions

An action is a node of the tree that a program is.  Its form says what it does and holds its parts;
a node read from a document also remembers the mapping it was written as.
-/

namespace Pagescript

/-- The mark of a name that is looked up in the program. -/
def sigil : Char := '$'

/-- A name as a reference to it is written. -/
def reference (name : String) : String :=
  String.singleton sigil ++ name

/-- What stands at a name of a store action: a value, or an action that computes it. -/
inductive Item (α : Type) where
  | literal (v : Value)
  | node (a : α)

/-- What a negation applies to. -/
inductive Operand (α : Type) where
  | flag (b : Bool)
  | node (a : α)

/-- The forms of an action whose parts are of type `α`. -/
inductive Form (α : Type) where
  | sequence (statements : List α)
  | branch (condition : α) (statement : α) (otherwise : Option α)
  | negate (operand : Operand α)
  | forEach (elements : String) (execute : α)
  /-- A call of the action that the program holds under a name. -/
  | call (name : String)
  | has (element : String)
  | inspect (inspection : Inspection) (element : Option String)
  | attributeOf (element : Option String) (name : String)
  | compare (comparison : Comparison) (expected : String) (statement : α) (ignoreCase : Bool)
  | gesture (g : Gesture) (element : Option String)
  | input (element : Option String) (text : String)
  | press (element : Option String) (key : String)
  | navigate (link : String)
  | eval (element : Option String) (expression : String)
  /-- A pause of some seconds. -/
  | sleep (duration : Binary64)
  | awaitPage (state : LoadState)
  | awaitElement (state : ElementState) (element : Option String)
  | store (items : List (String × Item α))
  /-- The key is a reference to a name of the store. -/
  | logStore (name : String)
  | log (message : String)
  | error (message : String)

inductive Action where
  | node (written : Option Fields) (form : Form Action)

namespace Form

variable {α : Type}

/-- The kind of a form; a call has none. -/
def kind? : Form α → Option Kind
  | .sequence _ => some .sequence
  | .branch .. => some .branch
  | .negate _ => some .negate
  | .forEach .. => some .forEach
  | .call _ => none
  | .has _ => some .has
  | .inspect inspection _ => some (.inspect inspection)
  | .attributeOf .. => some .attributeOf
  | .compare comparison .. => some (.compare comparison)
  | .gesture g _ => some (.gesture g)
  | .input .. => some .input
  | .press .. => some .press
  | .navigate _ => some .navigate
  | .eval .. => some .eval
  | .sleep _ => some .sleep
  | .awaitPage state => some (.awaitPage state)
  | .awaitElement state _ => some (.awaitElement state)
  | .store _ => some .store
  | .logStore _ => some .logStore
  | .log _ => some .log
  | .error _ => some .error

/-- What is written as the `action` of a node of this form. -/
def name (form : Form α) : String :=
  match form with
  | .call name => reference name
  | form => (form.kind?.map Kind.name).getD ""

/-- The title of the form in messages and listings. -/
def title (form : Form α) : String :=
  (form.kind?.map Kind.title).getD "CustomActionCall"

end Form

namespace Action

def form : Action → Form Action
  | .node _ form => form

def written : Action → Option Fields
  | .node written _ => written

def name (a : Action) : String :=
  a.form.name

def title (a : Action) : String :=
  a.form.title

/-- A call that no document holds. -/
def callOf (name : String) : Action :=
  .node none (.call name)

end Action

end Pagescript
