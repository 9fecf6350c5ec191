import Pagescript.Action.Basic
/-!
# The fields of a form

A handler reads the fields it needs by name, for a registry may bind it to actions of another kind.
Each function here gives a field of the forms that have it.
-/

namespace Pagescript.Form

variable {α : Type}

def statements? : Form α → Option (List α)
  | .sequence statements => some statements
  | _ => none

def condition? : Form α → Option α
  | .branch condition .. => some condition
  | _ => none

/-- The single statement of a form, which a negation may have as a flag. -/
def statement? : Form α → Option (Operand α)
  | .branch _ statement _ => some (.node statement)
  | .negate operand => some operand
  | .compare _ _ statement _ => some (.node statement)
  | _ => none

def otherwise? : Form α → Option (Option α)
  | .branch _ _ otherwise => some otherwise
  | _ => none

def elements? : Form α → Option String
  | .forEach elements _ => some elements
  | _ => none

def execute? : Form α → Option α
  | .forEach _ execute => some execute
  | _ => none

/-- The selector of the element a form is about, for the forms that can name one. -/
def element? : Form α → Option (Option String)
  | .has element => some (some element)
  | .inspect _ element => some element
  | .attributeOf element _ => some element
  | .gesture _ element => some element
  | .input element _ => some element
  | .press element _ => some element
  | .eval element _ => some element
  | .awaitElement _ element => some element
  | _ => none

/-- The selector that a form names. -/
def target? (form : Form α) : Option String :=
  form.element?.bind id

def name? : Form α → Option String
  | .attributeOf _ name => some name
  | .logStore name => some name
  | _ => none

def expected? : Form α → Option String
  | .compare .equal expected .. => some expected
  | .compare .notEqual expected .. => some expected
  | _ => none

def text? : Form α → Option String
  | .compare .contains expected .. => some expected
  | .input _ text => some text
  | _ => none

def ignoreCase? : Form α → Option Bool
  | .compare _ _ _ ignoreCase => some ignoreCase
  | _ => none

def key? : Form α → Option String
  | .press _ key => some key
  | .logStore name => some (reference name)
  | _ => none

def link? : Form α → Option String
  | .navigate link => some link
  | _ => none

def expression? : Form α → Option String
  | .eval _ expression => some expression
  | _ => none

def duration? : Form α → Option Binary64
  | .sleep duration => some duration
  | _ => none

def items? : Form α → Option (List (String × Item α))
  | .store items => some items
  | _ => none

def message? : Form α → Option String
  | .log message => some message
  | .error message => some message
  | _ => none

end Pagescript.Form
