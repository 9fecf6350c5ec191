import Pagescript.Action.Basic
/-!
# Folds over actions

A function on actions that is given by what it does with a form once it has dealt with the parts.
Main statement: `Action.fold_node`, its equation.
-/

namespace Pagescript

variable {α β : Type}

def Item.map (f : α → β) : Item α → Item β
  | .literal v => .literal v
  | .node a => .node (f a)

def Operand.map (f : α → β) : Operand α → Operand β
  | .flag b => .flag b
  | .node a => .node (f a)

def Form.map (f : α → β) : Form α → Form β
  | .sequence statements => .sequence (statements.map f)
  | .branch condition statement otherwise => .branch (f condition) (f statement) (otherwise.map f)
  | .negate operand => .negate (operand.map f)
  | .forEach elements execute => .forEach elements (f execute)
  | .call name => .call name
  | .has element => .has element
  | .inspect inspection element => .inspect inspection element
  | .attributeOf element name => .attributeOf element name
  | .compare comparison expected statement ignoreCase =>
    .compare comparison expected (f statement) ignoreCase
  | .gesture g element => .gesture g element
  | .input element text => .input element text
  | .press element key => .press element key
  | .navigate link => .navigate link
  | .eval element expression => .eval element expression
  | .sleep duration => .sleep duration
  | .awaitPage state => .awaitPage state
  | .awaitElement state element => .awaitElement state element
  | .store items => .store (items.map fun entry => (entry.1, entry.2.map f))
  | .logStore name => .logStore name
  | .log message => .log message
  | .error message => .error message

namespace Action

mutual

def fold (f : Option Fields → Form β → β) : Action → β
  | .node written form => f written (foldForm f form)
termination_by structural a => a

def foldForm (f : Option Fields → Form β → β) : Form Action → Form β
  | .sequence statements => .sequence (foldAll f statements)
  | .branch condition statement otherwise =>
    .branch (fold f condition) (fold f statement) (foldOption f otherwise)
  | .negate operand => .negate (foldOperand f operand)
  | .forEach elements execute => .forEach elements (fold f execute)
  | .call name => .call name
  | .has element => .has element
  | .inspect inspection element => .inspect inspection element
  | .attributeOf element name => .attributeOf element name
  | .compare comparison expected statement ignoreCase =>
    .compare comparison expected (fold f statement) ignoreCase
  | .gesture g element => .gesture g element
  | .input element text => .input element text
  | .press element key => .press element key
  | .navigate link => .navigate link
  | .eval element expression => .eval element expression
  | .sleep duration => .sleep duration
  | .awaitPage state => .awaitPage state
  | .awaitElement state element => .awaitElement state element
  | .store items => .store (foldItems f items)
  | .logStore name => .logStore name
  | .log message => .log message
  | .error message => .error message
termination_by structural form => form

def foldAll (f : Option Fields → Form β → β) : List Action → List β
  | [] => []
  | a :: rest => fold f a :: foldAll f rest
termination_by structural as => as

def foldOption (f : Option Fields → Form β → β) : Option Action → Option β
  | none => none
  | some a => some (fold f a)
termination_by structural a => a

def foldOperand (f : Option Fields → Form β → β) : Operand Action → Operand β
  | .flag b => .flag b
  | .node a => .node (fold f a)
termination_by structural o => o

def foldItem (f : Option Fields → Form β → β) : Item Action → Item β
  | .literal v => .literal v
  | .node a => .node (fold f a)
termination_by structural i => i

def foldItems (f : Option Fields → Form β → β) : List (String × Item Action) → List (String × Item β)
  | [] => []
  | (name, item) :: rest => (name, foldItem f item) :: foldItems f rest
termination_by structural is => is

end

variable (f : Option Fields → Form β → β)

theorem foldAll_eq_map (as : List Action) : foldAll f as = as.map (fold f) := by
  induction as with
  | nil => rfl
  | cons a rest ih => rw [foldAll, ih, List.map_cons]

theorem foldOption_eq_map (a : Option Action) : foldOption f a = a.map (fold f) := by
  cases a <;> rfl

theorem foldOperand_eq_map (o : Operand Action) : foldOperand f o = o.map (fold f) := by
  cases o <;> rfl

theorem foldItem_eq_map (i : Item Action) : foldItem f i = i.map (fold f) := by
  cases i <;> rfl

theorem foldItems_eq_map (is : List (String × Item Action)) :
    foldItems f is = is.map fun entry => (entry.1, entry.2.map (fold f)) := by
  induction is with
  | nil => rfl
  | cons entry rest ih =>
    obtain ⟨name, item⟩ := entry
    rw [foldItems, ih, foldItem_eq_map, List.map_cons]

theorem foldForm_eq_map (form : Form Action) : foldForm f form = form.map (fold f) := by
  cases form <;>
    simp only [foldForm, Form.map, foldAll_eq_map, foldOption_eq_map, foldOperand_eq_map,
      foldItems_eq_map]

theorem fold_node (written : Option Fields) (form : Form Action) :
    fold f (.node written form) = f written (form.map (fold f)) := by
  rw [fold, foldForm_eq_map]

end Action

end Pagescript
