import Pagescript.Value.Basic
/-!
# Tables of a TOML document

A document builds up a tree of tables.  A table can be declared once; one that came about as part of
a dotted key can be added to in the section of that key only; a value is never added to.
-/

namespace Pagescript.Toml

/-- How a table came about. -/
inductive Origin where
  /-- As part of the name of another table. -/
  | implied
  /-- As part of a dotted key in some section. -/
  | dotted (part : Nat)
  /-- By a heading of its own. -/
  | declared
  deriving DecidableEq, Repr

inductive Node where
  | leaf (v : Value)
  | table (origin : Origin) (entries : List (String × Node))
  /-- An array of tables; the last one is the one that is added to. -/
  | tables (earlier : List (List (String × Node))) (last : List (String × Node))

def through (name : String) (change : Entries Node → Option (Entries Node)) (entries : Entries Node) :
    Option (Entries Node) :=
  match Entries.get? entries name with
  | none => (change []).map fun sub => Entries.insert entries name (.table .implied sub)
  | some (.table origin sub) =>
    (change sub).map fun sub => Entries.insert entries name (.table origin sub)
  | some (.tables earlier last) =>
    (change last).map fun last => Entries.insert entries name (.tables earlier last)
  | some (.leaf _) => none

/-- Changes the table at the end of a path. -/
def along (change : Entries Node → Option (Entries Node)) : List String → Entries Node →
    Option (Entries Node)
  | [], entries => change entries
  | name :: rest, entries => through name (along change rest) entries

def declare (name : String) (entries : Entries Node) : Option (Entries Node) :=
  match Entries.get? entries name with
  | none => some (Entries.insert entries name (.table .declared []))
  | some (.table .implied sub) => some (Entries.insert entries name (.table .declared sub))
  | _ => none

/-- Begins the next table of an array of tables. -/
def extend (name : String) (entries : Entries Node) : Option (Entries Node) :=
  match Entries.get? entries name with
  | none => some (Entries.insert entries name (.tables [] []))
  | some (.tables earlier last) => some (Entries.insert entries name (.tables (earlier ++ [last]) []))
  | _ => none

def assign (part : Nat) (v : Value) : List String → Entries Node → Option (Entries Node)
  | [], _ => none
  | [name], entries =>
    if Entries.contains entries name then none else some (Entries.insert entries name (.leaf v))
  | name :: rest, entries =>
    let add (sub : Entries Node) := (assign part v rest sub).map fun sub =>
      Entries.insert entries name (.table (.dotted part) sub)
    match Entries.get? entries name with
    | none => add []
    | some (.table .implied sub) => add sub
    | some (.table (.dotted made) sub) => if made = part then add sub else none
    | _ => none

mutual

def Node.toValue : Node → Value
  | .leaf v => v
  | .table _ entries => .mapping (entriesToFields entries)
  | .tables earlier last => .list (tablesToValues earlier ++ [.mapping (entriesToFields last)])
termination_by structural n => n

def entriesToFields : List (String × Node) → List (String × Value)
  | [] => []
  | (name, node) :: rest => (name, node.toValue) :: entriesToFields rest
termination_by structural es => es

def tablesToValues : List (List (String × Node)) → List Value
  | [] => []
  | entries :: rest => .mapping (entriesToFields entries) :: tablesToValues rest
termination_by structural ts => ts

end

end Pagescript.Toml
