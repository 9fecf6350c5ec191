import Pagescript.Registry
/-!
# Programs

A program names selectors and actions and lists the steps to carry out.
-/

namespace Pagescript

structure Program where
  selectors : Entries String
  actions : Entries Action
  steps : List Action

namespace Program

def empty : Program := ⟨[], [], []⟩

def title : String := "Program"

/-- Reads the entries of a document, which came in some form.  Of repeated names the last counts. -/
def ofFields (registry : Registry) (form : Notation) (fields : Fields) : Check Program :=
  let settled := Entries.ofList fields
  Program.mk <$> Reader.withDefault settled "selectors" [] (Reader.mappingOf form Reader.text) <*>
    Reader.withDefault settled "actions" []
      (Reader.mappingOf form fun v => registry.node v.settle) <*>
    Reader.withDefault settled "steps" [] (Reader.listOf form fun v => registry.node v.settle) <*
    Reader.onlyFields settled ["selectors", "actions", "steps"]

def ofValue (registry : Registry) (form : Notation) : Value → Check Program
  | .mapping fields => ofFields registry form fields
  | _ => .fail (.notInstance form title)

end Program

inductive Reference where
  | selector (name : String) (text : String)
  | action (name : String) (target : Action)
  | literal (name : String) (text : String)

/-- The name a reference is written with, or nothing if the text is no reference. -/
def referenced? (s : String) : Option String :=
  match s.toList with
  | '$' :: name => some (String.ofList name)
  | _ => none

namespace Program

/-- The selector that an expression stands for: itself, or what its name is bound to. -/
def selector? (program : Program) (expression : String) : Option String :=
  match referenced? expression with
  | none => some expression
  | some name => Entries.get? program.selectors name

/-- The action under a name, which may be written with a sigil. -/
def action? (program : Program) (name : String) : Option Action :=
  Entries.get? program.actions ((referenced? name).getD name)

/-- What a text stands for as an item of a store action: a selector before an action. -/
def resolve (program : Program) (text : String) : Reference :=
  match referenced? text with
  | none => .literal text text
  | some name =>
    match Entries.get? program.selectors name, Entries.get? program.actions name with
    | some selector, _ => .selector name selector
    | none, some target => .action name target
    | none, none => .literal name text

end Program

end Pagescript
