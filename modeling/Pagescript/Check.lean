import Pagescript.Issue
/-!
# Checks

The reading of a part of a document.  A check that fails lists all that is wrong, in order, so checks
are combined by carrying out both and joining what they find.
-/

namespace Pagescript

inductive Check (α : Type) where
  | valid (a : α)
  | invalid (issues : List Issue)

namespace Check

variable {α β : Type}

def map (f : α → β) : Check α → Check β
  | valid a => valid (f a)
  | invalid issues => invalid issues

def seq : Check (α → β) → (Unit → Check α) → Check β
  | valid f, x => (x ()).map f
  | invalid issues, x =>
    match x () with
    | valid _ => invalid issues
    | invalid more => invalid (issues ++ more)

instance : Applicative Check where
  pure := valid
  map := map
  seq := seq

def fail (complaint : Complaint) : Check α :=
  invalid [.here complaint]

/-- The check of a part, its issues located as seen from the whole. -/
def under (segment : Segment) : Check α → Check α
  | valid a => valid a
  | invalid issues => invalid (issues.map (Issue.under segment))

end Check

/-- How a value is read as a part of a document. -/
abbrev Reader (α : Type) := Value → Check α

namespace Reader

variable {α : Type}

def text : Reader String
  | .text s => .valid s
  | _ => .fail .notText

def nonemptyText : Reader String
  | .text s => if s.isEmpty then .fail .emptyText else .valid s
  | _ => .fail .notText

/-- A sigil and a name of at least one character that is not a line feed; the name is what is read. -/
def referenceText : Reader String
  | .text s =>
    match s.toList with
    | '$' :: c :: rest => if c = '\n' then .fail .notReference else .valid (String.ofList (c :: rest))
    | _ => .fail .notReference
  | _ => .fail .notText

/-- A text that has to be the given one. -/
def literal (expected : String) : Reader Unit
  | .text s => if s = expected then .valid () else .fail (.notLiteral expected)
  | _ => .fail (.notLiteral expected)

/-- A number that is not below zero. -/
def notBelowZero : Option Binary64 → Check Binary64
  | some x => if Binary64.zero.le x then .valid x else .fail .belowZero
  | none => .fail .notNumber

def duration : Reader Binary64
  | .int i => notBelowZero (Binary64.ofInt? i)
  | .float x => notBelowZero (some x)
  | _ => .fail .notNumber

def flagWords : List (String × Bool) :=
  [("0", false), ("off", false), ("f", false), ("false", false), ("n", false), ("no", false),
    ("1", true), ("on", true), ("t", true), ("true", true), ("y", true), ("yes", true)]

def numberFlag (i : Int) : Check Bool :=
  if i = 0 then .valid false
  else if i = 1 then .valid true
  else .fail .unreadableFlag

/-- A flag, or the number or word that stands for one.  Only the integers of a signed word of 64 bits
are looked at, and only the whole floats strictly inside that range. -/
def flag : Reader Bool
  | .bool b => .valid b
  | .int i => if -(Int.pow 2 63) ≤ i && i < Int.pow 2 63 then numberFlag i else .fail .notFlag
  | .float (.finite negative units) =>
    let i := Binary64.truncate negative units
    if Binary64.isWhole units && i.natAbs < Nat.pow 2 63 then numberFlag i else .fail .notFlag
  | .text s =>
    match flagWords.lookup s.toLower with
    | some b => .valid b
    | none => .fail .unreadableFlag
  | _ => .fail .notFlag

def nullable (reader : Reader α) : Reader (Option α)
  | .null => .valid none
  | v => (reader v).map some

/-- Every item of a list, located by its position from `start` on. -/
def items (reader : Reader α) (start : Nat) : List Value → Check (List α)
  | [] => .valid []
  | v :: rest => List.cons <$> (reader v).under (.index start) <*> items reader (start + 1) rest

def listOf (form : Notation) (reader : Reader α) : Reader (List α)
  | .list xs => items reader 0 xs
  | _ => .fail (.notList form)

/-- Every entry of a mapping, located by its name. -/
def entries (reader : Reader α) : Fields → Check (List (String × α))
  | [] => .valid []
  | (key, v) :: rest =>
    List.cons <$> ((reader v).under (.key key)).map (key, ·) <*> entries reader rest

/-- A mapping; of two entries with one name the later counts, but both are read. -/
def mappingOf (form : Notation) (reader : Reader α) : Reader (Entries α)
  | .mapping fields => (entries reader fields).map Entries.ofList
  | _ => .fail (.notMapping form)

def required (fields : Fields) (key : String) (reader : Reader α) : Check α :=
  (match Entries.get? fields key with
    | some v => reader v
    | none => .fail .missing).under (.key key)

def withDefault (fields : Fields) (key : String) (default : α) (reader : Reader α) : Check α :=
  match Entries.get? fields key with
  | some v => (reader v).under (.key key)
  | none => .valid default

/-- No field other than those known. -/
def onlyFields (fields : Fields) (known : List String) : Check Unit :=
  match fields.filter (fun entry => !known.contains entry.1) with
  | [] => .valid ()
  | extra => .invalid (extra.map fun entry => ⟨.unexpected, [.key entry.1]⟩)

end Reader

end Pagescript
