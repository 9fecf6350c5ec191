import Pagescript.Toml.Scalar
import Pagescript.Toml.Table
/-!
# TOML documents

A document is a row of headings and of keys bound to values.
-/

namespace Pagescript.Toml

/-- The rest of the line after a comment, if there is one. -/
def skipComment (cs : List Char) : Option (List Char) :=
  match cs with
  | '#' :: rest =>
    if (rest.takeWhile (· ≠ '\n')).any isControl then none else some (rest.dropWhile (· ≠ '\n'))
  | cs => some cs

def skipLines : Nat → List Char → Option (List Char)
  | 0, cs => some cs
  | fuel + 1, cs =>
    match cs.dropWhile fun c => isSpace c || c = '\n' with
    | '#' :: rest => do skipLines fuel (← skipComment ('#' :: rest))
    | rest => some rest

def skipAll (cs : List Char) : Option (List Char) :=
  skipLines (cs.length + 1) cs

def isBare (c : Char) : Bool :=
  c.isAlphanum || c = '-' || c = '_'

def keyPart (cs : List Char) : Option (String × List Char) :=
  match cs with
  | '"' :: rest => basicString false (rest.length + 1) [] rest
  | c :: rest =>
    if c = quoteChar then literalString rest
    else if isBare c then some (String.ofList (cs.takeWhile isBare), cs.dropWhile isBare)
    else none
  | [] => none

/-- A key, its parts divided by points. -/
def key : Nat → List Char → Option (List String × List Char)
  | 0, _ => none
  | fuel + 1, cs => do
    let (part, rest) ← keyPart cs
    match skipSpace rest with
    | '.' :: rest => do
      let (parts, rest) ← key fuel (skipSpace rest)
      return (part :: parts, rest)
    | rest => return ([part], rest)

def maxNesting : Nat := 980

def arrayNesting : Nat := 2

def tableNesting : Nat := 3

def enter (taken room : Nat) : Except Error Nat :=
  if room < taken then .error .tooDeep else .ok (room - taken)

mutual

/-- A value, with nesting left for those inside of it. -/
def value (fuel room : Nat) (cs : List Char) : Except Error (Value × List Char) :=
  match fuel with
  | 0 => .error .malformed
  | fuel + 1 =>
    match cs with
    | [] => .error .malformed
    | '[' :: rest => do
      let room ← enter arrayNesting room
      match ← orMalformed (skipAll rest) with
      | ']' :: rest => return (.list [], rest)
      | rest => items fuel room [] rest
    | '\x7b' :: rest => do
      let room ← enter tableNesting room
      match skipSpace rest with
      | '\x7d' :: rest => return (.mapping [], rest)
      | rest => inlineTable fuel room [] rest
    | 't' :: 'r' :: 'u' :: 'e' :: rest => .ok (.bool true, rest)
    | 'f' :: 'a' :: 'l' :: 's' :: 'e' :: rest => .ok (.bool false, rest)
    | c :: rest =>
      if c = '"' || c = quoteChar then do
        let (s, rest) ← orMalformed (string? (c :: rest))
        return (.text s, rest)
      else quantity (c :: rest)

/-- The items of an array, which may end with a comma. -/
def items (fuel room : Nat) (acc : List Value) (cs : List Char) :
    Except Error (Value × List Char) :=
  match fuel with
  | 0 => .error .malformed
  | fuel + 1 => do
    let (v, rest) ← value fuel room cs
    match ← orMalformed (skipAll rest) with
    | ']' :: rest => return (.list (v :: acc).reverse, rest)
    | ',' :: rest =>
      match ← orMalformed (skipAll rest) with
      | ']' :: rest => return (.list (v :: acc).reverse, rest)
      | rest => items fuel room (v :: acc) rest
    | _ => .error .malformed

def binding (fuel room : Nat) (cs : List Char) :
    Except Error ((List String × Value) × List Char) :=
  match fuel with
  | 0 => .error .malformed
  | fuel + 1 => do
    let (path, rest) ← orMalformed (key (cs.length + 1) cs)
    let (v, rest) ← value fuel room (skipSpace (← orMalformed (expect '=' rest)))
    return ((path, v), rest)

def inlineTable (fuel room : Nat) (acc : Entries Node) (cs : List Char) :
    Except Error (Value × List Char) :=
  match fuel with
  | 0 => .error .malformed
  | fuel + 1 => do
    let ((path, v), rest) ← binding fuel room cs
    let acc ← orMalformed (assign 0 v path acc)
    match skipSpace rest with
    | '\x7d' :: rest => return (.mapping (entriesToFields acc), rest)
    | ',' :: rest => inlineTable fuel room acc (skipSpace rest)
    | _ => .error .malformed

end

/-- What has been read of a document: its tables, the heading in force, and how many came before. -/
structure State where
  tables : Entries Node := []
  heading : List String := []
  part : Nat := 0

/-- A heading without its brackets, which have to be closed by `close`. -/
def heading (change : String → Entries Node → Option (Entries Node)) (close : List Char)
    (state : State) (cs : List Char) : Option (State × List Char) := do
  let cs := skipSpace cs
  let (path, rest) ← key (cs.length + 1) cs
  let last ← path.getLast?
  let tables ← along (change last) path.dropLast state.tables
  return ({ tables, heading := path, part := state.part + 1 }, ← Json.after? close rest)

def statement (state : State) (cs : List Char) : Except Error (State × List Char) := do
  let ((path, v), rest) ← binding (2 * cs.length + 2) maxNesting cs
  let tables ← orMalformed (along (assign state.part v path) state.heading state.tables)
  return ({ state with tables }, rest)

def lineEnd (cs : List Char) : Except Error (List Char) := do
  match ← orMalformed (skipComment (skipSpace cs)) with
  | [] => return []
  | '\n' :: rest => return rest
  | _ => .error .malformed

def run : Nat → State → List Char → Except Error State
  | 0, _, _ => .error .malformed
  | fuel + 1, state, cs =>
    match skipSpace cs with
    | [] => .ok state
    | '\n' :: rest => run fuel state rest
    | '#' :: rest => do run fuel state (← lineEnd ('#' :: rest))
    | '[' :: '[' :: rest => do
      let (state, rest) ← orMalformed (heading extend [']', ']'] state rest)
      run fuel state (← lineEnd rest)
    | '[' :: rest => do
      let (state, rest) ← orMalformed (heading declare [']'] state rest)
      run fuel state (← lineEnd rest)
    | cs => do
      let (state, rest) ← statement state cs
      run fuel state (← lineEnd rest)

/-- A carriage return before a line feed does not count. -/
def unixLines : List Char → List Char
  | '\r' :: '\n' :: rest => '\n' :: unixLines rest
  | c :: rest => c :: unixLines rest
  | [] => []

def read (s : String) : Except Error Fields := do
  let cs := unixLines s.toList
  let state ← run (cs.length + 1) {} cs
  return entriesToFields state.tables

end Pagescript.Toml
