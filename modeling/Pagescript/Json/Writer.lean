import Pagescript.Value.Literal
import Pagescript.Value.Room
/-!
# Values as JSON text

Not-a-number and the infinities are written by name, a tuple as an array, and a value that JSON has
no form for as the text of its literal, if it is written at all.
-/

namespace Pagescript.Json

/-- How a value is laid out as text. -/
structure Style where
  /-- What each level of nesting is indented by; without it all stands on one line. -/
  indent : Option String
  itemSeparator : String
  keySeparator : String
  /-- Write characters outside ASCII by number. -/
  ascii : Bool
  /-- Write the entries of a mapping in the order of their names. -/
  sorted : Bool
  /-- Write what JSON has no form for by its literal. -/
  literals : Bool

/-- One line, a blank after each separator, characters as they are. -/
def Style.line : Style := ⟨none, ", ", ": ", false, false, true⟩

/-- One line in ASCII, for what has a form in JSON. -/
def Style.strict : Style := ⟨none, ", ", ": ", true, false, false⟩

def number : NumberFormat := { NumberFormat.plain with nan := "NaN", infinity := "Infinity" }

def unitEscape (unit : Nat) : List Char :=
  '\\' :: 'u' :: Text.hex 4 unit

/-- A character by its one or two sixteen-bit units. -/
def numberEscape (code : Nat) : List Char :=
  if code < 0x10000 then unitEscape code
  else unitEscape (0xd800 + (code - 0x10000) / 0x400) ++ unitEscape (0xdc00 + (code - 0x10000) % 0x400)

def escapeChar (ascii : Bool) (c : Char) : List Char :=
  if c = '"' || c = '\\' then ['\\', c]
  else if c = '\n' then ['\\', 'n']
  else if c = '\r' then ['\\', 'r']
  else if c = '\t' then ['\\', 't']
  else if c.toNat = 8 then ['\\', 'b']
  else if c.toNat = 12 then ['\\', 'f']
  else if c.toNat < 0x20 || (ascii && 0x7e < c.toNat) then numberEscape c.toNat
  else [c]

def string (ascii : Bool) (s : String) : String :=
  String.ofList ('"' :: s.toList.flatMap (escapeChar ascii) ++ ['"'])

/-- What stands between two items at a level of nesting, and around all of them. -/
def Style.enclose (style : Style) (level : Nat) (left right : String) (items : List String) : String :=
  match style.indent, items with
  | _, [] => left ++ right
  | none, items => left ++ style.itemSeparator.intercalate items ++ right
  | some indent, items =>
    let newline (n : Nat) := "\n" ++ String.join (List.replicate n indent)
    left ++ newline (level + 1) ++ (style.itemSeparator ++ newline (level + 1)).intercalate items ++
      newline level ++ right

def Style.entry (style : Style) (key text : String) : String :=
  string style.ascii key ++ style.keySeparator ++ text

/-- Entries in the order the style asks for. -/
def Style.order {α : Type} (style : Style) (entries : List (String × α)) : List (String × α) :=
  if style.sorted then entries.mergeSort (fun a b => a.1 ≤ b.1) else entries

def Style.arrange (style : Style) (entries : List (String × String)) : List String :=
  (style.order entries).map fun (key, text) => style.entry key text

mutual

def render (style : Style) (level : Nat) : Value → String
  | .null => "null"
  | .bool true => "true"
  | .bool false => "false"
  | .int i => toString i
  | .float x => number.write x
  | .text s => string style.ascii s
  | .list xs => style.enclose level "[" "]" (renderAll style (level + 1) xs)
  | .tuple xs => style.enclose level "[" "]" (renderAll style (level + 1) xs)
  | .mapping fields =>
    style.enclose level "\x7b" "\x7d" (style.arrange (renderFields style (level + 1) fields))
  | v => string style.ascii v.literal
termination_by structural v => v

def renderAll (style : Style) (level : Nat) : List Value → List String
  | [] => []
  | v :: rest => render style level v :: renderAll style level rest
termination_by structural vs => vs

def renderFields (style : Style) (level : Nat) : List (String × Value) → List (String × String)
  | [] => []
  | (key, v) :: rest => (key, render style level v) :: renderFields style level rest
termination_by structural fs => fs

end

/-- What keeps a value that JSON has no form for from being written. -/
def Style.foreignHindrance? (style : Style) (room : Nat) (v : Value) : Option WriteError :=
  if style.literals then (shortage? .handOver room 1).or (v.literalHindrance? (room - 1))
  else (shortage? .handOver room 2).or (some (.noForm v.typeName))

mutual

/-- What keeps a value from being written, and comes first in it. -/
def hindrance? (style : Style) (room : Nat) : Value → Option WriteError
  | .null | .bool _ | .float _ | .text _ => none
  | .int i => Value.digitHindrance? i
  | .list xs | .tuple xs => (shortage? .encode room 1).or (hindranceAll? style (room - 1) xs)
  | .mapping fields =>
    (shortage? .encode room 1).or
      ((style.order (hindrances style (room - 1) fields)).findSome? (·.2))
  | v => style.foreignHindrance? room v
termination_by structural v => v

def hindranceAll? (style : Style) (room : Nat) : List Value → Option WriteError
  | [] => none
  | v :: rest => (hindrance? style room v).or (hindranceAll? style room rest)
termination_by structural vs => vs

def hindrances (style : Style) (room : Nat) :
    List (String × Value) → List (String × Option WriteError)
  | [] => []
  | (key, v) :: rest => (key, hindrance? style room v) :: hindrances style room rest
termination_by structural fs => fs

end

/-- A value as JSON text, if nothing keeps it from being written. -/
def write (style : Style) (room : Nat) (v : Value) : Except WriteError String :=
  match hindrance? style room v with
  | some e => .error e
  | none => .ok (render style 0 v)

end Pagescript.Json
