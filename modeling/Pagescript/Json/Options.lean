import Pagescript.Json.Writer
import Pagescript.Value.Pairs
/-!
# Layouts by options

The layout of a JSON text, put together from options: what nesting is indented by, what stands
between items and behind names, whether names are sorted, and whether all is written in ASCII.
-/

namespace Pagescript.Json

/-- Why options give no layout. -/
inductive OptionError where
  /-- What nesting is to be indented by is neither a text nor a number of blanks. -/
  | badIndent (type : String)
  /-- The number of blanks is out of all bounds. -/
  | hugeIndent
  /-- The separators have no parts. -/
  | noParts (type : String)
  | tooFewSeparators (count : Nat)
  | tooManySeparators
  deriving DecidableEq, Repr

def OptionError.message : OptionError → String
  | badIndent type => "can't multiply sequence by non-int of type '" ++ type ++ "'"
  | hugeIndent => "cannot fit 'int' into an index-sized integer"
  | noParts type => "cannot unpack non-iterable " ++ type ++ " object"
  | tooFewSeparators count =>
    "not enough values to unpack (expected 2, got " ++ toString count ++ ")"
  | tooManySeparators => "too many values to unpack (expected 2)"

namespace Style

/-- A row of blanks, of a length that fits into 64 bits. -/
def blanks (n : Int) : Except OptionError String :=
  if -(Int.pow 2 63) ≤ n && n < Int.pow 2 63 then .ok (String.ofList (List.replicate n.toNat ' '))
  else .error .hugeIndent

def indentOf : Value → Except OptionError (Option String)
  | .null => .ok none
  | .text s => .ok (some s)
  | .int n => (blanks n).map some
  | .bool b => (blanks b.toInt).map some
  | v => .error (.badIndent v.fullTypeName)

/-- The separators of items and of names; no blank ends a line. -/
def usualSeparators (onLines : Bool) : String × String :=
  (if onLines then "," else ", ", ": ")

def separatorsOf (onLines : Bool) : Value → Except OptionError (String × String)
  | .null => .ok (usualSeparators onLines)
  | v =>
    match v.parts? with
    | some [item, key] => .ok (item.plain, key.plain)
    | some (_ :: _ :: _) => .error .tooManySeparators
    | some parts => .error (.tooFewSeparators parts.length)
    | none => .error (.noParts v.fullTypeName)

/-- The layout for some options.  The separators are looked at first. -/
def ofFields (options : Fields) : Except OptionError Style := do
  let option (name : String) : Value := (Entries.get? options name).getD .null
  let onLines := match option "indent" with
    | .null => false
    | _ => true
  let (item, key) ← separatorsOf onLines (option "separators")
  return ⟨← indentOf (option "indent"), item, key, (option "ensure_ascii").truthy,
    (option "sort_keys").truthy, true⟩

end Style

end Pagescript.Json
