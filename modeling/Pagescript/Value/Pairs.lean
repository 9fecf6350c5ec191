import Pagescript.Value.Name
/-!
# Bindings from values

Bindings are given by a mapping or by a row of pairs.  Any value that has parts can be the row, and
any value with two parts a pair: a list, a text of two characters, or the names of a mapping.
-/

namespace Pagescript

/-- Why a value does not give bindings. -/
inductive PairError where
  | notIterable (type : String)
  | notSequence (index : Nat)
  | wrongLength (index length : Nat)
  | unhashable (type : String)
  deriving DecidableEq, Repr

namespace PairError

def message : PairError → String
  | notIterable type => "'" ++ type ++ "' object is not iterable"
  | notSequence index =>
    "cannot convert dictionary update sequence element #" ++ toString index ++ " to a sequence"
  | wrongLength index length =>
    "dictionary update sequence element #" ++ toString index ++ " has length " ++ toString length ++
      "; 2 is required"
  | unhashable type => "unhashable type: '" ++ type ++ "'"

end PairError

abbrev Binding := Name × Value

namespace Value

/-- The parts of a value that has any. -/
def parts? : Value → Option (List Value)
  | .list xs | .tuple xs => some xs
  | .text s => some (s.toList.map fun c => .text (String.singleton c))
  | .bytes bs => some (bs.map fun b => .int b.toNat)
  | .mapping fields => some (fields.map fun entry => .text entry.1)
  | _ => none

/-- The binding that a part of a row is. -/
def toBinding (index : Nat) (part : Value) : Except PairError Binding :=
  match part.parts? with
  | some [name, v] => (name.toName.mapError .unhashable).map (·, v)
  | some parts => .error (.wrongLength index parts.length)
  | none => .error (.notSequence index)

/-- The bindings of a row up to the first part that is none, and what is wrong with that one. -/
def bindingsFrom (index : Nat) : List Value → List Binding × Option PairError
  | [] => ([], none)
  | part :: rest =>
    match toBinding index part with
    | .ok binding =>
      let (bindings, e) := bindingsFrom (index + 1) rest
      (binding :: bindings, e)
    | .error e => ([], some e)

/-- The bindings that a value gives, as far as it gives any. -/
def bindings : Value → List Binding × Option PairError
  | .mapping fields => (fields.map fun (key, v) => (.text key, v), none)
  | v =>
    match v.parts? with
    | some parts => bindingsFrom 0 parts
    | none => ([], some (.notIterable v.fullTypeName))

end Value

end Pagescript
