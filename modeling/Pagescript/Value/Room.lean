import Pagescript.Number.Numeral
import Pagescript.Value.Basic
/-!
# Room for values

A value is written part by part.  What stands in another part takes more room, of which there is only
so much, and an integer with too many digits is not written at all.
-/

namespace Pagescript

/-- What is about to be done when there is no room left. -/
inductive WriteTask where
  /-- A container is to be written as JSON. -/
  | encode
  /-- A value that JSON has no form for is to be written in another way. -/
  | handOver
  /-- A literal is to be spelled out. -/
  | spell
  deriving DecidableEq, Repr

/-- Why a value is not written. -/
inductive WriteError where
  | tooDeep (task : WriteTask)
  | tooManyDigits
  /-- JSON has no form for a value of this type. -/
  | noForm (type : String)
  deriving DecidableEq, Repr

def WriteTask.phrase : WriteTask → String
  | encode => " while encoding a JSON object"
  | handOver => ""
  | spell => " while getting the repr of an object"

def WriteError.message : WriteError → String
  | tooDeep task => "maximum recursion depth exceeded" ++ task.phrase
  | tooManyDigits => Numeral.digitLimit ++ Numeral.digitAdvice
  | noForm type => "Object of type " ++ type ++ " is not JSON serializable"

/-- How much room there usually is for the values in a report. -/
def usualRoom : Nat := 977

/-- The complaint that more room is needed than there is. -/
def shortage? (task : WriteTask) (room needed : Nat) : Option WriteError :=
  if room < needed then some (.tooDeep task) else none

namespace Value

/-- The complaint that an integer has too many digits. -/
def digitHindrance? (i : Int) : Option WriteError :=
  if i.natAbs < Numeral.bound then none else some .tooManyDigits

/-- How much room the zone of a moment takes. -/
def zoneRoom : Option Int → Nat
  | none => 0
  | some minutes => if minutes = 0 then 1 else 2

mutual

/-- What keeps the literal of a value from being spelled out, and comes first in it.  Every part takes
room, whether or not it is a container. -/
def literalHindrance? (room : Nat) : Value → Option WriteError
  | .int i => (shortage? .spell room 1).or (digitHindrance? i)
  | .moment _ _ offset => shortage? .spell room (1 + zoneRoom offset)
  | .list xs | .tuple xs => (shortage? .spell room 1).or (literalsHindrance? (room - 1) xs)
  | .mapping fields => (shortage? .spell room 1).or (literalFieldsHindrance? (room - 1) fields)
  | _ => shortage? .spell room 1
termination_by structural v => v

def literalsHindrance? (room : Nat) : List Value → Option WriteError
  | [] => none
  | v :: rest => (v.literalHindrance? room).or (literalsHindrance? room rest)
termination_by structural vs => vs

def literalFieldsHindrance? (room : Nat) : List (String × Value) → Option WriteError
  | [] => none
  | (_, v) :: rest => (v.literalHindrance? room).or (literalFieldsHindrance? room rest)
termination_by structural fs => fs

end

end Value

end Pagescript
