import Pagescript.Entries
import Pagescript.Number.Decimal
import Pagescript.Text.Quoted
/-!
# Values

The values a program computes with: what a JSON document can hold, and what a page or a
configuration file can add to it.  A mapping keeps its entries in the order they were written.
-/

namespace Pagescript

structure Date where
  year : Nat
  month : Nat
  day : Nat
  deriving DecidableEq, Repr, Inhabited

structure TimeOfDay where
  hour : Nat
  minute : Nat
  second : Nat
  micro : Nat
  deriving DecidableEq, Repr, Inhabited

inductive Value where
  | null
  | bool (b : Bool)
  | int (i : Int)
  | float (x : Binary64)
  | text (s : String)
  | bytes (bs : List UInt8)
  | date (d : Date)
  | time (t : TimeOfDay)
  /-- A date and time of day, with the minutes east of Greenwich if they are known. -/
  | moment (d : Date) (t : TimeOfDay) (offset : Option Int)
  | list (xs : List Value)
  | tuple (xs : List Value)
  | mapping (fields : List (String × Value))
  /-- A thing of which only its literal is known. -/
  | foreign (shown : String)
  deriving Repr, Inhabited

/-- The entries of a mapping, in order. -/
abbrev Fields := Entries Value

namespace Value

/-- The word for the kind of value in a message. -/
def typeName : Value → String
  | .null => "NoneType"
  | .bool _ => "bool"
  | .int _ => "int"
  | .float _ => "float"
  | .text _ => "str"
  | .bytes _ => "bytes"
  | .date _ => "date"
  | .time _ => "time"
  | .moment .. => "datetime"
  | .list _ => "list"
  | .tuple _ => "tuple"
  | .mapping _ => "dict"
  | .foreign _ => "object"

/-- The word for the kind of value with the family it belongs to. -/
def fullTypeName (v : Value) : String :=
  match v with
  | .date _ | .time _ | .moment .. => "datetime." ++ v.typeName
  | v => v.typeName

/-- Whether the value counts as true: zero, nothing and whatever is empty does not. -/
def truthy : Value → Bool
  | .null => false
  | .bool b => b
  | .int i => i ≠ 0
  | .float (.finite _ units) => units ≠ 0
  | .text s => !s.isEmpty
  | .bytes bs => !bs.isEmpty
  | .list xs | .tuple xs => !xs.isEmpty
  | .mapping fields => !fields.isEmpty
  | _ => true

mutual

/-- Whether the value can be written as JSON. -/
def isJson : Value → Bool
  | .bytes _ | .date _ | .time _ | .moment .. | .foreign _ => false
  | .list xs | .tuple xs => allJson xs
  | .mapping fields => allJsonFields fields
  | _ => true
termination_by structural v => v

def allJson : List Value → Bool
  | [] => true
  | v :: rest => v.isJson && allJson rest
termination_by structural vs => vs

def allJsonFields : List (String × Value) → Bool
  | [] => true
  | (_, v) :: rest => v.isJson && allJsonFields rest
termination_by structural fs => fs

end

mutual

/-- Whether every integer in the value is below a bound in size. -/
def fits (bound : Nat) : Value → Bool
  | .int i => i.natAbs < bound
  | .list xs | .tuple xs => allFit bound xs
  | .mapping fields => allFitFields bound fields
  | _ => true
termination_by structural v => v

def allFit (bound : Nat) : List Value → Bool
  | [] => true
  | v :: rest => v.fits bound && allFit bound rest
termination_by structural vs => vs

def allFitFields (bound : Nat) : List (String × Value) → Bool
  | [] => true
  | (_, v) :: rest => v.fits bound && allFitFields bound rest
termination_by structural fs => fs

end

mutual

/-- The value in which every mapping binds a name once, as its last entry says. -/
def settle : Value → Value
  | .list xs => .list (settleAll xs)
  | .tuple xs => .tuple (settleAll xs)
  | .mapping fields => .mapping (Entries.ofList (settleFields fields))
  | v => v
termination_by structural v => v

def settleAll : List Value → List Value
  | [] => []
  | v :: rest => v.settle :: settleAll rest
termination_by structural vs => vs

def settleFields : List (String × Value) → List (String × Value)
  | [] => []
  | (key, v) :: rest => (key, v.settle) :: settleFields rest
termination_by structural fs => fs

end

end Value

end Pagescript
