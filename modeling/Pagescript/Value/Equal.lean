import Pagescript.Value.Basic
/-!
# Equality of values

Numbers are compared as numbers, so that `1`, `1.0` and true are equal; a list differs from a tuple;
two mappings are equal if they bind the same keys to equal values, in whatever order.
-/

namespace Pagescript.Value

/-- The number a value stands for, if it is one. -/
inductive Numeric where
  | whole (i : Int)
  | real (x : Binary64)

def numeric? : Value → Option Numeric
  | .bool b => some (.whole b.toInt)
  | .int i => some (.whole i)
  | .float x => some (.real x)
  | _ => none

def Numeric.same : Numeric → Numeric → Bool
  | .whole i, .whole j => i = j
  | .whole i, .real y => y.isInt i
  | .real x, .whole j => x.isInt j
  | .real x, .real y => x.same y

/-- The days from the beginning of March of the year zero to a date. -/
def dayNumber (d : Date) : Int :=
  let y : Int := if d.month ≤ 2 then d.year - 1 else d.year
  let m : Int := if d.month ≤ 2 then d.month + 9 else d.month - 3
  365 * y + y / 4 - y / 100 + y / 400 + (153 * m + 2) / 5 + d.day

/-- The microseconds from a fixed instant to a moment, `offset` minutes east of Greenwich. -/
def instant (d : Date) (t : TimeOfDay) (offset : Int) : Int :=
  ((((dayNumber d * 24 + t.hour) * 60 + t.minute - offset) * 60) + t.second) * 1000000 + t.micro

mutual

def same : Value → Value → Bool
  | .null, .null => true
  | .text s, .text t => s = t
  | .bytes a, .bytes b => a = b
  | .date a, .date b => a = b
  | .time a, .time b => a = b
  | .moment d t (some o), .moment d' t' (some o') => instant d t o = instant d' t' o'
  | .moment d t none, .moment d' t' none => d = d' && t = t'
  | .list xs, .list ys => sameAll xs ys
  | .tuple xs, .tuple ys => sameAll xs ys
  | .mapping xs, .mapping ys => xs.length = ys.length && sameFields xs ys
  | x, y =>
    match x.numeric?, y.numeric? with
    | some a, some b => a.same b
    | _, _ => false
termination_by structural v => v

def sameAll : List Value → List Value → Bool
  | [], [] => true
  | x :: xs, y :: ys => x.same y && sameAll xs ys
  | _, _ => false
termination_by structural vs => vs

/-- Whether every entry of the first mapping has an equal one in the second. -/
def sameFields : List (String × Value) → Fields → Bool
  | [], _ => true
  | (key, x) :: rest, ys =>
    (match Entries.get? ys key with
      | some y => x.same y
      | none => false) && sameFields rest ys
termination_by structural fs => fs

end

end Pagescript.Value
