import Pagescript.Value.Equal
/-!
# Order of values

Numbers are ordered as numbers, texts and rows of bytes by their first difference, and so are tuples.
Values of different kinds have no order, and not every kind has one.
-/

namespace Pagescript

/-- The kinds of two values that have no order. -/
structure Unordered where
  left : String
  right : String
  deriving DecidableEq, Repr

namespace Value

def Numeric.lt : Numeric → Numeric → Bool
  | .whole i, .whole j => i < j
  | .whole i, .real y => !y.isNan && !y.ltInt i && !y.isInt i
  | .real x, .whole j => x.ltInt j
  | .real x, .real y => x.lt y

def bytesBefore : List UInt8 → List UInt8 → Bool
  | _, [] => false
  | [], _ :: _ => true
  | a :: as, b :: bs => a < b || (a = b && bytesBefore as bs)

mutual

def before : Value → Value → Except Unordered Bool
  | .text s, .text t => .ok (s < t)
  | .bytes a, .bytes b => .ok (bytesBefore a b)
  | .moment d t none, .moment d' t' none => .ok (instant d t 0 < instant d' t' 0)
  | .tuple xs, .tuple ys => beforeAll xs ys
  | x, y =>
    match x.numeric?, y.numeric? with
    | some a, some b => .ok (a.lt b)
    | _, _ => .error ⟨x.fullTypeName, y.fullTypeName⟩
termination_by structural v => v

/-- Rows are ordered by the first items that differ. -/
def beforeAll : List Value → List Value → Except Unordered Bool
  | _, [] => .ok false
  | [], _ :: _ => .ok true
  | x :: xs, y :: ys => if x.same y then beforeAll xs ys else x.before y
termination_by structural vs => vs

end

end Value

end Pagescript
