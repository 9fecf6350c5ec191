/-!
# Binary floating point, 64 bits

Every finite number of the format is a whole count of the smallest step `2 ^ (-1074)`, so a number
is a sign and such a count.  An operation is carried out on the counts exactly and then rounded once,
to 53 significant bits, a tie going to the even neighbour.
-/

namespace Pagescript

inductive Binary64 where
  | nan
  | infinite (negative : Bool)
  /-- The number `± units * 2 ^ (-1074)`. -/
  | finite (negative : Bool) (units : Nat)
  deriving DecidableEq, Repr, Inhabited

namespace Binary64

/-- How many steps make up the number one. -/
def one : Nat := Nat.pow 2 1074

/-- The first count of steps that is too large for a finite number. -/
def limit : Nat := Nat.pow 2 2098

/-- The whole number nearest to `p / q`; a tie goes to the even one. -/
def roundDiv (p q : Nat) : Nat :=
  let below := p / q
  let rest := p % q
  if 2 * rest < q then below
  else if q < 2 * rest then below + 1
  else if below % 2 = 0 then below
  else below + 1

/-- The count of steps nearest to `p / q` that has at most 53 significant bits. -/
def roundSteps (p q : Nat) : Nat :=
  let grain := Nat.pow 2 ((p / q).log2 + 1 - 53)
  roundDiv p (q * grain) * grain

/-- The number nearest to `± p / q` steps. -/
def ofSteps (negative : Bool) (p q : Nat) : Binary64 :=
  let units := roundSteps p q
  if units < limit then .finite negative units else .infinite negative

def zero : Binary64 := .finite false 0

def ofInt (i : Int) : Binary64 :=
  ofSteps (i < 0) (i.natAbs * one) 1

/-- The number itself, unless it is infinite. -/
def bounded? : Binary64 → Option Binary64
  | .infinite _ => none
  | x => some x

/-- The number nearest to an integer, unless the integer is beyond the finite range. -/
def ofInt? (i : Int) : Option Binary64 :=
  (ofInt i).bounded?

/-- The number nearest to `± digits * 10 ^ exponent`.  Exponents that decide the result by
themselves are not multiplied out. -/
def ofDecimal (negative : Bool) (digits : Nat) (exponent : Int) : Binary64 :=
  if digits = 0 then .finite negative 0
  else
    let magnitude := ((Nat.toDigits 10 digits).length : Int) + exponent
    if 400 < magnitude then .infinite negative
    else if magnitude < -400 then .finite negative 0
    else if 0 ≤ exponent then ofSteps negative (digits * Nat.pow 10 exponent.toNat * one) 1
    else ofSteps negative (digits * one) (Nat.pow 10 (-exponent).toNat)

/-- The signed count of steps of a finite number. -/
def signed (negative : Bool) (units : Nat) : Int :=
  if negative then -(units : Int) else units

def isNan : Binary64 → Bool
  | .nan => true
  | _ => false

def isFinite : Binary64 → Bool
  | .finite .. => true
  | _ => false

def neg : Binary64 → Binary64
  | .nan => .nan
  | .infinite negative => .infinite !negative
  | .finite negative units => .finite (!negative) units

def add : Binary64 → Binary64 → Binary64
  | .finite s a, .finite t b =>
      let sum := signed s a + signed t b
      if sum = 0 then .finite (s && t) 0 else ofSteps (sum < 0) sum.natAbs 1
  | .infinite s, .infinite t => if s = t then .infinite s else .nan
  | .infinite s, .finite _ _ => .infinite s
  | .finite _ _, .infinite t => .infinite t
  | _, _ => .nan

def sub (x y : Binary64) : Binary64 :=
  x.add y.neg

def mul : Binary64 → Binary64 → Binary64
  | .finite s a, .finite t b => ofSteps (s != t) (a * b) one
  | .infinite s, .infinite t => .infinite (s != t)
  | .infinite s, .finite t b => if b = 0 then .nan else .infinite (s != t)
  | .finite s a, .infinite t => if a = 0 then .nan else .infinite (s != t)
  | _, _ => .nan

def div : Binary64 → Binary64 → Binary64
  | .finite s a, .finite t b =>
      if b = 0 then (if a = 0 then .nan else .infinite (s != t))
      else ofSteps (s != t) (a * one) b
  | .infinite s, .finite t _ => .infinite (s != t)
  | .finite s _, .infinite t => .finite (s != t) 0
  | _, _ => .nan

def lt : Binary64 → Binary64 → Bool
  | .finite s a, .finite t b => signed s a < signed t b
  | .infinite s, .infinite t => s && !t
  | .infinite s, .finite _ _ => s
  | .finite _ _, .infinite t => !t
  | _, _ => false

/-- Equality of numbers: the two zeros are equal, and not-a-number equals nothing. -/
def same : Binary64 → Binary64 → Bool
  | .finite s a, .finite t b => signed s a = signed t b
  | .infinite s, .infinite t => s = t
  | _, _ => false

def le (x y : Binary64) : Bool :=
  x.lt y || x.same y

def min (x y : Binary64) : Binary64 :=
  if y.lt x then y else x

def max (x y : Binary64) : Binary64 :=
  if x.lt y then y else x

/-- Whether the number is exactly the integer `i`. -/
def isInt (x : Binary64) (i : Int) : Bool :=
  match x with
  | .finite negative units => signed negative units = i * one
  | _ => false

/-- Whether the number is below the integer `i`. -/
def ltInt (x : Binary64) (i : Int) : Bool :=
  match x with
  | .finite negative units => signed negative units < i * one
  | .infinite negative => negative
  | .nan => false

/-- The integer part of a finite number. -/
def truncate (negative : Bool) (units : Nat) : Int :=
  signed negative (units / one)

/-- Whether a finite number has no fractional part. -/
def isWhole (units : Nat) : Bool :=
  units % one = 0

/-- The integer nearest to a finite number; a tie goes to the even one. -/
def round : Binary64 → Int
  | .finite negative units => signed negative (roundDiv units one)
  | _ => 0

end Binary64

end Pagescript
