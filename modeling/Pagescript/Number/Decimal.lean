import Pagescript.Number.Binary64
/-!
# The decimal text of a number

A number is written with the fewest significant digits that read back as the same number, and of
those texts with the one nearest to it.
-/

namespace Pagescript

/-- The positive decimal `digits * 10 ^ exponent`. -/
structure Decimal where
  digits : Nat
  exponent : Int
  deriving DecidableEq, Repr

namespace Decimal

/-- Drops the zeros at the end of the digits; `count` bounds how many are looked at. -/
def trim : Nat → Nat → Int → Decimal
  | 0, digits, exponent => ⟨digits, exponent⟩
  | count + 1, digits, exponent =>
      if digits % 10 = 0 then trim count (digits / 10) (exponent + 1) else ⟨digits, exponent⟩

/-- The power of ten of the first digit of `units` steps. -/
def leading (units : Nat) : Int :=
  ((Nat.toDigits 10 (units * Nat.pow 10 400 / Binary64.one)).length : Int) - 401

/-- `units` steps as a ratio, in multiples of `10 ^ exponent`. -/
def scaled (units : Nat) (exponent : Int) : Nat × Nat :=
  if 0 ≤ exponent then (units, Binary64.one * Nat.pow 10 exponent.toNat)
  else (units * Nat.pow 10 (-exponent).toNat, Binary64.one)

/-- The neighbour of `units` steps on the grid `10 ^ exponent` that reads back as `units` steps, the
nearer one if both do, and the even one if they are equally near. -/
def onGrid (units : Nat) (exponent : Int) : Option Decimal :=
  let (p, q) := scaled units exponent
  let reads (n : Nat) : Bool := Binary64.ofDecimal false n exponent = .finite false units
  let below := p / q
  let nearer := Binary64.roundDiv p q
  let farther := if nearer = below then below + 1 else below
  if reads nearer then some ⟨nearer, exponent⟩
  else if reads farther then some ⟨farther, exponent⟩
  else none

/-- The first grid with at least `count` digits that has a neighbour reading back, among the next
`more` grids; seventeen digits always suffice. -/
def search (units : Nat) (lead : Int) (count : Nat) : Nat → Decimal
  | 0 =>
      let (p, q) := scaled units (lead - 16)
      ⟨Binary64.roundDiv p q, lead - 16⟩
  | more + 1 =>
      match onGrid units (lead - count) with
      | some found => found
      | none => search units lead (count + 1) more

/-- The shortest decimal that reads back as `units` steps, for a positive count. -/
def shortest (units : Nat) : Decimal :=
  let found := search units (leading units) 0 17
  trim 20 found.digits found.exponent

end Decimal

/-- How a number is spelled out from its digits. -/
structure NumberFormat where
  /-- Exponents of the first digit from here on are written positionally. -/
  positionalFrom : Int
  /-- Exponents of the first digit from here on are written with a power of ten. -/
  positionalBelow : Int
  nan : String
  infinity : String

namespace NumberFormat

def zeros (n : Nat) : List Char :=
  List.replicate n '0'

/-- The power of ten, signed and with at least two digits. -/
def power (exponent : Int) : List Char :=
  let size := Nat.toDigits 10 exponent.natAbs
  let padded := if size.length < 2 then '0' :: size else size
  'e' :: (if exponent < 0 then '-' else '+') :: padded

/-- The digits `ds`, the first of which stands for `10 ^ lead`. -/
def positive (format : NumberFormat) (ds : List Char) (lead : Int) : List Char :=
  if format.positionalFrom ≤ lead && lead < format.positionalBelow then
    if lead < 0 then '0' :: '.' :: (zeros (-lead - 1).toNat ++ ds)
    else
      let whole := lead.toNat + 1
      let fraction := ds.drop whole
      ds.take whole ++ zeros (whole - ds.length) ++ '.' :: (if fraction = [] then ['0'] else fraction)
  else
    let fraction := ds.drop 1
    ds.take 1 ++ (if fraction = [] then [] else '.' :: fraction) ++ power lead

def write (format : NumberFormat) : Binary64 → String
  | .nan => format.nan
  | .infinite negative => (if negative then "-" else "") ++ format.infinity
  | .finite negative units =>
      let body :=
        if units = 0 then ['0', '.', '0']
        else
          let d := Decimal.shortest units
          let ds := Nat.toDigits 10 d.digits
          format.positive ds (d.exponent + ds.length - 1)
      String.ofList (if negative then '-' :: body else body)

end NumberFormat

/-- Numbers in messages: positional from `0.0001` up to sixteen digits before the point. -/
def NumberFormat.plain : NumberFormat := ⟨-4, 16, "nan", "inf"⟩

end Pagescript
