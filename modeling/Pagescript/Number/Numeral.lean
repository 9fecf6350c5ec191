import Pagescript.Number.Binary64
import Pagescript.Text.Blank
import Pagescript.Text.Digit
import Pagescript.Text.Lower
/-!
# Numerals

Numbers as they are written by hand: blanks around them, a sign, digits of any script, and single
underscores between the digits.
-/

namespace Pagescript.Numeral

/-- The blanks that may stand around a numeral: all but the information separators. -/
def isMargin (c : Char) : Bool :=
  Text.isBlank c && !(0x1c ≤ c.toNat && c.toNat ≤ 0x1f)

/-- The digits of all scripts as those of ASCII. -/
def plainDigit (c : Char) : Char :=
  match Text.digit? c with
  | some n => Char.ofNat (48 + n)
  | none => c

def plain (s : List Char) : List Char :=
  (((s.dropWhile isMargin).reverse.dropWhile isMargin).reverse).map plainDigit

/-- Takes out the underscores, each of which has to stand between two digits; `before` says whether
the character before is a digit. -/
def ungroup (before : Bool) : List Char → Option (List Char)
  | [] => some []
  | '_' :: c :: rest =>
    if before && c.isDigit then (ungroup true rest).map (c :: ·) else none
  | ['_'] => none
  | c :: rest => (ungroup c.isDigit rest).map (c :: ·)

/-- Splits off the sign; true stands for minus. -/
def sign : List Char → Bool × List Char
  | '-' :: rest => (true, rest)
  | '+' :: rest => (false, rest)
  | rest => (false, rest)

def natural (digits : List Char) : Nat :=
  digits.foldl (fun n c => 10 * n + (c.toNat - 48)) 0

def natural? (digits : List Char) : Option Nat :=
  if digits ≠ [] && digits.all Char.isDigit then some (natural digits) else none

/-- The most digits of an integer that is read from a text or written out as one. -/
def maxDigits : Nat := 4300

/-- The first number with more digits than that. -/
@[irreducible] def bound : Nat := Nat.pow 10 maxDigits

def digitLimit : String :=
  "Exceeds the limit (" ++ toString maxDigits ++ " digits) for integer string conversion"

def digitAdvice : String :=
  "; use sys.set_int_max_str_digits() to increase the limit"

inductive IntError where
  | malformed
  | tooManyDigits (count : Nat)
  deriving DecidableEq, Repr

/-- How many digits a text begins with, single underscores between them passed over. -/
def leadingDigits (s : List Char) : Option Nat :=
  let run := s.takeWhile fun c => c.isDigit || c = '_'
  (ungroup false run).map List.length

/-- An integer.  Its digits are counted before anything after them is looked at. -/
def int (s : List Char) : Except IntError Int :=
  let (negative, body) := sign (plain s)
  match leadingDigits body with
  | none => .error .malformed
  | some count =>
    if maxDigits < count then .error (.tooManyDigits count)
    else
      match (ungroup false body).bind natural? with
      | some n => .ok (if negative then -(n : Int) else n)
      | none => .error .malformed

def exponent? : List Char → Option Int
  | [] => some 0
  | c :: rest =>
    if c = 'e' || c = 'E' then do
      let (negative, digits) := sign rest
      let n ← natural? digits
      return if negative then -(n : Int) else n
    else none

/-- A number without its sign: digits, perhaps with a point among or around them and an exponent. -/
def decimal? (negative : Bool) (s : List Char) : Option Binary64 := do
  let whole := s.takeWhile Char.isDigit
  let rest := s.dropWhile Char.isDigit
  let (fraction, rest) := match rest with
    | '.' :: rest => (rest.takeWhile Char.isDigit, rest.dropWhile Char.isDigit)
    | rest => ([], rest)
  let digits ← natural? (whole ++ fraction)
  let exponent ← exponent? rest
  return .ofDecimal negative digits (exponent - fraction.length)

def float? (s : List Char) : Option Binary64 := do
  let (negative, body) := sign (← ungroup false (plain s))
  let word := String.ofList (body.map Char.toLower)
  if word = "inf" || word = "infinity" then return .infinite negative
  else if word = "nan" then return .nan
  else decimal? negative body

end Pagescript.Numeral
