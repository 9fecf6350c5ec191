import Pagescript.Text.Encoding
import Pagescript.Value.Basic
/-!
# Values from JSON text

The grammar of JSON, with the names `NaN`, `Infinity` and `-Infinity` for the numbers that have no
digits.  A mapping is read with all its entries in the order of the text, repeated names included.
A reader has limits; a text that goes beyond them is not read.
-/

namespace Pagescript.Json

inductive Container where
  | array
  | object
  deriving DecidableEq, Repr

def Container.word : Container → String
  | array => "array"
  | object => "object"

inductive ReadError where
  | malformed
  /-- The container would be nested too deep. -/
  | tooDeep (container : Container)
  deriving DecidableEq, Repr

structure Limits where
  /-- How many containers may be nested. -/
  depth : Nat
  /-- Whether a container that is empty counts as nested. -/
  countEmpty : Bool
  /-- The most digits of an integer. -/
  intDigits : Option Nat
  /-- The most digits before the point of a number that is not an integer. -/
  wholeDigits : Option Nat
  lone : Text.LoneHalf

/-- The limits of a reader that takes every text of some length. -/
def Limits.upTo (length : Nat) : Limits :=
  ⟨length, true, none, none, .refused⟩

def isSpace (c : Char) : Bool :=
  c = ' ' || c = '\t' || c = '\n' || c = '\r'

def skip (cs : List Char) : List Char :=
  cs.dropWhile isSpace

def after? : List Char → List Char → Option (List Char)
  | [], cs => some cs
  | w :: word, c :: cs => if w = c then after? word cs else none
  | _ :: _, [] => none

def number? (cs : List Char) : Option Nat :=
  if cs = [] then none else some (cs.foldl (fun n c => 10 * n + (c.toNat - 48)) 0)

/-- The exponent at the beginning of a text, or zero. -/
def exponent (cs : List Char) : Option (Option Int × List Char) :=
  match cs with
  | 'e' :: rest | 'E' :: rest =>
    let (negative, rest) := match rest with
      | '-' :: rest => (true, rest)
      | '+' :: rest => (false, rest)
      | rest => (false, rest)
    (number? (rest.takeWhile Char.isDigit)).map fun n =>
      (some (if negative then -(n : Int) else n), rest.dropWhile Char.isDigit)
  | _ => some (none, cs)

def exceeds (count : Nat) (limit : Option Nat) : Bool :=
  limit.any (· < count)

/-- A number without its sign. -/
def unsigned (limits : Limits) (negative : Bool) (cs : List Char) : Option (Value × List Char) := do
  let whole := cs.takeWhile Char.isDigit
  let rest := cs.dropWhile Char.isDigit
  if whole = [] || (whole.head? = some '0' && 1 < whole.length) then none
  let (fraction, rest) ← match rest with
    | '.' :: rest =>
      let ds := rest.takeWhile Char.isDigit
      if ds = [] then none else some (ds, rest.dropWhile Char.isDigit)
    | rest => some ([], rest)
  let (power, rest) ← exponent rest
  if fraction = [] && power = none then
    if exceeds whole.length limits.intDigits then none
    let n ← number? whole
    return (.int (if negative then -(n : Int) else n), rest)
  else
    if exceeds whole.length limits.wholeDigits then none
    let digits ← number? (whole ++ fraction)
    return (.float (.ofDecimal negative digits (power.getD 0 - fraction.length)), rest)

def hexDigit? (c : Char) : Option Nat :=
  if c.isDigit then some (c.toNat - 48)
  else if 'a' ≤ c && c ≤ 'f' then some (c.toNat - 87)
  else if 'A' ≤ c && c ≤ 'F' then some (c.toNat - 55)
  else none

def escape? (c : Char) : Option Nat :=
  match c with
  | '"' => some 34
  | '\\' => some 92
  | '/' => some 47
  | 'b' => some 8
  | 'f' => some 12
  | 'n' => some 10
  | 'r' => some 13
  | 't' => some 9
  | _ => none

/-- The code points and sixteen-bit units up to the closing quote. -/
def stringUnits (acc : List Nat) : List Char → Option (List Nat × List Char)
  | [] => none
  | '"' :: rest => some (acc.reverse, rest)
  | '\\' :: 'u' :: a :: b :: c :: d :: rest => do
    let unit := (((← hexDigit? a) * 16 + (← hexDigit? b)) * 16 + (← hexDigit? c)) * 16 + (← hexDigit? d)
    stringUnits (unit :: acc) rest
  | '\\' :: c :: rest => do stringUnits ((← escape? c) :: acc) rest
  | c :: rest => if c.toNat < 0x20 then none else stringUnits (c.toNat :: acc) rest

def string? (lone : Text.LoneHalf) (cs : List Char) : Option (String × List Char) := do
  let (units, rest) ← stringUnits [] cs
  return (String.ofList (← Text.joinUnits lone units), rest)

/-- What has been read, unless nothing could be. -/
def orMalformed {α : Type} : Option α → Except ReadError α
  | some a => .ok a
  | none => .error .malformed

/-- A value of one word, after its first letter. -/
def word (v : Value) (letters : String) (cs : List Char) : Except ReadError (Value × List Char) :=
  orMalformed ((after? letters.toList cs).map (v, ·))

mutual

/-- A value at the beginning of a text.  `fuel` bounds the steps and `depth` the nesting. -/
def value (limits : Limits) (fuel depth : Nat) (cs : List Char) :
    Except ReadError (Value × List Char) :=
  match fuel with
  | 0 => .error .malformed
  | fuel + 1 =>
    match skip cs with
    | '"' :: rest => do
      let (s, rest) ← orMalformed (string? limits.lone rest)
      return (.text s, rest)
    | '[' :: rest =>
      if limits.countEmpty && depth = 0 then .error (.tooDeep .array)
      else
        match skip rest, depth with
        | ']' :: rest, _ => .ok (.list [], rest)
        | _, 0 => .error (.tooDeep .array)
        | rest, depth + 1 => items limits fuel depth [] rest
    | '\x7b' :: rest =>
      if limits.countEmpty && depth = 0 then .error (.tooDeep .object)
      else
        match skip rest, depth with
        | '\x7d' :: rest, _ => .ok (.mapping [], rest)
        | _, 0 => .error (.tooDeep .object)
        | rest, depth + 1 => entries limits fuel depth [] rest
    | 'n' :: rest => word .null "ull" rest
    | 't' :: rest => word (.bool true) "rue" rest
    | 'f' :: rest => word (.bool false) "alse" rest
    | 'N' :: rest => word (.float .nan) "aN" rest
    | 'I' :: rest => word (.float (.infinite false)) "nfinity" rest
    | '-' :: 'I' :: rest => word (.float (.infinite true)) "nfinity" rest
    | '-' :: rest => orMalformed (unsigned limits true rest)
    | rest => orMalformed (unsigned limits false rest)

/-- The items of an array after its bracket. -/
def items (limits : Limits) (fuel depth : Nat) (acc : List Value) (cs : List Char) :
    Except ReadError (Value × List Char) :=
  match fuel with
  | 0 => .error .malformed
  | fuel + 1 => do
    let (v, rest) ← value limits fuel depth cs
    match skip rest with
    | ',' :: rest => items limits fuel depth (v :: acc) rest
    | ']' :: rest => .ok (.list (v :: acc).reverse, rest)
    | _ => .error .malformed

/-- The entries of an object after its brace. -/
def entries (limits : Limits) (fuel depth : Nat) (acc : List (String × Value)) (cs : List Char) :
    Except ReadError (Value × List Char) :=
  match fuel with
  | 0 => .error .malformed
  | fuel + 1 =>
    match skip cs with
    | '"' :: rest => do
      let (key, rest) ← orMalformed (string? limits.lone rest)
      match skip rest with
      | ':' :: rest => do
        let (v, rest) ← value limits fuel depth rest
        match skip rest with
        | ',' :: rest => entries limits fuel depth ((key, v) :: acc) rest
        | '\x7d' :: rest => .ok (.mapping ((key, v) :: acc).reverse, rest)
        | _ => .error .malformed
      | _ => .error .malformed
    | _ => .error .malformed

end

def readWithin (limits : Limits) (s : String) : Except ReadError Value := do
  let cs := s.toList
  let (v, rest) ← value limits (2 * cs.length + 1) limits.depth cs
  if skip rest = [] then .ok v else .error .malformed

/-- The value a text stands for, whatever its size. -/
def read (s : String) : Option Value :=
  (readWithin (.upTo s.length) s).toOption

end Pagescript.Json
