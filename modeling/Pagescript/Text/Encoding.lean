/-!
# Encodings of text

Bytes as text, in the three encodings of Unicode.  Bytes that are not well formed have no text, but
for the halves of surrogate pairs, which can be let through.
-/

namespace Pagescript.Text

/-- The character of a code point; the halves of a surrogate pair are none. -/
def char? (code : Nat) : Option Char :=
  if h : code.isValidChar then some (Char.ofNatAux code h) else none

/-- What becomes of half a surrogate pair that stands alone. -/
inductive LoneHalf where
  | refused
  | replaced
  deriving DecidableEq, Repr

def LoneHalf.char? : LoneHalf → Option Char
  | refused => none
  | replaced => some (Char.ofNat 0xfffd)

def isHalf (code : Nat) : Bool :=
  0xd800 ≤ code && code < 0xe000

/-- The character of a code point that may be half a pair. -/
def codeChar? (lone : LoneHalf) (code : Nat) : Option Char :=
  if isHalf code then lone.char? else char? code

/-- Bytes in which each half of a pair, which takes three bytes, is replaced. -/
def replaceHalves : List UInt8 → List UInt8
  | a :: b :: c :: rest =>
    if a = 0xed && 0xa0 ≤ b && b < 0xc0 && 0x80 ≤ c && c < 0xc0 then
      0xef :: 0xbf :: 0xbd :: replaceHalves rest
    else a :: replaceHalves (b :: c :: rest)
  | rest => rest

def utf8? (lone : LoneHalf) (bytes : List UInt8) : Option String :=
  match lone with
  | .refused => String.fromUTF8? ⟨bytes.toArray⟩
  | .replaced => String.fromUTF8? ⟨(replaceHalves bytes).toArray⟩

inductive Endian where
  | little
  | big

def Endian.unit16 : Endian → UInt8 → UInt8 → Nat
  | .little, a, b => a.toNat + 256 * b.toNat
  | .big, a, b => 256 * a.toNat + b.toNat

def units16 (order : Endian) : List UInt8 → Option (List Nat)
  | [] => some []
  | a :: b :: rest => (units16 order rest).map (order.unit16 a b :: ·)
  | [_] => none

/-- Characters from sixteen-bit units: a high and a low surrogate in a row are one character. -/
def joinUnits (lone : LoneHalf) : List Nat → Option (List Char)
  | [] => some []
  | [unit] => (codeChar? lone unit).map ([·])
  | unit :: low :: rest =>
    if 0xd800 ≤ unit && unit < 0xdc00 && 0xdc00 ≤ low && low < 0xe000 then do
      let c ← char? (0x10000 + (unit - 0xd800) * 0x400 + (low - 0xdc00))
      return c :: (← joinUnits lone rest)
    else do
      let c ← codeChar? lone unit
      return c :: (← joinUnits lone (low :: rest))

def utf16? (lone : LoneHalf) (order : Endian) (bytes : List UInt8) : Option String := do
  return String.ofList (← joinUnits lone (← units16 order bytes))

/-- The characters of a row of bytes, four bytes each. -/
def chars32 (lone : LoneHalf) (order : Endian) : List UInt8 → Option (List Char)
  | [] => some []
  | a :: b :: c :: d :: rest => do
    let code := match order with
      | .little => order.unit16 a b + 65536 * order.unit16 c d
      | .big => 65536 * order.unit16 a b + order.unit16 c d
    let found ← codeChar? lone code
    return found :: (← chars32 lone order rest)
  | _ => none

def utf32? (lone : LoneHalf) (order : Endian) (bytes : List UInt8) : Option String :=
  (chars32 lone order bytes).map String.ofList

end Pagescript.Text
