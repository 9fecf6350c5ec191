import Pagescript.Json.Reader
import Pagescript.Number.Numeral
/-!
# Scalars of a TOML document

Strings, numbers, dates and times.  Each function reads at the beginning of a text and gives the
rest.
-/

namespace Pagescript.Toml

inductive Error where
  | malformed
  /-- A decimal integer has more digits than are read. -/
  | tooManyDigits (count : Nat)
  /-- Arrays and tables stand in each other too deep. -/
  | tooDeep
  deriving DecidableEq, Repr

def orMalformed {α : Type} : Option α → Except Error α
  | some a => .ok a
  | none => .error .malformed

def isSpace (c : Char) : Bool :=
  c = ' ' || c = '\t'

def skipSpace (cs : List Char) : List Char :=
  cs.dropWhile isSpace

/-- Control characters may not stand in a text, but for the tab. -/
def isControl (c : Char) : Bool :=
  (c.toNat < 0x20 && c ≠ '\t') || c.toNat = 0x7f

def quoteChar : Char := '\''

def literalString (cs : List Char) : Option (String × List Char) :=
  let body := cs.takeWhile (· ≠ quoteChar)
  match cs.dropWhile (· ≠ quoteChar) with
  | _ :: rest => if body.any isControl then none else some (String.ofList body, rest)
  | [] => none

/-- The quotes beyond the closing ones: at most two belong to the text. -/
def closing (mark : Char) (body cs : List Char) : String × List Char :=
  match cs with
  | a :: b :: rest =>
    if a = mark && b = mark then (String.ofList (body ++ [a, b]), rest)
    else if a = mark then (String.ofList (body ++ [a]), b :: rest)
    else (String.ofList body, cs)
  | [a] => if a = mark then (String.ofList (body ++ [a]), []) else (String.ofList body, cs)
  | [] => (String.ofList body, [])

/-- A literal string over several lines, after its quotes; `acc` is the text so far, reversed. -/
def literalLines (acc : List Char) : List Char → Option (String × List Char)
  | a :: b :: c :: rest =>
    if a = quoteChar && b = quoteChar && c = quoteChar then some (closing quoteChar acc.reverse rest)
    else if isControl a && a ≠ '\n' then none
    else literalLines (a :: acc) (b :: c :: rest)
  | _ => none

def numbered (width : Nat) (cs : List Char) : Option (Char × List Char) := do
  let digits := cs.take width
  if digits.length < width then none
  let code ← digits.foldlM (fun n c => (Json.hexDigit? c).map (16 * n + ·)) 0
  return (← Text.char? code, cs.drop width)

def escape? (c : Char) : Option Char :=
  match c with
  | 'b' => some (Char.ofNat 8)
  | 't' => some '\t'
  | 'n' => some '\n'
  | 'f' => some (Char.ofNat 12)
  | 'r' => some '\r'
  | '"' => some '"'
  | '\\' => some '\\'
  | _ => none

/-- The text after a backslash at the end of a line: blanks and line ends are passed over. -/
def continued (cs : List Char) : Option (List Char) :=
  match skipSpace cs with
  | '\n' :: rest => some (rest.dropWhile fun c => isSpace c || c = '\n')
  | [] => some []
  | _ => none

/-- A basic string after its quotes.  `acc` is the text so far, reversed, and `fuel` bounds the
steps. -/
def basicString (lines : Bool) : Nat → List Char → List Char → Option (String × List Char)
  | 0, _, _ => none
  | fuel + 1, acc, cs =>
    match cs with
    | [] => none
    | '"' :: rest =>
      if !lines then some (String.ofList acc.reverse, rest)
      else
        match rest with
        | '"' :: '"' :: rest => some (closing '"' acc.reverse rest)
        | rest => basicString lines fuel ('"' :: acc) rest
    | '\\' :: 'u' :: rest => do
      let (c, rest) ← numbered 4 rest
      basicString lines fuel (c :: acc) rest
    | '\\' :: 'U' :: rest => do
      let (c, rest) ← numbered 8 rest
      basicString lines fuel (c :: acc) rest
    | '\\' :: c :: rest =>
      if lines && (isSpace c || c = '\n') then do
        basicString lines fuel acc (← continued (c :: rest))
      else do
        basicString lines fuel ((← escape? c) :: acc) rest
    | c :: rest =>
      if isControl c && !(lines && c = '\n') then none else basicString lines fuel (c :: acc) rest

/-- A line end right after the opening quotes is not part of the text. -/
def skipNewline : List Char → List Char
  | '\n' :: rest => rest
  | rest => rest

/-- A string in any of its four forms. -/
def string? (cs : List Char) : Option (String × List Char) :=
  match cs with
  | '"' :: '"' :: '"' :: rest => basicString true (rest.length + 1) [] (skipNewline rest)
  | '"' :: rest => basicString false (rest.length + 1) [] rest
  | a :: b :: c :: rest =>
    if a = quoteChar && b = quoteChar && c = quoteChar then literalLines [] (skipNewline rest)
    else if a = quoteChar then literalString (b :: c :: rest)
    else none
  | a :: rest => if a = quoteChar then literalString rest else none
  | [] => none

def digits? (count : Nat) (cs : List Char) : Option (Nat × List Char) := do
  let ds := cs.take count
  if ds.length < count then none
  return (← Numeral.natural? ds, cs.drop count)

def twoDigits (low high : Nat) (cs : List Char) : Option (Nat × List Char) := do
  let (n, rest) ← digits? 2 cs
  if low ≤ n && n ≤ high then some (n, rest) else none

def expect (c : Char) (cs : List Char) : Option (List Char) :=
  match cs with
  | d :: rest => if c = d then some rest else none
  | [] => none

/-- The millionths of a second that a fraction stands for; further digits do not count. -/
def millionths (cs : List Char) : Nat × List Char :=
  match cs with
  | '.' :: rest =>
    let ds := rest.takeWhile Char.isDigit
    if ds = [] then (0, cs)
    else
      let first := ds.take 6
      (Numeral.natural (first ++ List.replicate (6 - first.length) '0'), rest.dropWhile Char.isDigit)
  | _ => (0, cs)

def time? (cs : List Char) : Option (TimeOfDay × List Char) := do
  let (hour, cs) ← twoDigits 0 23 cs
  let (minute, cs) ← twoDigits 0 59 (← expect ':' cs)
  let (second, cs) ← twoDigits 0 59 (← expect ':' cs)
  let (micro, cs) := millionths cs
  return (⟨hour, minute, second, micro⟩, cs)

/-- The minutes east of Greenwich after a time, if they are given. -/
def offset (cs : List Char) : Option Int × List Char :=
  let signed (negative : Bool) (rest : List Char) : Option Int × List Char :=
    match (do
      let (hours, rest) ← twoDigits 0 23 rest
      let (minutes, rest) ← twoDigits 0 59 (← expect ':' rest)
      return ((hours * 60 + minutes : Nat), rest) : Option (Nat × List Char)) with
    | some (minutes, rest) => (some (if negative then -(minutes : Int) else minutes), rest)
    | none => (none, cs)
  match cs with
  | 'Z' :: rest | 'z' :: rest => (some 0, rest)
  | '+' :: rest => signed false rest
  | '-' :: rest => signed true rest
  | _ => (none, cs)

def isLeap (year : Nat) : Bool :=
  year % 4 = 0 && (year % 100 ≠ 0 || year % 400 = 0)

def daysIn (year month : Nat) : Nat :=
  if month = 2 then (if isLeap year then 29 else 28)
  else if month = 4 || month = 6 || month = 9 || month = 11 then 30
  else 31

/-- The digits of a date, which need not be a day of the calendar. -/
def dateDigits (cs : List Char) : Option (Date × List Char) := do
  let (year, cs) ← digits? 4 cs
  let (month, cs) ← twoDigits 1 12 (← expect '-' cs)
  let (day, cs) ← twoDigits 1 31 (← expect '-' cs)
  return (⟨year, month, day⟩, cs)

def timeAfter (cs : List Char) : Option (TimeOfDay × List Char) :=
  match cs with
  | c :: rest => if c = 'T' || c = 't' || c = ' ' then time? rest else none
  | [] => none

def dated (d : Date) (cs : List Char) : Option (Value × List Char) :=
  if d.year = 0 || daysIn d.year d.month < d.day then none
  else
    match timeAfter cs with
    | none => some (.date d, cs)
    | some (t, rest) =>
      let (zone, rest) := offset rest
      some (.moment d t zone, rest)

/-- The digits of a number with single underscores between them, as far as they go. -/
def grouped (isDigit : Char → Bool) : List Char → List Char × List Char
  | '_' :: c :: rest =>
    if isDigit c then
      let (ds, rest) := grouped isDigit rest
      (c :: ds, rest)
    else ([], '_' :: c :: rest)
  | c :: rest =>
    if isDigit c then
      let (ds, rest) := grouped isDigit rest
      (c :: ds, rest)
    else ([], c :: rest)
  | [] => ([], [])

def based (base : Nat) (cs : List Char) : Option (Value × List Char) :=
  let isDigit (c : Char) : Bool :=
    match Json.hexDigit? c with
    | some n => decide (n < base)
    | none => false
  match cs with
  | c :: _ =>
    if isDigit c then
      let (ds, rest) := grouped isDigit cs
      some (.int (ds.foldl (fun n c => base * n + (Json.hexDigit? c).getD 0) 0 : Nat), rest)
    else none
  | [] => none

def groupedAfter (cs : List Char) : Option (List Char × List Char) :=
  match cs with
  | c :: _ => if c.isDigit then some (grouped Char.isDigit cs) else none
  | [] => none

def fraction (cs : List Char) : Option (List Char) × List Char :=
  match cs with
  | '.' :: rest =>
    match groupedAfter rest with
    | some (ds, rest) => (some ds, rest)
    | none => (none, cs)
  | _ => (none, cs)

def power (cs : List Char) : Option Int × List Char :=
  match cs with
  | 'e' :: rest | 'E' :: rest =>
    let (negative, rest) := Numeral.sign rest
    match groupedAfter rest with
    | some (ds, rest) =>
      (some (if negative then -(Numeral.natural ds : Int) else Numeral.natural ds), rest)
    | none => (none, cs)
  | _ => (none, cs)

def decimalInt (negative : Bool) (ds : List Char) : Except Error Value :=
  if Numeral.maxDigits < ds.length then .error (.tooManyDigits ds.length)
  else .ok (.int (if negative then -(Numeral.natural ds : Int) else Numeral.natural ds))

def decimal (cs : List Char) : Except Error (Value × List Char) := do
  let (negative, rest) := Numeral.sign cs
  let (whole, rest) ← orMalformed (match rest with
    | '0' :: rest => some (['0'], rest)
    | rest => groupedAfter rest)
  let (part, rest) := fraction rest
  let (exponent, rest) := power rest
  if part.isNone && exponent.isNone then
    return (← decimalInt negative whole, rest)
  else
    let ds := part.getD []
    return (.float (.ofDecimal negative (Numeral.natural (whole ++ ds))
      (exponent.getD 0 - ds.length)), rest)

def wordNumber (cs : List Char) : Option (Value × List Char) :=
  let (negative, rest) := Numeral.sign cs
  match rest with
  | 'i' :: 'n' :: 'f' :: rest => some (.float (.infinite negative), rest)
  | 'n' :: 'a' :: 'n' :: rest => some (.float .nan, rest)
  | _ => none

def plainNumber (cs : List Char) : Except Error (Value × List Char) :=
  match decimal cs with
  | .error .malformed => orMalformed (wordNumber cs)
  | found => found

def number (cs : List Char) : Except Error (Value × List Char) :=
  let marked := match cs with
    | '0' :: 'x' :: rest => based 16 rest
    | '0' :: 'b' :: rest => based 2 rest
    | '0' :: 'o' :: rest => based 8 rest
    | _ => none
  match marked with
  | some found => .ok found
  | none => plainNumber cs

/-- A date, a time or a number: the first of them that the text begins with. -/
def quantity (cs : List Char) : Except Error (Value × List Char) :=
  match dateDigits cs with
  | some (d, rest) => orMalformed (dated d rest)
  | none =>
    match time? cs with
    | some (t, rest) => .ok (.time t, rest)
    | none => number cs

end Pagescript.Toml
