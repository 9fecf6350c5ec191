import Pagescript.Text.Blank
import Pagescript.Text.Lines
import Pagescript.Value.Literal
/-!
# Values laid out over lines

The literal of a value, broken where it does not fit into the width of a page: a collection has then
one item on a line, and a long text or row of bytes is cut into literals that stand below each other.
-/

namespace Pagescript.Layout

def pageWidth : Int := 80

def newline (indent : Nat) : String :=
  "\n" ++ "".pushn ' ' indent

/-- A line cut before every word, each piece a word and the blanks after it; `piece` is the current
one, reversed. -/
def pieces (piece : List Char) (afterBlank : Bool) : List Char → List (List Char)
  | [] => if piece = [] then [] else [piece.reverse]
  | c :: rest =>
    if Text.isBlank c then pieces (c :: piece) true rest
    else if afterBlank then piece.reverse :: pieces [c] false rest
    else pieces (c :: piece) false rest

/-- Joins parts as long as the quoted join fits; the last part has only `lastWidth` to fit in. -/
def fill {α : Type} (quoted : List α → List Char) (width lastWidth : Int) (current : List α) :
    List (List α) → List String
  | [] => if current.isEmpty then [] else [String.ofList (quoted current)]
  | part :: rest =>
    let candidate := current ++ part
    let room := if rest.isEmpty then lastWidth else width
    if room < (quoted candidate).length then
      (if current.isEmpty then [] else [String.ofList (quoted current)]) ++
        fill quoted width lastWidth part rest
    else fill quoted width lastWidth candidate rest

/-- The literals a text is cut into, line by line.  `allowance` is what has to fit behind the last. -/
def textChunks (width allowance : Int) : List (List Char) → List String
  | [] => []
  | line :: rest =>
    let lastWidth := if rest.isEmpty then width - allowance else width
    let whole := Text.quoted line
    (if (whole.length : Int) ≤ lastWidth then [String.ofList whole]
      else fill Text.quoted width lastWidth [] (pieces [] false line)) ++
      textChunks width allowance rest

/-- Bytes in groups of four. -/
def groups : List UInt8 → List (List UInt8)
  | a :: b :: c :: d :: rest => [a, b, c, d] :: groups rest
  | [] => []
  | rest => [rest]

/-- The literals a row of bytes is cut into.  Only an incomplete last group leaves room behind it. -/
def byteChunks (width allowance : Int) (bs : List UInt8) : List String :=
  let lastWidth := if bs.length % 4 = 0 then width else width - allowance
  fill Text.quotedBytes width lastWidth [] (groups bs)

mutual

/-- The layout of a value that begins `indent` columns in and has `allowance` characters behind it. -/
def value (indent allowance : Nat) (v : Value) : String :=
  let whole := v.literal
  if (whole.length : Int) ≤ pageWidth - indent - allowance then whole
  else
    match v with
    | .list xs => "[" ++ items (indent + 1) (allowance + 1) xs ++ "]"
    | .tuple [x] => "(" ++ value (indent + 1) (allowance + 2) x ++ ",)"
    | .tuple xs => "(" ++ items (indent + 1) (allowance + 1) xs ++ ")"
    | .mapping fields => "\x7b" ++ entries (indent + 1) (allowance + 1) fields ++ "\x7d"
    | .text s =>
      if s.isEmpty then whole
      else (newline indent).intercalate (textChunks (pageWidth - indent) allowance (Text.lines s.toList))
    | .bytes bs =>
      if bs.length ≤ 4 then whole
      else (newline indent).intercalate (byteChunks (pageWidth - indent) allowance bs)
    | _ => whole
termination_by structural v

def items (indent allowance : Nat) : List Value → String
  | [] => ""
  | [v] => value indent allowance v
  | v :: rest => value indent 1 v ++ "," ++ newline indent ++ items indent allowance rest
termination_by structural vs => vs

def entries (indent allowance : Nat) : List (String × Value) → String
  | [] => ""
  | [(key, v)] =>
    let name := Text.quote key
    name ++ ": " ++ value (indent + name.length + 2) allowance v
  | (key, v) :: rest =>
    let name := Text.quote key
    name ++ ": " ++ value (indent + name.length + 2) 1 v ++ "," ++ newline indent ++
      entries indent allowance rest
termination_by structural fs => fs

end

end Pagescript.Layout
