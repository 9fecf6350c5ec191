import Pagescript.Value.Basic
/-!
# The literal text of a value

How a value is spelled in messages and log records: texts in quotes, numbers with the fewest digits,
dates by their parts.
-/

namespace Pagescript

namespace Date

def literal (d : Date) : String :=
  "datetime.date(" ++ ", ".intercalate ([d.year, d.month, d.day].map Nat.repr) ++ ")"

/-- Four digits for the year, two for the month and the day. -/
def iso (d : Date) : String :=
  let pad (width n : Nat) := "".pushn '0' (width - n.repr.length) ++ n.repr
  pad 4 d.year ++ "-" ++ pad 2 d.month ++ "-" ++ pad 2 d.day

end Date

namespace TimeOfDay

/-- Hour and minute always, the second and its millionths only as far as they are not zero. -/
def parts (t : TimeOfDay) : List String :=
  let tail := if t.micro ≠ 0 then [t.second, t.micro] else if t.second ≠ 0 then [t.second] else []
  ([t.hour, t.minute] ++ tail).map Nat.repr

def literal (t : TimeOfDay) : String :=
  "datetime.time(" ++ ", ".intercalate t.parts ++ ")"

def iso (t : TimeOfDay) : String :=
  let pad (width n : Nat) := "".pushn '0' (width - n.repr.length) ++ n.repr
  pad 2 t.hour ++ ":" ++ pad 2 t.minute ++ ":" ++ pad 2 t.second ++
    (if t.micro = 0 then "" else "." ++ pad 6 t.micro)

end TimeOfDay

namespace Value

/-- A zone by its distance from Greenwich, counted in whole days and the seconds after them. -/
def offsetLiteral (minutes : Int) : String :=
  if minutes = 0 then "datetime.timezone.utc"
  else
    let seconds := minutes * 60
    let days := seconds / 86400
    let rest := seconds % 86400
    let parts := (if days = 0 then [] else ["days=" ++ toString days]) ++
      (if rest = 0 then [] else ["seconds=" ++ toString rest])
    "datetime.timezone(datetime.timedelta(" ++ ", ".intercalate parts ++ "))"

def offsetIso (minutes : Int) : String :=
  let pad (n : Nat) := "".pushn '0' (2 - n.repr.length) ++ n.repr
  (if minutes < 0 then "-" else "+") ++ pad (minutes.natAbs / 60) ++ ":" ++ pad (minutes.natAbs % 60)

def momentLiteral (d : Date) (t : TimeOfDay) (offset : Option Int) : String :=
  let zone := match offset with
    | none => []
    | some minutes => ["tzinfo=" ++ offsetLiteral minutes]
  "datetime.datetime(" ++
    ", ".intercalate ([d.year, d.month, d.day].map Nat.repr ++ t.parts ++ zone) ++ ")"

mutual

def literal : Value → String
  | .null => "None"
  | .bool true => "True"
  | .bool false => "False"
  | .int i => toString i
  | .float x => NumberFormat.plain.write x
  | .text s => Text.quote s
  | .bytes bs => String.ofList (Text.quotedBytes bs)
  | .date d => d.literal
  | .time t => t.literal
  | .moment d t offset => momentLiteral d t offset
  | .list xs => "[" ++ ", ".intercalate (literals xs) ++ "]"
  | .tuple [x] => "(" ++ x.literal ++ ",)"
  | .tuple xs => "(" ++ ", ".intercalate (literals xs) ++ ")"
  | .mapping fields => "\x7b" ++ ", ".intercalate (literalFields fields) ++ "\x7d"
  | .foreign shown => shown
termination_by structural v => v

def literals : List Value → List String
  | [] => []
  | v :: rest => v.literal :: literals rest
termination_by structural vs => vs

def literalFields : List (String × Value) → List String
  | [] => []
  | (key, v) :: rest => (Text.quote key ++ ": " ++ v.literal) :: literalFields rest
termination_by structural fs => fs

end

/-- The text of a value: a text stands for itself, dates in the ISO form, all else as a literal. -/
def plain : Value → String
  | .text s => s
  | .date d => d.iso
  | .time t => t.iso
  | .moment d t offset => d.iso ++ " " ++ t.iso ++ (offset.map offsetIso).getD ""
  | v => v.literal

end Value

end Pagescript
