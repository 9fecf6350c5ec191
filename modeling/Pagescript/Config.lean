import Pagescript.Path
import Pagescript.Toml.Reader
import Pagescript.Value.Literal
import Pagescript.Value.Pairs
/-!
# Configuration

How a run is carried out.  Each setting has a default, can be set in the `wayang` table of a TOML
document, and can be overridden by a variable of the environment.
-/

namespace Pagescript

structure Config where
  /-- Seconds after which the waits of a run are stopped. -/
  timeout : Option Binary64
  actionTimeout : Int
  navigationTimeout : Int
  waitTimeout : Int
  maxDepth : Int
  maxSourceLength : Int
  headless : Bool
  /-- The address of a browser to attach to. -/
  address : Option String
  /-- Where the event logs of runs are kept. -/
  logRoot : Path

inductive ConfigError where
  | syntaxError
  | tooDeep
  | notEntries (e : PairError)
  | notTable (type : String)
  | notReal (type : String)
  | badReal (shown : String)
  | tooLarge
  | notWhole (type : String)
  | badWhole (shown : String)
  /-- An integer in a text has more digits than are read. -/
  | tooManyDigits (count : Nat)
  /-- An integer has more digits than are written out. -/
  | tooLong
  | infinite
  | nan
  | notPath (type : String)
  | bytesPath

namespace ConfigError

def message : ConfigError → String
  | syntaxError => ""
  | tooDeep => "maximum recursion depth exceeded"
  | notEntries e => e.message
  | notTable type => "'" ++ type ++ "' object is not a mapping"
  | notReal type => "float() argument must be a string or a real number, not '" ++ type ++ "'"
  | badReal shown => "could not convert string to float: " ++ shown
  | tooLarge => "int too large to convert to float"
  | notWhole type =>
    "int() argument must be a string, a bytes-like object or a real number, not '" ++ type ++ "'"
  | badWhole shown =>
    "invalid literal for int() with base 10: " ++ String.ofList (shown.toList.take 200)
  | tooManyDigits count =>
    Numeral.digitLimit ++ ": value has " ++ toString count ++ " digits" ++ Numeral.digitAdvice
  | tooLong => Numeral.digitLimit ++ Numeral.digitAdvice
  | infinite => "cannot convert float infinity to integer"
  | nan => "cannot convert float NaN to integer"
  | notPath type => "expected str, bytes or os.PathLike object, not " ++ type
  | bytesPath =>
    "argument should be a str object or an os.PathLike object returning str, not <class 'bytes'>"

end ConfigError

namespace Config

/-- The characters of a row of bytes; what is not ASCII is no part of a number. -/
def asciiChars (bs : List UInt8) : List Char :=
  bs.map fun b => if b < 128 then Char.ofNat b.toNat else '?'

def real (v : Value) : Except ConfigError Binary64 :=
  let orBad (x : Option Binary64) : Except ConfigError Binary64 :=
    match x with
    | some x => .ok x
    | none => .error (.badReal v.literal)
  match v with
  | .bool b => .ok (.ofInt b.toInt)
  | .int i =>
    match Binary64.ofInt? i with
    | some x => .ok x
    | none => .error .tooLarge
  | .float x => .ok x
  | .text s => orBad (Numeral.float? s.toList)
  | .bytes bs => orBad (Numeral.float? (asciiChars bs))
  | v => .error (.notReal v.fullTypeName)

def whole (v : Value) : Except ConfigError Int :=
  let orBad (x : Except Numeral.IntError Int) : Except ConfigError Int :=
    match x with
    | .ok i => .ok i
    | .error .malformed => .error (.badWhole v.literal)
    | .error (.tooManyDigits count) => .error (.tooManyDigits count)
  match v with
  | .bool b => .ok b.toInt
  | .int i => .ok i
  | .float (.finite negative units) => .ok (Binary64.truncate negative units)
  | .float (.infinite _) => .error .infinite
  | .float .nan => .error .nan
  | .text s => orBad (Numeral.int s.toList)
  | .bytes bs => orBad (Numeral.int (asciiChars bs))
  | v => .error (.notWhole v.fullTypeName)

/-- A text without blanks around it and in lower case, to be compared with a word. -/
def word (s : String) : String :=
  Text.lower (String.ofList (Text.trimBlank s.toList))

/-- A number of seconds; there is no limit if it is not positive, absent or said to be off. -/
def timeoutOf (v : Value) : Except ConfigError (Option Binary64) :=
  let positive (x : Binary64) : Option Binary64 := if Binary64.zero.lt x then some x else none
  match v with
  | .null => .ok none
  | .text s => if ["", "none", "off"].contains (word s) then .ok none else (real v).map positive
  | v => (real v).map positive

/-- The text of a value, unless an integer in it is too long to be written out. -/
def textOf (v : Value) : Except ConfigError String :=
  if v.fits Numeral.bound then .ok v.plain else .error .tooLong

def flagOf (v : Value) : Except ConfigError Bool :=
  match v with
  | .bool b => .ok b
  | v => (textOf v).map fun s => ["true", "1", "yes", "on"].contains (word s)

def addressOf (v : Value) : Except ConfigError (Option String) :=
  if v.truthy then (textOf v).map some else .ok none

def pathOf (v : Value) : Except ConfigError Path :=
  match v with
  | .text s => .ok (Path.ofString s)
  | .bytes _ => .error .bytesPath
  | v => .error (.notPath v.typeName)

def defaults : Fields :=
  [("timeout_s", .float (.ofInt 30)), ("action_timeout_ms", .int 10000),
    ("navigation_timeout_ms", .int 30000), ("wait_timeout_ms", .int 30000), ("max_depth", .int 128),
    ("max_source_length", .int 1000), ("headless", .bool true), ("cdp_url", .null),
    ("log_root", .text "runs")]

/-- The value of a setting: the one given, or else the default. -/
def setting (given : Fields) (name : String) : Value :=
  ((Entries.get? given name).or (Entries.get? defaults name)).getD .null

/-- A configuration from settings.  Of several that cannot be used the first is reported. -/
def ofFields (given : Fields) : Except ConfigError Config := do
  return {
    timeout := ← timeoutOf (setting given "timeout_s")
    actionTimeout := ← whole (setting given "action_timeout_ms")
    navigationTimeout := ← whole (setting given "navigation_timeout_ms")
    waitTimeout := ← whole (setting given "wait_timeout_ms")
    maxDepth := ← whole (setting given "max_depth")
    maxSourceLength := ← whole (setting given "max_source_length")
    headless := ← flagOf (setting given "headless")
    address := ← addressOf (setting given "cdp_url")
    logRoot := ← pathOf (setting given "log_root") }

def setting? : Binding → Option (String × Value)
  | (.text key, v) => some (key, v)
  | (.other _, _) => none

/-- A configuration from settings that are given by a value. -/
def ofValue (v : Value) : Except ConfigError Config :=
  match v.bindings with
  | (bindings, none) => ofFields (Entries.ofList (bindings.filterMap setting?))
  | (_, some e) => .error (.notEntries e)

def initial : Config :=
  { timeout := some (.ofInt 30), actionTimeout := 10000, navigationTimeout := 30000
    waitTimeout := 30000, maxDepth := 128, maxSourceLength := 1000, headless := true
    address := none, logRoot := .ofString "runs" }

/-- What the variables of settings begin with. -/
def variableMark : String := "WAYANG_"

/-- The setting that a variable of the environment is for. -/
def variableSetting? (label : String) : Option String :=
  match Json.after? variableMark.toList label.toList with
  | some rest =>
    let name := Text.lower (String.ofList rest)
    if Entries.contains defaults name then some name else none
  | none => none

/-- The settings in an environment; of two variables for one setting the later counts. -/
def ofEnvironment (environment : Entries String) : Fields :=
  Entries.ofList (environment.filterMap fun (label, s) =>
    (variableSetting? label).map (·, .text s))

def ofDocument : Option String → Except ConfigError Fields
  | none => .ok []
  | some s =>
    match Toml.read s with
    | .error .malformed => .error .syntaxError
    | .error (.tooManyDigits count) => .error (.tooManyDigits count)
    | .error .tooDeep => .error .tooDeep
    | .ok fields =>
      match (Entries.get? fields "wayang").getD (.mapping []) with
      | .mapping table => .ok table
      | v => .error (.notTable v.fullTypeName)

/-- The configuration from an environment and, if there is one, a document. -/
def load (environment : Entries String) (document : Option String) : Except ConfigError Config := do
  let table ← ofDocument document
  ofFields (Entries.update table (ofEnvironment environment))

end Config

end Pagescript
