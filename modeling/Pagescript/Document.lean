import Pagescript.Json.Reader
import Pagescript.Number.Numeral
import Pagescript.Program
/-!
# Documents

A program comes as a value, as JSON text, or as the bytes of such a text.
-/

namespace Pagescript

inductive Document where
  | value (v : Value)
  | text (s : String)
  | bytes (bs : List UInt8)
  | program (p : Program)

namespace Document

/-- What a document may hold: 200 containers in each other, the innermost of which may hold an empty
one, and integers of limited length. -/
def strict : Json.Limits :=
  ⟨200, false, some Numeral.maxDigits, some Numeral.maxDigits, .refused⟩

/-- What can still be looked at in a document that is refused. -/
def loose : Json.Limits :=
  ⟨980, true, some Numeral.maxDigits, none, .replaced⟩

/-- A value as a document: a text or a row of bytes is to be read first. -/
def ofValue : Value → Document
  | .text s => .text s
  | .bytes bs => .bytes bs
  | v => .value v

def checkText (registry : Registry) (s : Option String) : Check Program :=
  match s.map (Json.readWithin strict) with
  | some (.ok v) => Program.ofValue registry .text v
  | _ => .fail .invalidJson

def check (registry : Registry) : Document → Check Program
  | value v => Program.ofValue registry .value v
  | text s => checkText registry (some s)
  | bytes bs => checkText registry (Text.utf8? .refused bs)
  | program p => .valid p

def parse (registry : Registry) (document : Document) : Except ParseError Program :=
  match document.check registry with
  | .valid p => .ok p
  | .invalid issues => .error (.ofIssues issues)

/-- The text of a row of bytes, whose encoding is told from its first bytes. -/
def decode? (bs : List UInt8) : Option String :=
  let utf8 := Text.utf8? loose.lone
  let utf16 := Text.utf16? loose.lone
  let utf32 := Text.utf32? loose.lone
  match bs with
  | 0 :: 0 :: 0xfe :: 0xff :: rest => utf32 .big rest
  | 0xff :: 0xfe :: 0 :: 0 :: rest => utf32 .little rest
  | 0xfe :: 0xff :: rest => utf16 .big rest
  | 0xff :: 0xfe :: rest => utf16 .little rest
  | 0xef :: 0xbb :: 0xbf :: rest => utf8 rest
  | 0 :: 0 :: _ :: _ :: _ => utf32 .big bs
  | 0 :: _ :: _ :: _ :: _ => utf16 .big bs
  | _ :: 0 :: 0 :: 0 :: _ => utf32 .little bs
  | _ :: 0 :: _ :: _ :: _ => utf16 .little bs
  | [0, _] => utf16 .big bs
  | [_, 0] => utf16 .little bs
  | _ => utf8 bs

def toValue : Document → Except Json.ReadError Value
  | value v => .ok v
  | text s => (Json.readWithin loose s).map Value.settle
  | bytes bs => do
    let s ← Json.orMalformed (decode? bs)
    return (← Json.readWithin loose s).settle
  | program _ => .error .malformed

/-- One step into a value. -/
def descend? (v : Value) : Segment → Option Value
  | .index i =>
    match v with
    | .list xs | .tuple xs => if i < 0 then none else xs[i.toNat]?
    | _ => none
  | .key name =>
    match v with
    | .mapping fields => Entries.get? fields name
    | _ => none

def mappingOr (fallback : Fields) : Value → Fields
  | .mapping fields => fields
  | _ => fallback

/-- The innermost mapping on a path into a value, as far as the path can be followed. -/
def innermost (found : Fields) (v : Value) : List Segment → Fields
  | [] => found
  | segment :: rest =>
    match descend? v segment with
    | some next => innermost (mappingOr found next) next rest
    | none => found

/-- The mapping that the first issue of a refusal is about; nothing if the document cannot be read.
A document that is nested too deep is not looked into. -/
def offending (document : Document) (issues : List Issue) : Except Json.Container Fields :=
  match document.toValue with
  | .ok v => .ok (innermost (mappingOr [] v) v ((issues.head?.map Issue.loc).getD []))
  | .error .malformed => .ok []
  | .error (.tooDeep container) => .error container

end Document

end Pagescript
