import Pagescript.Value.Equal
import Pagescript.Value.Literal
/-!
# Names

Values are bound to names.  A name is nearly always a text, but any value can be one that has no list
and no mapping in it.
-/

namespace Pagescript

inductive Name where
  | text (s : String)
  /-- A value that is no text. -/
  | other (v : Value)

namespace Name

instance : Coe String Name := ⟨Name.text⟩

def toValue : Name → Value
  | text s => .text s
  | other v => v

/-- Whether two names are bound to the same value. -/
def same : Name → Name → Bool
  | text s, text t => s = t
  | other v, other w => v.same w
  | _, _ => false

def literal (name : Name) : String :=
  name.toValue.literal

end Name

namespace Value

mutual

/-- The kind of value that keeps another one from being a name. -/
def unhashable? : Value → Option String
  | .list _ => some "list"
  | .mapping _ => some "dict"
  | .tuple xs => firstUnhashable? xs
  | _ => none
termination_by structural v => v

def firstUnhashable? : List Value → Option String
  | [] => none
  | v :: rest => v.unhashable?.or (firstUnhashable? rest)
termination_by structural vs => vs

end

/-- The name that a value is, or the kind of value that keeps it from being one. -/
def toName : Value → Except String Name
  | .text s => .ok (.text s)
  | v =>
    match v.unhashable? with
    | none => .ok (.other v)
    | some type => .error type

end Value

end Pagescript
