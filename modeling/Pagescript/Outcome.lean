import Pagescript.ActionError
/-!
# Outcomes

What an action evaluates to: a value, or the error that stopped it.
-/

namespace Pagescript

abbrev Outcome := Except ActionError Value

namespace Outcome

def succeeded : Outcome → Bool
  | .ok _ => true
  | .error _ => false

def error? : Outcome → Option ActionError
  | .ok _ => none
  | .error e => some e

/-- Applies a function to the value; an error stays as it is. -/
def map (f : Value → Value) : Outcome → Outcome
  | .ok v => .ok (f v)
  | .error e => .error e

def valueOr (default : Value) : Outcome → Value
  | .ok v => v
  | .error _ => default

/-- The value, or the complaint that there is none. -/
def value : Outcome → Except String Value
  | .ok v => .ok v
  | .error e => .error ("outcome is a failure: " ++ e.summary)

def same : Outcome → Outcome → Bool
  | .ok v, .ok w => v.same w
  | .error e, .error f => e.same f
  | _, _ => false

end Outcome

end Pagescript
