import Pagescript.Number.Binary64
/-!
# Cancel tokens

A token stops the waits of a run once the run is cancelled or its deadline has passed.
-/

namespace Pagescript

/-- Why a wait was stopped. -/
inductive Interruption where
  | cancelled
  | timeout
  deriving DecidableEq, Repr

def Interruption.word : Interruption → String
  | cancelled => "cancelled"
  | timeout => "timeout"

/-- Times are in seconds. -/
structure Token where
  /-- How long after it is armed the token lets a run go on. -/
  timeout : Option Binary64 := none
  deadline : Option Binary64 := none
  cancelled : Bool := false

namespace Token

/-- Sets the deadline, unless it is set already. -/
def arm (token : Token) (now : Binary64) : Token :=
  match token.deadline, token.timeout with
  | none, some timeout => { token with deadline := some (now.add timeout) }
  | _, _ => token

def cancel (token : Token) : Token :=
  { token with cancelled := true }

def remaining (token : Token) (now : Binary64) : Option Binary64 :=
  token.deadline.map (·.sub now)

def expired (token : Token) (now : Binary64) : Bool :=
  match token.remaining now with
  | some left => left.le .zero
  | none => false

/-- Why the token stops waits now, if it does. -/
def reason? (token : Token) (now : Binary64) : Option Interruption :=
  if token.cancelled then some .cancelled
  else if token.expired now then some .timeout
  else none

end Token

end Pagescript
