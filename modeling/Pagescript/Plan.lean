import Pagescript.Action.Dump
import Pagescript.Frame
import Pagescript.Surface
/-!
# Plans

What carrying out an action comes to.  A plan makes one request after the other, each in the light of
the answers so far, and ends with a value or stops.  A request that is not answered stops the plan.
-/

namespace Pagescript

/-- Why an evaluation stopped: its action failed, or something went wrong that is no failure of the
program. -/
inductive Stop where
  | failed (e : ActionError)
  | fault (f : Fault)

/-- The failure of an action at a frame. -/
def Stop.failure (frame : Frame Handle) (action : Fields) (code : ErrorCode) (message : String)
    (payload : List Value) : Stop :=
  .failed { code, message, source := frame.source, action := .mapping action, payload }

/-- What can be asked for while an action is carried out. -/
inductive Request where
  /-- The value of another action at a frame. -/
  | evaluate (a : Action) (frame : Frame Handle)
  | carryOut (task : Surface.Task)
  /-- Waiting, which the token may stop. -/
  | wait (awaited : Surface.Awaited)
  /-- The time limit of the token. -/
  | timeout
  /-- The value under a name of the store. -/
  | lookUp (name : String)
  /-- Writing a batch of entries to the store. -/
  | commit (batch : Fields)
  | log (level : Level) (message : String)

abbrev Request.Answer : Request → Type
  | .evaluate .. => Value
  | .carryOut task => task.Answer
  | .wait _ => Except Interruption Unit
  | .timeout => Option Binary64
  | .lookUp _ => Option Value
  | .commit _ => Unit
  | .log .. => Unit

inductive Plan (α : Type) where
  | done (v : α)
  | stop (s : Stop)
  | request (r : Request) (next : r.Answer → Plan α)

namespace Plan

variable {α β : Type}

def bind : Plan α → (α → Plan β) → Plan β
  | .done v, f => f v
  | .stop s, _ => .stop s
  | .request r next, f => .request r fun v => (next v).bind f

instance : Monad Plan where
  pure := done
  bind := bind

def ask (r : Request) : Plan r.Answer :=
  request r done

def evaluate (a : Action) (frame : Frame Handle) : Plan Value :=
  ask (.evaluate a frame)

def carryOut (task : Surface.Task) : Plan task.Answer :=
  ask (.carryOut task)

def log (level : Level) (message : String) : Plan Unit :=
  ask (.log level message)

/-- Fails at a frame, on account of an action. -/
def failAt (a : Action) (frame : Frame Handle) (code : ErrorCode) (message : String)
    (payload : List Value) : Plan α :=
  stop (.failure frame a.payload code message payload)

/-- A field that a handler cannot do without. -/
def need (a : Action) (field : String) : Option α → Plan α
  | some v => return v
  | none => stop (.fault (.missingField a.title field))

end Plan

end Pagescript
