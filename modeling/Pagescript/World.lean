import Pagescript.Log
import Pagescript.Page.Call
import Pagescript.Store
import Pagescript.Token
/-!
# The world of a run

All that a run can change: the page, the time, the token, the store, and the records of what was
called and logged.  Time passes only while something waits.
-/

namespace Pagescript

/-- Which parts of the browser a run has opened and not given back. -/
structure Resources where
  context : Bool := false
  browser : Bool := false
  driver : Bool := false

structure World (σ : Type) where
  page : σ
  /-- Seconds since the beginning. -/
  now : Binary64 := .zero
  /-- The times at which the token will be cancelled. -/
  alarms : List Binary64 := []
  /-- Whether an alarm has come that will go off as soon as something waits. -/
  ringing : Bool := false
  /-- Whether a wait that is over has left something to do, before which the clock stands still. -/
  unsettled : Bool := false
  token : Token := {}
  store : Store := .empty
  /-- The calls made so far, the first one first. -/
  calls : List Call := []
  /-- What was logged so far, the first record first. -/
  records : List LogRecord := []
  resources : Resources := {}

namespace World

variable {σ : Type}

def addCall (w : World σ) (c : Call) : World σ :=
  { w with calls := w.calls ++ [c] }

def log (w : World σ) (logger : String) (level : Level) (message : String) : World σ :=
  { w with records := w.records ++ [⟨logger, level, message⟩] }

def cancel (w : World σ) : World σ :=
  { w with token := w.token.cancel }

def arm (w : World σ) : World σ :=
  { w with token := w.token.arm w.now }

/-- Cancels the token after some time. -/
def cancelAfter (w : World σ) (seconds : Binary64) : World σ :=
  { w with alarms := w.alarms ++ [w.now.add seconds] }

end World

end Pagescript
