import Pagescript.World
/-!
# Time in a world

Whatever waits gives way to the alarms.  A time has come once it is less than a billionth of a second
away, and the clock moves only when nothing else is left to do: to the earliest time that something
waits for.  A wait that the token can stop ends when what is waited for is over, when the deadline
comes, or when an alarm goes off.
-/

namespace Pagescript

namespace World

variable {σ : Type}

/-- A billionth of a second. -/
def resolution : Binary64 :=
  .ofDecimal false 1 (-9)

def isDue (w : World σ) (time : Binary64) : Bool :=
  time.lt (w.now.add resolution)

/-- Moves the clock, but never back. -/
def moveTo (w : World σ) (time : Binary64) : World σ :=
  { w with now := w.now.max time }

/-- The alarm that is about to go off does so. -/
def ring (w : World σ) : World σ :=
  if w.ringing then { w.cancel with ringing := false } else w

def fireDue (w : World σ) : World σ :=
  let due := w.alarms.filter w.isDue
  { w with
    alarms := w.alarms.filter (!w.isDue ·)
    token := if due.isEmpty then w.token else w.token.cancel }

/-- Gives way for a moment.  An alarm that is due by then goes off the next time something waits. -/
def giveWay (w : World σ) : World σ :=
  let w := w.ring
  { w with
    alarms := w.alarms.filter (!w.isDue ·)
    ringing := w.alarms.any w.isDue
    unsettled := false }

/-- The earliest of some times, of which the infinite ones never come. -/
def earliest? (times : List Binary64) : Option Binary64 :=
  match times.filter Binary64.isFinite with
  | [] => none
  | first :: rest => some (rest.foldl Binary64.min first)

/-- Waits until some time has come, from alarm to alarm.  Each step before the last takes away an
alarm, so that one step more than there are alarms is enough. -/
def sleepUntil (time : Binary64) : Nat → World σ → World σ
  | 0, w => w
  | steps + 1, w =>
    let w := (w.moveTo (w.alarms.foldl Binary64.min time)).fireDue
    if w.isDue time then w else w.sleepUntil time steps

/-- Does what a wait has left to do; the alarms that are due meanwhile go off. -/
def settle (w : World σ) : World σ :=
  if w.unsettled then { w.fireDue with unsettled := false } else w

def sleep (w : World σ) (seconds : Binary64) : World σ :=
  if seconds.le .zero then w.giveWay
  else
    let time := w.now.add seconds
    let next := w.ring.settle
    if w.unsettled && w.isDue time then next else next.sleepUntil time (w.alarms.length + 1)

def deadline? (w : World σ) : Option Binary64 :=
  (w.token.remaining w.now).map w.now.add

/-- How a wait ends that the token can stop. -/
inductive Ending where
  /-- What is waited for is over. -/
  | finished
  /-- The token stops the wait. -/
  | stopped
  /-- Nothing will ever happen. -/
  | never
  deriving DecidableEq, Repr

/-- Waits until some time, if any, unless the token stops the wait: at once if it is cancelled or its
deadline has come, else at its deadline or the first alarm.  What comes at the same moment as an
alarm is over, but the deadline goes before what comes no earlier. -/
def contend (w : World σ) (time : Option Binary64) : Ending × World σ :=
  let deadline := w.deadline?
  if w.token.cancelled || deadline.any w.isDue then (.stopped, w.fireDue)
  else if w.alarms.any w.isDue then
    (if time.any w.isDue then .finished else .stopped, w.fireDue)
  else
    match earliest? (time.toList ++ deadline.toList ++ w.alarms) with
    | none => (.never, w)
    | some first =>
      let w := w.moveTo first
      let finishes := time.any fun t => w.isDue t && !deadline.any fun d => w.isDue d && d.le t
      (if finishes then .finished else .stopped, w.fireDue)

/-- Waits for something that takes its time, unless the token stops the wait.  What takes no time is
never stopped. -/
def outlast (w : World σ) : Delay → Ending × World σ
  | .none => (.finished, w.fireDue)
  | .after seconds =>
    if seconds.le .zero then (.finished, w.fireDue) else w.contend (some (w.now.add seconds))
  | .never => w.contend none

/-- Ends a wait.  One that is over leaves behind the watch on the token, unless that has fired. -/
def endWait (w : World σ) (ending : Ending) : World σ :=
  { w with unsettled := ending = .finished && !w.token.cancelled }

end World

end Pagescript
