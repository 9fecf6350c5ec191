import Pagescript.Fault
import Pagescript.World.Time
/-!
# Interactions

Computations against a world that may stop with a fault.  An interaction with the browser begins,
takes its time, and then ends; it is either awaited to its end or raced against the token.
-/

namespace Pagescript

abbrev Interaction (σ α : Type) := ExceptT Fault (StateM (World σ)) α

/-- A piece of work that has begun: how long it will take, and what happens at its end. -/
structure Pending (σ α : Type) where
  delay : Delay
  finish : Interaction σ α

/-- A piece of work that can be begun. -/
def Work (σ α : Type) := World σ → Pending σ α × World σ

namespace Work

variable {σ α : Type}

def sleep (seconds : Binary64) : Work σ Unit := fun w =>
  (⟨.after seconds, pure ()⟩, w)

def act (page : Page σ) (c : Call) : Interaction σ c.Answer := fun w =>
  let (answer, next) := page.act c w.page
  (answer.mapError .page, { w with page := next })

/-- A call on the page.  It is recorded as it begins. -/
def call (page : Page σ) (c : Call) : Work σ c.Answer := fun w =>
  let (promise, next) := page.start c w.page
  let finish := match promise.fault with
    | some f => throw (.page f)
    | none => act page c
  (⟨promise.delay, finish⟩, { w.addCall c with page := next })

/-- The same work, with what happens at its end changed. -/
def mapFinish (f : Interaction σ α → Interaction σ α) (work : Work σ α) : Work σ α := fun w =>
  let (pending, next) := work w
  ({ pending with finish := f pending.finish }, next)

end Work

namespace Interaction

variable {σ α : Type}

/-- The item at a position of a row, which counts from the end if it is negative. -/
def itemAt (xs : List α) (position : Int) : Interaction σ α :=
  let i := if position < 0 then position + xs.length else position
  match if i < 0 then none else xs[i.toNat]? with
  | some x => return x
  | none => throw .outOfRange

def begin (work : Work σ α) : Interaction σ (Pending σ α) := fun w =>
  let (pending, next) := work w
  (.ok pending, next)

/-- Waits for the end of a piece of work, whatever the token says. -/
def await (work : Work σ α) : Interaction σ α := do
  let pending ← begin work
  match pending.delay with
  | .none => pending.finish
  | .after seconds => do
    modify (·.sleep seconds)
    pending.finish
  | .never => throw .hung

def interrupted : Interaction σ Interruption := do
  let reason := if (← get).token.cancelled then Interruption.cancelled else .timeout
  modify (·.log LogRecord.cancellationLogger Level.debug
    ("Blocking operation interrupted (" ++ reason.word ++ ")"))
  return reason

/-- Waits for a delay to be over, unless the token stops the wait. -/
def outlast (delay : Delay) : Interaction σ World.Ending := fun w =>
  let (ending, next) := w.outlast delay
  (.ok ending, next.endWait ending)

/-- Waits for the end of a piece of work unless the token stops the wait.  Once the token has fired
the work is not begun at all. -/
def race (work : Work σ α) : Interaction σ (Except Interruption α) := do
  let w ← get
  match w.token.reason? w.now with
  | some reason => return .error reason
  | none => do
    modify World.ring
    let pending ← begin work
    match ← outlast pending.delay with
    | .finished => .ok <$> pending.finish
    | .stopped => .error <$> interrupted
    | .never => throw .hung

end Interaction

end Pagescript
