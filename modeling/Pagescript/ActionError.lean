import Pagescript.ErrorCode
import Pagescript.Json.Writer
import Pagescript.Value.Equal
import Pagescript.Value.Layout
/-!
# Action errors

The failure of an action: what went wrong, where in the program, and the action as it was written.
-/

namespace Pagescript

structure ActionError where
  code : ErrorCode
  message : String
  /-- The path from the top of the program to the action. -/
  source : String
  /-- The action as it was written. -/
  action : Value
  payload : List Value
  /-- The trace at the failure, if one was kept. -/
  stack : String := ""

namespace ActionError

/-- How much more room there is for a literal than for JSON. -/
def literalMargin : Nat := 3

def spelled (room : Nat) (v : Value) : Except WriteError String :=
  match v.literalHindrance? room with
  | some e => .error e
  | none => .ok v.literal

/-- A value in a report: what cannot be written as JSON is replaced by its literal, unless it is
because there is no room. -/
def reported (room : Nat) (v : Value) : Except WriteError Value :=
  match Json.hindrance? .strict room v with
  | none => .ok v
  | some (.tooDeep task) => .error (.tooDeep task)
  | some _ => (spelled (room + literalMargin) v).map .text

def report (e : ActionError) (room : Nat) : Except WriteError Fields := do
  let payload ← e.payload.mapM (reported room)
  return [("code", .text e.code.name), ("message", .text e.message), ("source", .text e.source),
    ("action", e.action), ("payload", .list payload)]

/-- The error and its trace, laid out over lines. -/
def dump (e : ActionError) (room : Nat) : Except WriteError String := do
  let v := Value.mapping ((← e.report room) ++ [("stack", .text e.stack)])
  let _ ← spelled room v
  return Layout.value 0 0 v

def summary (e : ActionError) : String :=
  e.code.name ++ " at " ++ e.source ++ ": " ++ e.message

/-- Equality of errors; the trace does not count. -/
def same (a b : ActionError) : Bool :=
  a.code = b.code && a.message = b.message && a.source = b.source &&
    a.action.same b.action && (Value.tuple a.payload).same (.tuple b.payload)

end ActionError

end Pagescript
