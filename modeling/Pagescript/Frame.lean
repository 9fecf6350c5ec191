import Pagescript.Value.Basic
/-!
# Frames

Where an evaluation stands: the path to the action, how deep it is nested, the element that an
enclosing loop has bound, and the calls it is inside of.
-/

namespace Pagescript

structure Frame (ε : Type) where
  source : String
  depth : Int := 0
  element : Option ε := none
  calls : List String := []

namespace Frame

variable {ε : Type}

/-- Enters an action: one level deeper, its name at the end of the path. -/
def enter (frame : Frame ε) (kind : String) : Frame ε :=
  { frame with source := frame.source ++ "." ++ kind, depth := frame.depth + 1 }

/-- Goes to an item of a store action. -/
def field (frame : Frame ε) (name : String) : Frame ε :=
  { frame with source := frame.source ++ ".field[" ++ name ++ "]" }

/-- Goes to a turn of a loop. -/
def item (frame : Frame ε) (index : Int) : Frame ε :=
  { frame with source := frame.source ++ "[" ++ toString index ++ "]" }

def bind (frame : Frame ε) (element : Option ε) : Frame ε :=
  { frame with element }

def calling (frame : Frame ε) (name : String) : Frame ε :=
  { frame with calls := frame.calls ++ [name] }

end Frame

end Pagescript
