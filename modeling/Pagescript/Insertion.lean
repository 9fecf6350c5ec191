/-!
# Sorting by insertion

A stable way of sorting that asks as few questions as it can, for an order that may have no answer.
The longest start of a row that is in order is left as it is; one that is strictly in reverse order
is turned round.  Each of the others is then put behind all that do not come after it, where the
place is found by halving.
-/

namespace Pagescript.Insertion

variable {α ε : Type}

/-- An order that may have no answer for two items. -/
abbrev Order (ε α : Type) := α → α → Except ε Bool

/-- The items that go on as the row began: each comes before the one ahead of it, or none does. -/
def run (before : Order ε α) (reversed : Bool) (last : α) : List α → Except ε (List α × List α)
  | [] => .ok ([], [])
  | x :: rest => do
    if (← before x last) = reversed then
      let (more, rest) ← run before reversed x rest
      return (x :: more, rest)
    else return ([], x :: rest)

/-- The place of an item among those of a row from one position up to another. -/
def place (before : Order ε α) (x : α) (row : List α) (low high : Nat) : Except ε Nat :=
  if low < high then
    let middle := low + (high - low) / 2
    match row[middle]? with
    | none => .ok low
    | some y => do
      if ← before x y then place before x row low middle else place before x row (middle + 1) high
  else .ok low
termination_by high - low

def insert (before : Order ε α) (row : List α) (x : α) : Except ε (List α) := do
  let i ← place before x row 0 row.length
  return row.take i ++ x :: row.drop i

def sort (before : Order ε α) : List α → Except ε (List α)
  | x :: y :: rest => do
    let reversed ← before y x
    let (more, rest) ← run before reversed y rest
    let start := x :: y :: more
    rest.foldlM (insert before) (if reversed then start.reverse else start)
  | row => .ok row

end Pagescript.Insertion
