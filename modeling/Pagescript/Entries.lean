/-!
# Ordered entries

Bindings of names in the order in which they were first made.  Binding a name again replaces its
value and keeps its place.
-/

namespace Pagescript

abbrev Entries (α : Type) := List (String × α)

namespace Entries

variable {α : Type}

def get? (entries : Entries α) (key : String) : Option α :=
  List.lookup key entries

def contains (entries : Entries α) (key : String) : Bool :=
  entries.any (·.1 == key)

def keys (entries : Entries α) : List String :=
  entries.map (·.1)

def insert (entries : Entries α) (key : String) (value : α) : Entries α :=
  match entries with
  | [] => [(key, value)]
  | (k, v) :: rest => if k = key then (k, value) :: rest else (k, v) :: insert rest key value

/-- Binds the names of a batch, one after the other. -/
def update (entries batch : Entries α) : Entries α :=
  batch.foldl (fun acc entry => insert acc entry.1 entry.2) entries

/-- The bindings that a list of entries with repeated names amounts to. -/
def ofList (entries : List (String × α)) : Entries α :=
  update [] entries

end Entries

end Pagescript
