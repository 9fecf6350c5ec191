import Pagescript.Insertion
import Pagescript.Json.Writer
import Pagescript.Value.Order
import Pagescript.Value.Pairs
/-!
# The store

The values that a program has put aside under names, in the order in which the names were first
used.
-/

namespace Pagescript

structure Store where
  entries : List Binding

/-- Why a store cannot be written as JSON. -/
inductive StoreError where
  /-- A name has no form in JSON. -/
  | name (type : String)
  /-- There is no order of two names. -/
  | unordered (kinds : Unordered)
  /-- A name or a value is not written. -/
  | unwritable (e : WriteError)

def StoreError.message : StoreError → String
  | name type => "keys must be str, int, float, bool or None, not " ++ type
  | unordered kinds =>
    "'<' not supported between instances of '" ++ kinds.left ++ "' and '" ++ kinds.right ++ "'"
  | unwritable e => e.message

namespace Store

def empty : Store := ⟨[]⟩

def get? (s : Store) (name : Name) : Option Value :=
  (s.entries.find? (·.1.same name)).map (·.2)

def contains (s : Store) (name : Name) : Bool :=
  s.entries.any (·.1.same name)

def names (s : Store) : List Name :=
  s.entries.map (·.1)

def size (s : Store) : Nat :=
  s.entries.length

/-- Binds a name; one that is bound already keeps its place. -/
def insert (name : Name) (v : Value) : List Binding → List Binding
  | [] => [(name, v)]
  | (n, old) :: rest => if n.same name then (n, v) :: rest else (n, old) :: insert name v rest

def set (s : Store) (name : Name) (v : Value) : Store :=
  ⟨insert name v s.entries⟩

/-- Writes a batch of bindings; of two with one name the later wins. -/
def bind (s : Store) (batch : List Binding) : Store :=
  batch.foldl (fun s binding => s.set binding.1 binding.2) s

/-- Writes a batch of entries. -/
def commit (s : Store) (batch : Fields) : Store :=
  s.bind (batch.map fun (key, v) => (.text key, v))

/-- Writes the bindings that a value gives, as far as it gives any. -/
def commitValue (s : Store) (v : Value) : Store × Option PairError :=
  let (batch, e) := v.bindings
  (s.bind batch, e)

/-- The store that holds what a value gives; a value that counts as false gives nothing. -/
def ofValue (v : Value) : Except PairError Store :=
  if v.truthy then
    match empty.commitValue v with
    | (s, none) => .ok s
    | (_, some e) => .error e
  else .ok empty

/-! ### As JSON -/

/-- A name in JSON, where all names are texts. -/
def nameText (style : Json.Style) : Name → Except StoreError String
  | .text s => .ok s
  | .other v =>
    match v with
    | .null | .bool _ | .int _ | .float _ => (Json.write style 0 v).mapError .unwritable
    | v => .error (.name (if style.indent.isSome then v.typeName else v.fullTypeName))

/-- The entries in the order of their names. -/
def sortedEntries (entries : List Binding) : Except StoreError (List Binding) :=
  (Insertion.sort (fun x y => x.1.toValue.before y.1.toValue) entries).mapError .unordered

/-- The text of an entry. -/
def entryText (style : Json.Style) (room : Nat) (entry : Binding) : Except StoreError String := do
  let name ← nameText style entry.1
  match Json.hindrance? style room entry.2 with
  | some e => throw (.unwritable e)
  | none => return style.entry name (Json.render style 1 entry.2)

def toJson (s : Store) (style : Json.Style) (room : Nat) : Except StoreError String := do
  if let some e := shortage? .encode room 1 then throw (.unwritable e)
  let entries ← if style.sorted then sortedEntries s.entries else .ok s.entries
  return style.enclose 0 "\x7b" "\x7d" (← entries.mapM (entryText style (room - 1)))

end Store

end Pagescript
