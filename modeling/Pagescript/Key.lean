import Pagescript.Text.Lower
/-!
# Keys

The names of the keys of a keyboard.  A name may be written in any case, some keys have short names,
and a combination is a row of names with `+` between them.
-/

namespace Pagescript.Key

def named : List String :=
  ["Backspace", "Tab", "Enter", "Shift", "Control", "Alt", "Meta", "CapsLock", "Escape", "Space",
    "PageUp", "PageDown", "End", "Home", "ArrowLeft", "ArrowUp", "ArrowRight", "ArrowDown", "Insert",
    "Delete", "F1", "F2", "F3", "F4", "F5", "F6", "F7", "F8", "F9", "F10", "F11", "F12"]

/-- The written forms in lower case, each with the key it stands for. -/
def table : List (String × String) :=
  named.map (fun name => (Text.lower name, name)) ++
    [("esc", "Escape"), ("return", "Enter"), ("del", "Delete"), ("ctrl", "Control"), (" ", "Space")]

def lookup (written fallback : String) : String :=
  (table.lookup written).getD fallback

/-- The parts of a combination; `part` is the current one, reversed. -/
def split (part : List Char) : List Char → List String
  | [] => [String.ofList part.reverse]
  | c :: rest => if c = '+' then String.ofList part.reverse :: split [] rest else split (c :: part) rest

def parts (key : String) : List String :=
  split [] key.toList

/-- Whether the key is a combination: a `+` stands between other characters. -/
def isCombination (key : String) : Bool :=
  let inner := ((key.toList.dropWhile (· = '+')).reverse.dropWhile (· = '+')).reverse
  inner.contains '+'

/-- A part of a combination, or a key that is none.  A single character stands for itself, but for
the space. -/
def single (key : String) : String :=
  if key.length = 1 then lookup key key else lookup (Text.lower key) key

def normalize (key : String) : String :=
  if key.length ≠ 1 && isCombination key then "+".intercalate ((parts key).map single) else single key

end Pagescript.Key
