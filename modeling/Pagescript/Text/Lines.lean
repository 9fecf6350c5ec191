/-!
# Lines

A text is cut into lines after every line boundary.  A carriage return and a line feed in a row are
one boundary.
-/

namespace Pagescript.Text

def isBoundary (c : Char) : Bool :=
  let code := c.toNat
  (0xa ≤ code && code ≤ 0xd) || (0x1c ≤ code && code ≤ 0x1e) || code = 0x85 || code = 0x2028 ||
    code = 0x2029

/-- The lines of a text, each with its boundary; `line` is the current one, reversed. -/
def cutLines (line : List Char) : List Char → List (List Char)
  | [] => if line = [] then [] else [line.reverse]
  | '\r' :: '\n' :: rest => ('\n' :: '\r' :: line).reverse :: cutLines [] rest
  | c :: rest =>
      if isBoundary c then (c :: line).reverse :: cutLines [] rest else cutLines (c :: line) rest

/-- The lines of a text, each with its boundary at the end. -/
def lines (s : List Char) : List (List Char) :=
  cutLines [] s

/-- The text before the first line boundary; a text of no characters has no first line. -/
def firstLine? (s : String) : Option String :=
  if s.isEmpty then none else some (String.ofList (s.toList.takeWhile fun c => !isBoundary c))

end Pagescript.Text
