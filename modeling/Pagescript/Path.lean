/-!
# Paths

Paths of files, freed of empty parts and of parts that stay where they are.
-/

namespace Pagescript

structure Path where
  /-- Empty for a relative path; two slashes are kept apart from one. -/
  root : String
  parts : List String
  deriving DecidableEq, Repr

namespace Path

/-- The parts of a text between slashes; `part` is the current one, reversed. -/
def split (part : List Char) : List Char → List String
  | [] => [String.ofList part.reverse]
  | c :: rest =>
    if c = '/' then String.ofList part.reverse :: split [] rest else split (c :: part) rest

/-- Exactly two slashes at the beginning are a root of their own. -/
def rootOf (slashes : Nat) : String :=
  if slashes = 0 then "" else if slashes = 2 then "//" else "/"

def ofString (s : String) : Path :=
  let cs := s.toList
  { root := rootOf (cs.takeWhile (· = '/')).length
    parts := (split [] cs).filter fun part => part ≠ "" && part ≠ "." }

/-- A path as seen from another one. -/
def append (base : Path) (s : String) : Path :=
  let path := ofString s
  if path.root = "" then { base with parts := base.parts ++ path.parts } else path

def toString (path : Path) : String :=
  if path.root = "" && path.parts.isEmpty then "." else path.root ++ "/".intercalate path.parts

end Path

end Pagescript
