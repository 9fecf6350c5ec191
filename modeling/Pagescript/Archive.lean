import Pagescript.Entries
import Pagescript.Path
import Pagescript.Text.Quoted
/-!
# Archives

The files and directories that paths lead to from a working directory.  What an absolute path leads
to is not kept: nothing can be read there, and everything can be written.
-/

namespace Pagescript

structure Archive where
  /-- The text of each file, by its name: the steps that lead to it, divided by slashes. -/
  files : Entries String := []
  directories : List String := []

/-- What keeps a file or a directory from being made. -/
inductive FileTrouble where
  | notFound
  | present
  | notDirectory
  | isDirectory
  | nameTooLong
  /-- The path holds a character that ends it. -/
  | endsEarly
  deriving DecidableEq, Repr

structure FileError where
  trouble : FileTrouble
  path : Path

namespace FileError

def message (e : FileError) : String :=
  let numbered (number : Nat) (reason : String) : String :=
    "[Errno " ++ toString number ++ "] " ++ reason ++ ": " ++ Text.quote e.path.toString
  match e.trouble with
  | .notFound => numbered 2 "No such file or directory"
  | .present => numbered 17 "File exists"
  | .notDirectory => numbered 20 "Not a directory"
  | .isDirectory => numbered 21 "Is a directory"
  | .nameTooLong => numbered 36 "File name too long"
  | .endsEarly => "embedded null byte"

end FileError

namespace Archive

inductive Item where
  | file
  | directory
  deriving DecidableEq, Repr

def nameOf (place : List String) : String :=
  "/".intercalate place

/-- What stands at a place.  Above the working directory there are directories only. -/
def item? (archive : Archive) (place : List String) : Option Item :=
  if place.all (· = "..") || archive.directories.contains (nameOf place) then some .directory
  else if Entries.contains archive.files (nameOf place) then some .file
  else none

inductive Target where
  /-- The steps from the working directory on, and what is there. -/
  | place (steps : List String) (item : Option Item)
  /-- A part before the last is not there. -/
  | missing
  /-- An absolute path leads away, to a directory or to what is not known. -/
  | elsewhere (item : Option Item)
  | trouble (t : FileTrouble)

/-- The most bytes of a part of a path. -/
def maxPart : Nat := 255

/-- The most bytes of a path. -/
def maxPath : Nat := 4095

/-- One step up from a place, which is given by its steps in reverse. -/
def stepUp : List String → List String
  | [] => [".."]
  | step :: back => if step = ".." then ".." :: step :: back else back

/-- Follows the parts of a path from a directory on, which is given by its steps in reverse. -/
def follow (archive : Archive) (back : List String) : List String → Target
  | [] => .place back.reverse (some .directory)
  | part :: rest =>
    if part = ".." then archive.follow (stepUp back) rest
    else if maxPart < part.utf8ByteSize then .trouble .nameTooLong
    else
      let place := (part :: back).reverse
      match archive.item? place, rest with
      | item, [] => .place place item
      | some .directory, rest => archive.follow (part :: back) rest
      | some .file, _ => .trouble .notDirectory
      | none, _ => .missing

/-- The directories that every system has below its root. -/
def systemDirectories : List String :=
  ["bin", "dev", "etc", "home", "lib", "opt", "proc", "root", "sbin", "sys", "tmp", "usr", "var"]

/-- Follows the parts of a path from the root, or from a directory below it, as far as is known. -/
def followRoot (below : Bool) : List String → Target
  | [] => .elsewhere (some .directory)
  | part :: rest =>
    if part = ".." then followRoot false rest
    else if maxPart < part.utf8ByteSize then .trouble .nameTooLong
    else if !below && systemDirectories.contains part then followRoot true rest
    else .elsewhere none

def target (archive : Archive) (path : Path) : Target :=
  if path.toString.toList.contains (Char.ofNat 0) then .trouble .endsEarly
  else if maxPath < path.toString.utf8ByteSize then .trouble .nameTooLong
  else if path.root = "" then archive.follow [] path.parts
  else followRoot false path.parts

/-- A change of an archive.  What was done before it failed stays. -/
abbrev Change (α : Type) := ExceptT FileError (StateM Archive) α

/-- Makes the directory at a path, whose parent has to be there, unless it is there already. -/
def makeDirectory (path : Path) : Change Unit := do
  match (← get).target path with
  | .place _ (some .directory) | .elsewhere _ => return ()
  | .place place none => modify fun a => { a with directories := a.directories ++ [nameOf place] }
  | .place _ (some .file) => throw ⟨.present, path⟩
  | .trouble t => throw ⟨t, path⟩
  | .missing => throw ⟨.notFound, path⟩

/-- Makes the directory at a path given by its parts in reverse, after the directories on the way as
far as they are missing. -/
def makeDirectories (root : String) : List String → Change Unit
  | [] => makeDirectory ⟨root, []⟩
  | part :: back => do
    let path : Path := ⟨root, (part :: back).reverse⟩
    match (← get).target path with
    | .missing => makeDirectories root back
    | _ => pure ()
    makeDirectory path

/-- Adds to the end of a file, which is made if need be. -/
def append (archive : Archive) (name text : String) : Archive :=
  { archive with
    files := Entries.insert archive.files name ((Entries.get? archive.files name).getD "" ++ text) }

/-- Opens the file at a path to add to it, and gives its name if it is kept. -/
def openFile (path : Path) : Change (Option String) := do
  match (← get).target path with
  | .place _ (some .directory) => throw ⟨.isDirectory, path⟩
  | .place place _ => do
    modify (·.append (nameOf place) "")
    return some (nameOf place)
  | .elsewhere (some .directory) => throw ⟨.isDirectory, path⟩
  | .elsewhere _ => return none
  | .trouble t => throw ⟨t, path⟩
  | .missing => throw ⟨.notFound, path⟩

def ofFile (path : Path) (text : String) : Archive :=
  let change : Change Unit := do
    makeDirectories path.root path.parts.dropLast.reverse
    let name ← openFile path
    modify fun a => (name.map (a.append · text)).getD a
  (change {}).2

def read? (archive : Archive) (path : Path) : Except FileError (Option String) :=
  match archive.target path with
  | .place _ (some .directory) | .elsewhere (some .directory) => .error ⟨.isDirectory, path⟩
  | .place place _ => .ok (Entries.get? archive.files (nameOf place))
  | .trouble .nameTooLong => .error ⟨.nameTooLong, path⟩
  | _ => .ok none

/-- The files below the working directory. -/
def inside (archive : Archive) : Entries String :=
  archive.files.filter fun entry => !("../".isPrefixOf entry.1)

end Archive

end Pagescript
