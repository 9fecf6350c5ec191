import Pagescript.Archive
import Pagescript.Issue
import Pagescript.Json.Reader
import Pagescript.Page.Call
import Pagescript.Value.Room
/-!
# Faults

What can go wrong while something is done to a browser or to a file.
-/

namespace Pagescript

/-- The failure of an operation of the browser, as the program sees it. -/
inductive SurfaceError where
  | failed (message : String) (operation : String) (details : Fields)
  | notFound (selector : String)

namespace SurfaceError

def message : SurfaceError → String
  | failed message .. => message
  | notFound selector => "no element matches " ++ Text.quote selector

def operation : SurfaceError → String
  | failed _ operation _ => operation
  | notFound _ => "query_one"

def details : SurfaceError → Fields
  | failed _ _ details => details
  | notFound selector => [("selector", .text selector)]

end SurfaceError

/-- What can stop an interaction other than its own result. -/
inductive Fault where
  | surface (e : SurfaceError)
  | page (f : PageFault)
  /-- Something is to be taken out of a row that does not reach so far. -/
  | outOfRange
  /-- A call that never ends is waited for. -/
  | hung
  /-- An event is to be written to a log that is closed. -/
  | closedLog
  /-- An event cannot be put into a line. -/
  | unwritable (e : WriteError)
  /-- The file of a log cannot be opened. -/
  | file (e : FileError)
  /-- A document that is refused is nested too deep to be looked into. -/
  | nestedTooDeep (container : Json.Container)
  /-- A handler reads a field that the action it was given does not have. -/
  | missingField (title field : String)
  /-- A selector is to be resolved and there is none. -/
  | missingSelector
  /-- A call is to be made up from a text that is no reference. -/
  | badReference (issues : List Issue)

def PageFault.message : PageFault → String
  | error message | timeout message | foreign message => message

def Fault.message : Fault → String
  | surface e => e.message
  | page f => f.message
  | outOfRange => "list index out of range"
  | hung => "the call never ends"
  | closedLog => "I/O operation on closed file."
  | unwritable e => e.message
  | file e => e.message
  | nestedTooDeep container =>
    "maximum recursion depth exceeded while decoding a JSON " ++ container.word ++
      " from a unicode string"
  | missingField title field =>
    Text.quote title ++ " object has no attribute " ++ Text.quote field
  | missingSelector => "'NoneType' object has no attribute 'startswith'"
  | badReference issues => (issues.head?.map (·.complaint.message)).getD ""

end Pagescript
