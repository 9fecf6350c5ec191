import Pagescript.ErrorCode
import Pagescript.Value.Literal
/-!
# Issues

What is wrong with a document, and where.
-/

namespace Pagescript

/-- A step into a document: a name of a mapping or a position of a list. -/
inductive Segment where
  | key (name : String)
  | index (position : Int)
  deriving DecidableEq, Repr

namespace Segment

def toValue : Segment → Value
  | key name => .text name
  | index position => .int position

end Segment

/-- One more step of a path: an integer or a truth value in brackets, anything else after a point
unless the path is empty. -/
def extendPath (path : String) (part : Value) : String :=
  match part with
  | .int _ | .bool _ => path ++ "[" ++ part.plain ++ "]"
  | part => if path.isEmpty then part.plain else path ++ "." ++ part.plain

def formatPath (parts : List Value) : String :=
  parts.foldl extendPath ""

/-- A location as a path such as `steps[1].statements[0]`. -/
def formatLocation (loc : List Segment) : String :=
  formatPath (loc.map Segment.toValue)

/-- The form in which a document came. -/
inductive Notation where
  | value
  | text
  deriving DecidableEq, Repr

inductive Complaint where
  | missing
  | notText
  | notList (form : Notation)
  | notMapping (form : Notation)
  | notNumber
  | belowZero
  | notFlag
  | unreadableFlag
  | notReference
  | emptyText
  | notLiteral (expected : String)
  | unexpected
  /-- What should be the mapping of a titled schema is none. -/
  | notInstance (form : Notation) (title : String)
  | invalidJson
  /-- An action inside the document was refused. -/
  | nested (code : ErrorCode) (reason : String)
  deriving DecidableEq, Repr

namespace Complaint

/-- The word for the complaint. -/
def type : Complaint → String
  | missing => "missing"
  | notText => "string_type"
  | notList _ => "list_type"
  | notMapping _ => "dict_type"
  | notNumber => "float_type"
  | belowZero => "greater_than_equal"
  | notFlag => "bool_type"
  | unreadableFlag => "bool_parsing"
  | notReference => "string_pattern_mismatch"
  | emptyText => "string_too_short"
  | notLiteral _ => "literal_error"
  | unexpected => "extra_forbidden"
  | notInstance .. => "model_type"
  | invalidJson => "json_invalid"
  | nested code _ => code.name.toLower

def message : Complaint → String
  | missing => "Field required"
  | notText => "Input should be a valid string"
  | notList .value => "Input should be a valid list"
  | notList .text => "Input should be a valid array"
  | notMapping .value => "Input should be a valid dictionary"
  | notMapping .text => "Input should be an object"
  | notNumber => "Input should be a valid number"
  | belowZero => "Input should be greater than or equal to 0"
  | notFlag => "Input should be a valid boolean"
  | unreadableFlag => "Input should be a valid boolean, unable to interpret input"
  | notReference => "String should match pattern '^\\$.+'"
  | emptyText => "String should have at least 1 character"
  | notLiteral expected => "Input should be " ++ Text.quote expected
  | unexpected => "Extra inputs are not permitted"
  | notInstance .value title => "Input should be a valid dictionary or instance of " ++ title
  | notInstance .text _ => "Input should be an object"
  | invalidJson => "Invalid JSON"
  | nested _ reason => reason

end Complaint

structure Issue where
  complaint : Complaint
  loc : List Segment
  deriving DecidableEq, Repr

namespace Issue

def here (complaint : Complaint) : Issue :=
  ⟨complaint, []⟩

/-- The issue as seen from one level further out. -/
def under (segment : Segment) (issue : Issue) : Issue :=
  { issue with loc := segment :: issue.loc }

def toValue (issue : Issue) : Value :=
  .mapping [("type", .text issue.complaint.type), ("loc", .tuple (issue.loc.map Segment.toValue)),
    ("msg", .text issue.complaint.message)]

end Issue

end Pagescript
