/-!
# Error codes

The kinds of failure that stop the evaluation of a program.
-/

namespace Pagescript

inductive ErrorCode where
  | malformedAction
  | typeMismatch
  | unknownAction
  | unknownCustomAction
  | unknownStoreKey
  | unknownSelector
  | userRaised
  | recursionLimit
  | cancelled
  | timeout
  | elementNotFound
  | surfaceError
  deriving DecidableEq, Repr

namespace ErrorCode

def all : List ErrorCode :=
  [malformedAction, typeMismatch, unknownAction, unknownCustomAction, unknownStoreKey,
    unknownSelector, userRaised, recursionLimit, cancelled, timeout, elementNotFound, surfaceError]

def name : ErrorCode → String
  | malformedAction => "MALFORMED_ACTION"
  | typeMismatch => "TYPE_MISMATCH"
  | unknownAction => "UNKNOWN_ACTION"
  | unknownCustomAction => "UNKNOWN_CUSTOM_ACTION"
  | unknownStoreKey => "UNKNOWN_STORE_KEY"
  | unknownSelector => "UNKNOWN_SELECTOR"
  | userRaised => "USER_RAISED"
  | recursionLimit => "RECURSION_LIMIT"
  | cancelled => "CANCELLED"
  | timeout => "TIMEOUT"
  | elementNotFound => "ELEMENT_NOT_FOUND"
  | surfaceError => "SURFACE_ERROR"

def ofName? (s : String) : Option ErrorCode :=
  all.find? (·.name == s)

/-- Whether the failure is a lookup of a name that stands for an action or a stored value. -/
def isUnknownReference : ErrorCode → Bool
  | unknownAction | unknownCustomAction | unknownStoreKey => true
  | _ => false

end ErrorCode

end Pagescript
