import ObjectModel.Text.Quoted

/-!
# Errors of the object model

Every error is the fault of a program, and nothing recovers from one. An error
is its cause; the wording is in one function.
-/
namespace ObjectModel

/-- Why defining or calling a method failed. -/
inductive ObjectError where
  /-- No level of the receiver defines the method and no handler answers. -/
  | undefinedMethod (method receiver : String)
  /-- The method does not accept this number of arguments. -/
  | arityMismatch (method : String) (given expected : Nat)
  /-- A value that is not a method was given where a body was expected. -/
  | invalidMethod (method reason : String)
  /-- No level above the running one defines the method. -/
  | noSuperMethod (method receiver : String)
  /-- The parent descends from the child. -/
  | inheritanceCycle (child parent : String)
  /-- A body gave up with a message of its own. -/
  | raised (message : String)
  deriving DecidableEq, Repr

namespace ObjectError

/-- The wording of an error. -/
def message : ObjectError → String
  | undefinedMethod method receiver => "undefined method '" ++ method ++ "' for " ++ receiver
  | arityMismatch method given expected =>
    "wrong number of arguments for '" ++ method ++ "' (given " ++ toString given ++
      ", expected " ++ toString expected ++ ")"
  | invalidMethod method reason => "invalid method '" ++ method ++ "': " ++ reason
  | noSuperMethod method receiver =>
    "no superclass method '" ++ method ++ "' for " ++ receiver
  | inheritanceCycle child parent =>
    "cannot make " ++ parent ++ " the parent of " ++ child ++ ": " ++ child ++
      " is already an ancestor of " ++ parent
  | raised message => message

/-- The method an error is about, if it is about one. -/
def method? : ObjectError → Option String
  | undefinedMethod method _ => some method
  | arityMismatch method _ _ => some method
  | invalidMethod method _ => some method
  | noSuperMethod method _ => some method
  | inheritanceCycle _ _ => none
  | raised _ => none

/-- The name of the cause. -/
def cause : ObjectError → String
  | undefinedMethod _ _ => "UndefinedMethod"
  | arityMismatch _ _ _ => "ArityMismatch"
  | invalidMethod _ _ => "InvalidMethod"
  | noSuperMethod _ _ => "NoSuperMethod"
  | inheritanceCycle _ _ => "InheritanceCycle"
  | raised _ => "Raised"

/-- What the cause carries, by field. -/
def fields : ObjectError → List (String × String)
  | undefinedMethod method receiver =>
    [("method", Text.quote method), ("receiver", Text.quote receiver)]
  | arityMismatch method given expected =>
    [("method", Text.quote method), ("given", toString given), ("expected", toString expected)]
  | invalidMethod method reason =>
    [("method", Text.quote method), ("reason", Text.quote reason)]
  | noSuperMethod method receiver =>
    [("method", Text.quote method), ("receiver", Text.quote receiver)]
  | inheritanceCycle child parent =>
    [("child", Text.quote child), ("parent", Text.quote parent)]
  | raised message => [("message", Text.quote message)]

def debug (e : ObjectError) : String := Text.record e.cause e.fields

end ObjectError
end ObjectModel
