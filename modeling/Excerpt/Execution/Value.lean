import Excerpt.Names.Exception

/-!
What is known of a value while a program runs, and what a run can fail with.
-/
namespace Excerpt.Execution
open Excerpt.Names

/-- A value is the module at a path, `None`, or anything else. -/
inductive Value
  | unknown
  | module (path : String)
  | nothing
deriving DecidableEq, Repr, Inhabited

namespace Value

/-- The truth of a value, if it is known. -/
def truth : Value → Option Bool
  | .nothing => some false
  | .module _ => some true
  | .unknown => none

/-- The name of the type in messages. -/
def typeName : Value → String
  | .nothing => "NoneType"
  | .module _ => "module"
  | .unknown => "object"

end Value

inductive Raised
  | nameError (name : String) (line : Nat)
  | importError (path reason : String)
  | syntaxError (line column : Nat)
  /-- Any other exception; the line is that of an explicit `raise`, otherwise zero. -/
  | other (exception message : String) (line : Nat)
deriving DecidableEq, Repr

namespace Raised

def exception : Raised → String
  | .nameError _ _ => "NameError"
  | .importError _ _ => "ImportError"
  | .syntaxError _ _ => "SyntaxError"
  | .other exception _ _ => exception

/-- Whether a handler for the class `handled` catches the exception. -/
def caughtBy (r : Raised) (handled : String) : Bool :=
  (exceptionAncestry r.exception).contains handled

/-- Faults that are found before anything runs. -/
def isSyntaxError : Raised → Bool
  | .syntaxError _ _ => true
  | _ => false

def typeError (message : String) : Raised := .other "TypeError" message 0

def attributeError (message : String) : Raised := .other "AttributeError" message 0

end Raised

end Excerpt.Execution
