import Excerpt.Execution.Value
import Excerpt.Text.Blank

/-!
Verdicts on a source: it can run alone, or why not.
-/
namespace Excerpt
open Excerpt.Execution Excerpt.Names

inductive Verdict
  | valid
  /-- The line and column are absent for text that could not be read at all. -/
  | syntaxInvalid (place : Option (Nat × Nat))
  | hasAsync (line : Nat)
  | hasWildcardImport (line : Nat)
  | undefinedReference (name : String) (line : Nat)
  | importRejected (path reason : String)
  | executionError (exception message : String)
deriving DecidableEq, Repr

namespace Verdict

def isValid : Verdict → Bool
  | .valid => true
  | _ => false

def tag : Verdict → String
  | .valid => "valid"
  | .syntaxInvalid _ => "syntax_invalid"
  | .hasAsync _ => "has_async"
  | .hasWildcardImport _ => "has_wildcard_import"
  | .undefinedReference _ _ => "undefined_reference"
  | .importRejected _ _ => "import_rejected"
  | .executionError _ _ => "execution_error"

/-- One line for a person to read. -/
def display : Verdict → String
  | .valid => "valid"
  | .syntaxInvalid (some (line,column)) =>
    "syntax error at line " ++ toString line ++ ", column " ++ toString column
  | .syntaxInvalid none => "syntax error at line ?, column ?"
  | .hasAsync line => "async function at line " ++ toString line
  | .hasWildcardImport line => "wildcard import at line " ++ toString line
  | .undefinedReference name line =>
    "name '" ++ name ++ "' is not defined (line " ++ toString line ++ ")"
  | .importRejected path reason =>
    if path.isEmpty then "import rejected: " ++ reason
    else "import of '" ++ path ++ "' rejected: " ++ reason
  | .executionError exception message => exception ++ ": " ++ message

end Verdict

/-- What stands before the first occurrence of `mark`. -/
def beforeMark (mark : List Char) : List Char → Option (List Char)
  | [] => if mark.isEmpty then some [] else none
  | c :: cs =>
    if mark.isPrefixOf (c :: cs) then some []
    else (beforeMark mark cs).map (c :: ·)

/-- The name in a message that says that a name is not defined; empty for any other message. -/
def undefinedName (message : String) : String :=
  let opening := "name '".toList
  let text := message.toList
  if opening.isPrefixOf text then
    String.ofList ((beforeMark "' is not defined".toList (text.drop opening.length)).getD [])
  else ""

/-- The verdict on a run that failed. An exception raised by hand counts by its class. -/
def Execution.Raised.verdict : Raised → Verdict
  | .nameError name line => .undefinedReference name line
  | .importError path reason => .importRejected path reason
  | .syntaxError line column => .syntaxInvalid (some (line,column))
  | .other exception message line =>
    let ancestry := exceptionAncestry exception
    if ancestry.contains "NameError" then .undefinedReference (undefinedName message) line
    else if ancestry.contains "ImportError" then .importRejected "" message
    else .executionError exception message

end Excerpt
