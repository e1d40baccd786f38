import Excerpt.Json.Reader
import Excerpt.Text.Utf8
import Excerpt.Validation

/-!
Verdicts from a process. The process prints its verdict as a line of JSON behind a marker, and may
print anything else around it: the last such line counts.
-/
namespace Excerpt
open Excerpt.Text

namespace Verdict

/-- The fields of a verdict besides its tag. -/
def fields : Verdict → List (String × Json)
  | .valid => []
  | .syntaxInvalid (some (line,column)) => [("line",.ofNat line),("column",.ofNat column)]
  | .syntaxInvalid none => [("line",.number "?"),("column",.number "?")]
  | .hasAsync line => [("line",.ofNat line)]
  | .hasWildcardImport line => [("line",.ofNat line)]
  | .undefinedReference name line => [("name",.string name),("line",.ofNat line)]
  | .importRejected path reason => [("module",.string path),("reason",.string reason)]
  | .executionError exception message =>
    [("exception",.string exception),("message",.string message)]

def toJson (v : Verdict) : Json := .object (("verdict",.string v.tag) :: v.fields)

end Verdict

/-- The field of a name, which must be there once. -/
def onlyField (name : String) (fields : List (String × Json)) : Option Json :=
  match fields.filter (·.1 == name) with
  | [field] => some field.2
  | _ => none

def textField (name : String) (fields : List (String × Json)) : Option String :=
  (onlyField name fields).bind Json.string?

def naturalField (name : String) (fields : List (String × Json)) : Option Nat :=
  (onlyField name fields).bind Json.natural?

/-- The verdict that an object stands for. Fields that the verdict does not have are ignored. -/
def verdictOf? (j : Json) : Option Verdict := do
  let fields ← j.fields?
  match ← textField "verdict" fields with
  | "valid" => return .valid
  | "syntax_invalid" =>
    return .syntaxInvalid (some (← naturalField "line" fields,← naturalField "column" fields))
  | "has_async" => return .hasAsync (← naturalField "line" fields)
  | "has_wildcard_import" => return .hasWildcardImport (← naturalField "line" fields)
  | "undefined_reference" =>
    return .undefinedReference (← textField "name" fields) (← naturalField "line" fields)
  | "import_rejected" =>
    return .importRejected (← textField "module" fields) (← textField "reason" fields)
  | "execution_error" =>
    return .executionError (← textField "exception" fields) (← textField "message" fields)
  | _ => none

/-- What stands in front of a verdict on its line. -/
def verdictMarker : List Char := "@@pyslice-verdict@@ ".toList

/-- The object on a line behind the marker, if the line holds nothing else. -/
def verdictOn? (line : List Char) : Option (List Char) :=
  if verdictMarker.isPrefixOf line then
    let object := dropEndWhile isBlank (line.drop verdictMarker.length)
    if object.head? == some '\x7b' && object.getLast? == some '\x7d' then some object else none
  else none

/-- The verdict in an output: the last line with an object decides, even if it is malformed. -/
def printedVerdict? (output : String) : Option Verdict := do
  let object ← ((splitChars '\n' [] output.toList).filterMap verdictOn?).getLast?
  verdictOf? (← Json.read? object)

/-- How a process ended. -/
inductive ProcessOutcome
  | finished (output errors : List UInt8)
  | timedOut (seconds : Nat)
  | notStarted (interpreter reason : String)

/-- The last line of what a process printed as errors. -/
def lastError (errors : String) : String :=
  trim ((lines errors).getLast?.getD "no verdict from interpreter")

def ProcessOutcome.verdict : ProcessOutcome → Verdict
  | .finished output errors =>
    (printedVerdict? (decodeLossy output)).getD
      (.executionError "SandboxError" (lastError (decodeLossy errors)))
  | .timedOut seconds =>
    .executionError "TimeoutError" ("Execution timed out after " ++ toString seconds ++ " seconds")
  | .notStarted interpreter reason =>
    .executionError "SandboxError" ("failed to start " ++ interpreter ++ ": " ++ reason)

/-- The verdict on a text by a process that ends as given. -/
def validateByProcess (outcome : ProcessOutcome) (text : String) : Verdict :=
  validateWith (fun _ => outcome.verdict) text

end Excerpt
