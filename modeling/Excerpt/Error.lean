import Excerpt.Source

/-!
What can go wrong, how it is reported, and with which code the program ends.
-/
namespace Excerpt

inductive Error
  | classNotFound (name : String)
  | syntaxInvalid (fault : SyntaxFault)
  | noProgramUnits
  | config (reason : String)
  | io (reason : String)
deriving DecidableEq, Repr

/-- The line and column of a fault as they are shown: counted from one, or unknown. -/
def SyntaxFault.shown : SyntaxFault → String × String
  | .unreadable => ("?","?")
  | .obsolete p => (toString (p.row + 1),toString (p.column + 1))

namespace Error

def kind : Error → String
  | .classNotFound _ => "class_not_found"
  | .syntaxInvalid _ => "syntax_invalid"
  | .noProgramUnits => "no_program_units"
  | .config _ => "config"
  | .io _ => "io"

def message : Error → String
  | .classNotFound name => "Class not found: " ++ name
  | .syntaxInvalid fault => "Syntax error at line " ++ fault.shown.1 ++ ", column " ++ fault.shown.2
  | .noProgramUnits => "No class or function definitions in source"
  | .config reason => "Config error: " ++ reason
  | .io reason => "I/O error: " ++ reason

def exitCode : Error → Nat
  | .classNotFound _ | .noProgramUnits => 2
  | .syntaxInvalid _ => 3
  | .config _ => 4
  | .io _ => 70

end Error

/-- Reads a source text, with a fault reported as an error. -/
def readSource (text : String) : Except Error Source :=
  (Source.read text).mapError .syntaxInvalid

end Excerpt
