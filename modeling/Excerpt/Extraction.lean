import Excerpt.Error
import Excerpt.Import
import Excerpt.Outline
import Excerpt.Usage

/-!
Extraction of one class from a source, together with the imports that bind the names it uses.
-/
namespace Excerpt
open Excerpt.Text Excerpt.Syntax

structure Extraction where
  text : String
  used : List String
  imports : List ImportStatement
deriving DecidableEq, Repr

/-- The first class of the name behind the last dot. -/
def Source.findClass? (s : Source) (name : String) : Option Tree :=
  s.classNodes.find? (className · == lastSegment name)

/-- The imports one to a line, a blank line if there are any, then the class. -/
def extractionText (imports : List ImportStatement) (classText : String) : String :=
  String.join (imports.map (·.text ++ "\n")) ++ (if imports.isEmpty then "" else "\n") ++
    trimEnd classText ++ "\n"

def Source.extract (s : Source) (name : String) : Except Error Extraction :=
  match s.findClass? name with
  | none => .error (.classNotFound name)
  | some t =>
    let used := usage t
    let imports := selectImports s.imports used
    .ok ⟨extractionText imports t.text,used,imports⟩

end Excerpt
