import Excerpt.Execution.Run
import Excerpt.Program.Reading
import Excerpt.Source
import Excerpt.Verdict

/-!
Validation of a source. Whatever runs it, a source must first be readable, without asynchronous
functions and without wildcard imports.
-/
namespace Excerpt
open Excerpt.Execution Excerpt.Program Excerpt.Syntax

def SyntaxFault.verdict : SyntaxFault → Verdict
  | .unreadable => .syntaxInvalid none
  | .obsolete place => .syntaxInvalid (some (place.row + 1,place.column + 1))

/-- The verdict on a tree that is refused without running it: for its first asynchronous function,
otherwise for its first wildcard import. -/
def structuralVerdict? (root : Tree) : Option Verdict :=
  match root.preorder.find? Tree.isAsyncFunction with
  | some t => some (.hasAsync t.line)
  | none => (root.preorder.find? (·.is .wildcardImport)).map fun t => .hasWildcardImport t.line

/-- The verdict on a text, with `backend` to run a source that passes the first checks. -/
def validateWith (backend : Source → Verdict) (text : String) : Verdict :=
  match Source.read text with
  | .error fault => fault.verdict
  | .ok source => (structuralVerdict? source.root).getD (backend source)

/-- Runs a source abstractly: no process is started and nothing is imported. -/
def runStatically (known : List String) (source : Source) : Verdict :=
  match run known (ofTree source.root) with
  | .ok _ => .valid
  | .error r => r.verdict

def validate (known : List String) (text : String) : Verdict :=
  validateWith (runStatically known) text

end Excerpt
