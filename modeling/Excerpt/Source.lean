import Excerpt.Syntax.Source
import Excerpt.Text.Blank

/-!
Source texts that were read. A text is refused if it has no tree, or if its tree holds a statement
that only Python 2 knew.
-/
namespace Excerpt
open Excerpt.Text Excerpt.Syntax

/-- Why a text is refused. Only an obsolete statement has a place that can be named. -/
inductive SyntaxFault
  | unreadable
  | obsolete (place : Position)
deriving DecidableEq, Repr

structure Source where
  text : String
  root : Tree

/-- Statements of Python 2 that the grammar reads but the language no longer has. -/
def isObsolete (t : Tree) : Bool := t.is .printStatement || t.is .execStatement

/-- The first obsolete statement of a tree, in the order of the source. -/
def firstObsolete (root : Tree) : Option Position :=
  (root.preorder.find? isObsolete).map Tree.start

namespace Source

def read (text : String) : Except SyntaxFault Source :=
  match readTree text with
  | none => .error .unreadable
  | some root =>
    match firstObsolete root with
    | some place => .error (.obsolete place)
    | none => .ok ⟨text,root⟩

/-- A source that was read is the text with its tree. -/
theorem exists_tree_of_read {text : String} {source : Source} (found : read text = .ok source) :
    ∃ root, readTree text = some root ∧ source = ⟨text,root⟩ := by
  unfold read at found
  split at found
  · cases found
  · next root tree =>
    split at found
    · cases found
    · cases found
      exact ⟨root,tree,rfl⟩

theorem readTree_of_read {text : String} {source : Source} (found : read text = .ok source) :
    readTree text = some source.root := by
  obtain ⟨root,tree,rfl⟩ := exists_tree_of_read found
  exact tree

/-- The rows on which comments start, each once. -/
def commentRows (s : Source) : List Nat :=
  ((s.root.preorder.filter (·.is .comment)).map (·.start.row)).eraseDups

/-- The numbers of lines and of lines on which a comment starts. -/
def commentStats (s : Source) : Nat × Nat := (lineCount s.text,s.commentRows.length)

/-- A short description of a source for diagnostics. -/
def summary (s : Source) : String :=
  "SourceUnit \x7b bytes: " ++ toString s.text.utf8ByteSize ++ ", root: \"module\" \x7d"

end Source

end Excerpt

namespace Excerpt.Syntax.Tree

/-- The class or function that a decorated definition holds; any other node is itself. -/
def definition (t : Tree) : Tree :=
  if t.is .decoratedDefinition then (t.child? .definition).getD t else t

def isAsyncFunction (t : Tree) : Bool :=
  t.is .functionDefinition && t.children.any (·.isToken "async")

/-- The text of the child in the role `f`. -/
def childText (t : Tree) (f : Field) : Option String := (t.child? f).map text

end Excerpt.Syntax.Tree
