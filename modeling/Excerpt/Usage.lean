import Excerpt.Source
import Excerpt.Text.NameSet

/-!
Names in use below a node. Only the first name of a dotted expression counts; the names of
definitions and of keyword arguments do not, nor does anything in import statements and scope
declarations. Names bound locally count too: one name too many can only select one import more.
-/
namespace Excerpt
open Excerpt.Text Excerpt.Syntax

/-- Statements below which no name counts. -/
def hidesNames : Kind → Bool
  | .importStatement | .importFromStatement | .futureImportStatement => true
  | .globalStatement | .nonlocalStatement => true
  | _ => false

/-- Nodes with a name of their own that does not count. -/
def carriesName : Kind → Bool
  | .classDefinition | .functionDefinition | .keywordArgument => true
  | _ => false

mutual
/-- The names in use at or below a node, in the order of the source, with repetitions. -/
def namesIn : Tree → List String
  | .node l cs =>
    match l.symbol with
    | .token _ => namesInAll cs
    | .named k =>
      if k == .identifier then [l.text]
      else if k == .member then namesInObject cs
      else if k == .dottedName then namesInFirst cs
      else if carriesName k then namesInUnnamed cs
      else if hidesNames k then []
      else namesInAll cs
def namesInAll : List Tree → List String
  | [] => []
  | t :: ts => (if t.isNamed then namesIn t else []) ++ namesInAll ts
/-- The names of the first child that is the object of a member. -/
def namesInObject : List Tree → List String
  | [] => []
  | t :: ts => if t.field == some .object then namesIn t else namesInObject ts
/-- The names of the first child that is a construct. -/
def namesInFirst : List Tree → List String
  | [] => []
  | t :: ts => if t.isNamed then namesIn t else namesInFirst ts
/-- The names of all children but the first in the role of a name. -/
def namesInUnnamed : List Tree → List String
  | [] => []
  | t :: ts =>
    if t.field == some .name then namesInAll ts
    else (if t.isNamed then namesIn t else []) ++ namesInUnnamed ts
end

/-- The set of names in use at or below a node. -/
def usage (t : Tree) : List String := nameSet (namesIn t)

end Excerpt
