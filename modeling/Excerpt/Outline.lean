import Excerpt.Source

/-!
Program units: the classes and functions of a tree in the order of the source, each with its
header, its decorators and its docstring.
-/
namespace Excerpt
open Excerpt.Text Excerpt.Syntax

inductive UnitKind
  | classUnit
  | function
  | asyncFunction
deriving DecidableEq, Repr

structure Decorator where
  line : Nat
  text : String
deriving DecidableEq, Repr

structure ProgramUnit where
  kind : UnitKind
  name : String
  headerLine : Nat
  /-- The number of units around this one. -/
  depth : Nat
  /-- The text from the keyword up to the colon in front of the body. -/
  header : String
  decorators : List Decorator
  docstring : Option String
  /-- The number of units directly inside this one. -/
  nested : Nat
deriving DecidableEq, Repr

/-- The line on which the unit starts, its decorators included. -/
def ProgramUnit.anchorLine (u : ProgramUnit) : Nat :=
  match u.decorators with
  | d :: _ => d.line
  | [] => u.headerLine

def unitKind (t : Tree) : UnitKind :=
  if t.is .classDefinition then .classUnit
  else if t.isAsyncFunction then .asyncFunction
  else .function

def decoratorsOf (children : List Tree) : List Decorator :=
  (children.filter (·.is .decorator)).map fun t => ⟨t.line,trimEnd t.text⟩

/-- The header of a definition ends behind the last colon in front of the body; without a colon
it ends where the body starts. -/
def headerText (t : Tree) : String :=
  let stop := ((t.child? .body).map Tree.startByte).getD t.endByte
  let colons := t.children.filter fun c => c.isToken ":" && c.endByte ≤ stop
  let last := ((colons.getLast?).map Tree.endByte).getD stop
  trimEnd (String.ofList (Cursor.takeBytes (last - t.startByte) t.text.toList))

/-- A string literal that may be a docstring: without a letter in front of the quote, or with a
single `r` or `u`. -/
def isDocString (t : Tree) : Bool :=
  t.is .string &&
    match t.text.toList with
    | c :: rest =>
      isQuoteMark c || ("rRuU".contains c && (rest.head?.map isQuoteMark).getD false)
    | [] => false
where
  isQuoteMark (c : Char) : Bool := c == '\x27' || c == '\x22'

def isDocLiteral (t : Tree) : Bool :=
  isDocString t || (t.is .concatenatedString && t.namedChildren.all isDocString)

mutual
/-- Whether an expression is a docstring, possibly in parentheses. -/
def isDocumentation : Tree → Bool
  | .node l cs =>
    if l.symbol == .named .parenthesizedExpression then
      match areDocumentation cs with
      | [doc] => doc
      | _ => false
    else isDocLiteral (.node l cs)
/-- The answers for the constructs among the children that are no comments. -/
def areDocumentation : List Tree → List Bool
  | [] => []
  | t :: ts =>
    if t.isNamed && !t.is .comment then isDocumentation t :: areDocumentation ts
    else areDocumentation ts
end

/-- The docstring of a body, as it is written: its first statement, if that is a string alone. -/
def docstring? (body : Tree) : Option String := do
  let first ← body.namedChildren.find? (!·.is .comment)
  if first.is .expressionStatement then
    match first.namedChildren with
    | [value] => if isDocumentation value then some value.text else none
    | _ => none
  else none

/-- The unit of a definition, given the units inside it. -/
def programUnit (depth : Nat) (decorators : List Decorator) (t : Tree)
    (inside : List ProgramUnit) : ProgramUnit :=
  {
    kind := unitKind t
    name := (t.childText .name).getD ""
    headerLine := t.line
    depth := depth
    header := headerText t
    decorators := decorators
    docstring := (t.child? .body).bind docstring?
    nested := inside.countP (·.depth == depth + 1)
  }

mutual
/-- The units at or below a node. A definition comes before the units inside it. -/
def unitsIn (depth : Nat) : Tree → List ProgramUnit
  | .node l cs =>
    match l.symbol with
    | .named .classDefinition | .named .functionDefinition =>
      let inside := unitsInBody (depth + 1) cs
      programUnit depth [] (.node l cs) inside :: inside
    | .named .decoratedDefinition => unitsInDefinition depth (decoratorsOf cs) cs
    | _ => unitsInAll depth cs
def unitsInAll (depth : Nat) : List Tree → List ProgramUnit
  | [] => []
  | t :: ts => (if t.isNamed then unitsIn depth t else []) ++ unitsInAll depth ts
/-- The units below the first child that is a body. -/
def unitsInBody (depth : Nat) : List Tree → List ProgramUnit
  | [] => []
  | .node l cs :: ts =>
    if l.field == some .body then unitsInAll depth cs else unitsInBody depth ts
/-- The unit of the first child that is a definition, and the units inside it. -/
def unitsInDefinition (depth : Nat) (decorators : List Decorator) : List Tree → List ProgramUnit
  | [] => []
  | .node l cs :: ts =>
    if l.field == some .definition then
      let inside := unitsInBody (depth + 1) cs
      programUnit depth decorators (.node l cs) inside :: inside
    else unitsInDefinition depth decorators ts
end

def Source.units (s : Source) : List ProgramUnit := unitsIn 0 s.root

/-- The classes at the top level of a source, with their decorators. -/
def Source.classNodes (s : Source) : List Tree :=
  s.root.namedChildren.filter (·.definition.is .classDefinition)

def className (t : Tree) : String := (t.definition.childText .name).getD ""

def Source.classNames (s : Source) : List String := s.classNodes.map className

structure ClassOutline where
  name : String
  line : Nat
  units : List ProgramUnit
deriving DecidableEq, Repr

def classOutline? (t : Tree) : Option ClassOutline :=
  match unitsIn 0 t with
  | u :: us => some ⟨u.name,u.anchorLine,u :: us⟩
  | [] => none

def Source.outline (s : Source) : List ClassOutline := s.classNodes.filterMap classOutline?

end Excerpt
