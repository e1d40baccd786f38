import Excerpt.Program.Statement

/-!
Programs from trees. Comments mean nothing and are left out; a line continuation is kept as a blank
where the number or the order of items matters.
-/
namespace Excerpt.Program
open Excerpt.Text Excerpt.Syntax

/-- The children of a node with the expressions they stand for. -/
abbrev Parts := List (Tree × Expr)

namespace Parts

/-- All constructs among the children. -/
def all (ps : Parts) : List Expr := (ps.filter (·.1.isNamed)).map (·.2)

/-- The constructs among the children that are no comments. -/
def items (ps : Parts) : List Expr :=
  (ps.filter fun p => p.1.isNamed && !p.1.is .comment).map (·.2)

/-- The items in other roles than `f`. -/
def itemsBut (ps : Parts) (f : Field) : List Expr :=
  (ps.filter fun p => p.1.isNamed && !p.1.is .comment && p.1.field != some f).map (·.2)

def role? (ps : Parts) (f : Field) : Option Expr := (ps.find? (·.1.field == some f)).map (·.2)

def role (ps : Parts) (f : Field) : Expr := (ps.role? f).getD .blank

end Parts

/-- Whether an integer literal differs from zero. Known for decimal literals of 64 bits. -/
def integerTruth (text : String) : Option Bool :=
  let digits := text.toList.filter (· != '_')
  if digits.isEmpty || !digits.all Char.isDigit then none
  else
    let value := digits.foldl (fun n c => 10 * n + (c.toNat - '0'.toNat)) 0
    if value < Nat.pow 2 63 then some (value != 0) else none

def comparator (t : Tree) : Comparator :=
  if t.isToken "is" then .identical
  else if t.isToken "==" then .equal
  else if t.isToken "is not" then .notIdentical
  else if t.isToken "!=" then .notEqual
  else .other

def comparators (children : List Tree) : List Comparator :=
  (children.filter (·.field == some .operators)).map comparator

def isDisjunction (t : Tree) : Bool := ((t.child? .operator).map (·.isToken "or")).getD false

/-- The expression of a node, given those of its children. -/
def assemble (t : Tree) (ps : Parts) : Expr :=
  match t.kind? with
  | some .identifier => .name t.text t.line
  | some .noneLiteral => .none
  | some .trueLiteral => .truth true
  | some .falseLiteral => .truth false
  | some .integer => .integer (integerTruth t.text)
  | some .comment | some .lineContinuation => .blank
  | some .parenthesizedExpression => .parens ps.items
  | some .tuple => .sequence .tuple ps.items
  | some .list => .sequence .list ps.items
  | some .set => .sequence .set ps.items
  | some .dictionary => .sequence .dictionary ps.items
  | some .patternList | some .tuplePattern | some .listPattern | some .expressionList
  | some .asPatternTarget | some .listSplatPattern | some .dictionarySplatPattern
  | some .parenthesizedListSplat => .sequence .bare ps.items
  | some .listSplat => .splat false ps.items
  | some .dictionarySplat => .splat true ps.items
  | some .member => .member (ps.role .object) ((t.childText .member).getD "")
  | some .call => .call (ps.role .function) (ps.role .arguments)
  | some .subscript => .subscript (ps.role .value) (ps.itemsBut .value)
  | some .keywordArgument => .keyword ((t.childText .name).getD "") (ps.role .value)
  | some .namedExpression => .walrus ((t.childText .name).getD "") (ps.role .value)
  | some .asPattern => .aliased (ps.items.headD .blank) (ps.role .alias)
  | some .conditionalExpression =>
    match ps.items with
    | [body,condition,alternative] => .conditional body condition alternative
    | items => .group items
  | some .booleanOperator =>
    if isDisjunction t then .disjunction (ps.role .left) (ps.role .right)
    else .conjunction (ps.role .left) (ps.role .right)
  | some .notOperator => .negation (ps.role .argument)
  | some .comparisonOperator => .comparison ps.items (comparators t.children)
  | some .binaryOperator => .binary (ps.role .left) (ps.role .right)
  | some .yieldExpression | some .awaitExpression => .suspension t.start ps.items
  | some .dottedName => ps.all.headD .blank
  | some .assignment => .assignment (ps.role .left) (ps.role? .type) (ps.role? .right)
  | some .augmentedAssignment => .augmented (ps.role .left) (ps.role .right)
  | _ => .group ps.items

def isComprehension (k : Kind) : Bool :=
  k == .listComprehension || k == .setComprehension || k == .dictionaryComprehension ||
    k == .generatorExpression

/-- Parameters that are a target and nothing else. -/
def isPlainParameter (t : Tree) : Bool :=
  t.is .identifier || t.is .listSplatPattern || t.is .dictionarySplatPattern || t.is .tuplePattern

/-- Parameters with a default in a role of its own. -/
def isDefaultParameter (t : Tree) : Bool := t.is .defaultParameter || t.is .typedDefaultParameter

mutual
def exprOf : Tree → Expr
  | .node l cs =>
    match l.symbol with
    | .named k =>
      if k == .lambda then .lambda (parametersOfRole cs) ((exprOfRole .body cs).getD .blank)
      else if isComprehension k then .comprehension (partsOf cs)
      else assemble (.node l cs) (exprsOf cs)
    | .token _ => assemble (.node l cs) (exprsOf cs)
def exprsOf : List Tree → Parts
  | [] => []
  | t :: ts => (t,exprOf t) :: exprsOf ts
/-- The first child in the role `f`. -/
def exprOfRole (f : Field) : List Tree → Option Expr
  | [] => none
  | t :: ts => if t.field == some f then some (exprOf t) else exprOfRole f ts
/-- The constructs in a role that several children share. -/
def exprsOfRole (f : Field) : List Tree → List Expr
  | [] => []
  | t :: ts =>
    if t.field == some f && t.isNamed then exprOf t :: exprsOfRole f ts else exprsOfRole f ts
def parametersOfRole : List Tree → List Parameter
  | [] => []
  | .node l cs :: ts =>
    if l.field == some .parameters then parametersOf cs else parametersOfRole ts
def parametersOf : List Tree → List Parameter
  | [] => []
  | t :: ts =>
    if isPlainParameter t then .mk (some (exprOf t)) none none :: parametersOf ts
    else if isDefaultParameter t then defaultParameter t :: parametersOf ts
    else if t.is .typedParameter then typedParameter t :: parametersOf ts
    else parametersOf ts
def defaultParameter : Tree → Parameter
  | .node _ cs =>
    let ps := exprsOf cs
    .mk (ps.role? .name) (ps.role? .type) (ps.role? .value)
def typedParameter : Tree → Parameter
  | .node _ cs =>
    let ps := exprsOf cs
    .mk ps.all.head? (ps.role? .type) none
def partsOf : List Tree → List Part
  | [] => []
  | t :: ts =>
    if t.is .forInClause then clauseOf t :: partsOf ts
    else if t.isNamed && !t.is .comment then .element (exprOf t) :: partsOf ts
    else partsOf ts
def clauseOf : Tree → Part
  | .node _ cs => .clause ((exprOfRole .left cs).getD .blank) (exprsOfRole .right cs)
end

/-- The text of a string literal between its quotes, if nothing is interpolated. -/
def literalText (t : Tree) : Option String :=
  if t.namedChildren.all fun c => c.is .stringStart || c.is .stringContent || c.is .stringEnd then
    some (String.join ((t.namedChildren.filter (·.is .stringContent)).map Tree.text))
  else none

/-- The message of an exception with the given arguments: the value of a single string, otherwise
the text of the arguments without the parentheses around it. -/
def raiseMessage (arguments : Tree) : String :=
  match arguments.namedChildren.filter (!·.is .comment) with
  | [] => ""
  | [only] =>
    if only.is .string then (literalText only).getD only.text else bare
  | _ => bare
where
  bare : String := String.ofList
    (dropEndWhile (· == ')') (arguments.text.toList.dropWhile (· == '(')))

/-- What a `raise` throws, by the first construct behind it. -/
def thrownBy (t : Tree) : Option Thrown :=
  t.namedChildren.head?.map fun first =>
    if first.is .call then
      ⟨lastSegment ((first.childText .function).getD "Exception"),
        ((first.child? .arguments).map raiseMessage).getD "",t.line⟩
    else ⟨lastSegment first.text,"",t.line⟩

mutual
/-- The names of a pattern. A name alone captures, a dotted name is looked up by its first part,
the name of a keyword is skipped. -/
def patternNames : Tree → List PatternName
  | .node l cs =>
    match l.symbol with
    | .named .dottedName =>
      if (cs.filter Tree.isNamed).length = 1 then
        if l.text = "_" then [] else [.capture l.text]
      else loadedNames cs
    | .named .identifier => [.capture l.text]
    | .named .classPattern => classPatternNames cs
    | .named .keywordPattern => keywordPatternNames cs
    | .named .string | .named .concatenatedString | .named .integer | .named .float => []
    | _ => patternNamesAll cs
def patternNamesAll : List Tree → List PatternName
  | [] => []
  | t :: ts => (if t.isNamed then patternNames t else []) ++ patternNamesAll ts
/-- The first construct is the class, the others are patterns. -/
def classPatternNames : List Tree → List PatternName
  | [] => []
  | t :: ts =>
    if t.isNamed then loadedName t ++ patternNamesAll ts else classPatternNames ts
/-- The first construct is the keyword. -/
def keywordPatternNames : List Tree → List PatternName
  | [] => []
  | t :: ts => if t.isNamed then patternNamesAll ts else keywordPatternNames ts
/-- The name that is looked up for a dotted name. -/
def loadedName : Tree → List PatternName
  | .node l cs =>
    match l.symbol with
    | .named .identifier => [.load l.text l.start.line]
    | .named .dottedName => loadedNames cs
    | _ => []
def loadedNames : List Tree → List PatternName
  | [] => []
  | t :: ts => if t.isNamed then loadedName t else loadedNames ts
end

def identifiers (children : List Tree) : List String :=
  (children.filter (·.is .identifier)).map Tree.text

def decorationsOf (children : List Tree) : List Decoration :=
  (children.filter (·.is .decorator)).map fun t => ⟨(exprsOf t.children).all⟩

/-- The items of a `with` statement, which may stand in a clause. -/
def withItems (children : List Tree) : List Expr :=
  let inside := children.flatMap fun t => if t.is .withClause then t.children else [t]
  (inside.filter (·.is .withItem)).map fun t =>
    let ps := exprsOf t.children
    (ps.role? .value).getD (ps.all.headD .blank)

/-- The alias statement names the first construct of its first construct. -/
def typeAliasOf (children : List Tree) : Stmt :=
  let inner := do
    let left ← (children.filter Tree.isNamed).head?
    left.namedChildren.head?
  .typeAlias (inner.map Tree.text) (inner.map exprOf) ((exprsOf children).role? .right)

/-- The definition with the given children and body. -/
def definitionOf (symbol : Symbol) (children : List Tree) (body : List Stmt) : Definition :=
  let name := ((children.find? (·.field == some .name)).map Tree.text).getD ""
  if symbol == .named .classDefinition then
    let bases := (children.find? (·.field == some .superclasses)).map Tree.children
    .classDef name (exprsOf (bases.getD [])).items body
  else .function name (parametersOfRole children) (exprOfRole .returnType children) body

/-- The condition of a case. -/
def guardOf (children : List Tree) : List Expr :=
  (children.filter (·.is .ifClause)).flatMap fun t => (exprsOf t.children).items

def casePatterns (children : List Tree) : List PatternName :=
  (children.filter (·.is .casePattern)).flatMap patternNames

/-- What stands in front of the body of a handler. -/
def handlerItems (children : List Tree) : List Expr :=
  (exprsOf (children.filter (!·.is .block))).items

mutual
def stmtOf : Tree → Stmt
  | .node l cs =>
    match l.symbol with
    | .named .comment | .named .lineContinuation | .named .passStatement | .named .breakStatement
    | .named .continueStatement => .skip
    | .named .importStatement => .importing (plainImport (.node l cs))
    | .named .importFromStatement => .importing (fromImport (.node l cs))
    | .named .futureImportStatement => .importing (futureImport (.node l cs))
    | .named .classDefinition | .named .functionDefinition =>
      .define [] (definitionOf l.symbol cs (bodyOfRole .body cs))
    | .named .decoratedDefinition => .define (decorationsOf cs) (decorated cs)
    | .named .ifStatement =>
      .branch (.mk (exprOfRole .condition cs) (bodyOfRole .consequence cs) :: branchesOf cs)
    | .named .forStatement =>
      .forLoop ((exprOfRole .left cs).getD .blank) ((exprOfRole .right cs).getD .blank)
        (bodyOfRole .body cs) (otherwiseOf cs)
    | .named .whileStatement =>
      .whileLoop ((exprOfRole .condition cs).getD .blank) (bodyOfRole .body cs) (otherwiseOf cs)
    | .named .tryStatement =>
      .attempt (bodyOfRole .body cs) (handlersOf cs) (otherwiseOf cs) (finalOf cs)
    | .named .withStatement => .within (withItems cs) (bodyOfRole .body cs)
    | .named .matchStatement => .choose (exprsOfRole .subject cs) (casesIn cs)
    | .named .deleteStatement => .delete (exprsOf cs).items
    | .named .raiseStatement => .raising (exprsOf cs).items (thrownBy (.node l cs))
    | .named .returnStatement => .result l.start (exprsOf cs).items
    | .named .globalStatement => .globals (identifiers cs)
    | .named .nonlocalStatement => .nonlocals (identifiers cs)
    | .named .typeAliasStatement => typeAliasOf cs
    | _ => .evaluate (exprsOf cs).items
def bodyOf : List Tree → List Stmt
  | [] => []
  | t :: ts => if t.isNamed then stmtOf t :: bodyOf ts else bodyOf ts
/-- The statements of the first child in the role `f`. -/
def bodyOfRole (f : Field) : List Tree → List Stmt
  | [] => []
  | .node l cs :: ts => if l.field == some f then bodyOf cs else bodyOfRole f ts
/-- The statements of the children that are blocks. -/
def bodyOfBlocks : List Tree → List Stmt
  | [] => []
  | .node l cs :: ts =>
    if l.symbol == .named .block then bodyOf cs ++ bodyOfBlocks ts else bodyOfBlocks ts
/-- The definition below a decorator. -/
def decorated : List Tree → Definition
  | [] => .classDef "" [] []
  | .node l cs :: ts =>
    if l.field == some .definition then definitionOf l.symbol cs (bodyOfRole .body cs)
    else decorated ts
def branchesOf : List Tree → List Branch
  | [] => []
  | .node l cs :: ts =>
    if l.symbol == .named .elifClause then
      .mk (exprOfRole .condition cs) (bodyOfRole .consequence cs) :: branchesOf ts
    else if l.symbol == .named .elseClause then .mk none (bodyOfRole .body cs) :: branchesOf ts
    else branchesOf ts
/-- The statements of the first `else`. -/
def otherwiseOf : List Tree → List Stmt
  | [] => []
  | .node l cs :: ts =>
    if l.symbol == .named .elseClause then bodyOfRole .body cs else otherwiseOf ts
def handlersOf : List Tree → List Handler
  | [] => []
  | .node l cs :: ts =>
    if l.symbol == .named .exceptClause || l.symbol == .named .exceptGroupClause then
      .mk (handlerItems cs) (bodyOfBlocks cs) :: handlersOf ts
    else handlersOf ts
/-- The statements of the first `finally`. -/
def finalOf : List Tree → List Stmt
  | [] => []
  | .node l cs :: ts =>
    if l.symbol == .named .finallyClause then bodyOfBlocks cs else finalOf ts
/-- The cases of a `match`, which may stand in a block. -/
def casesIn : List Tree → List Case
  | [] => []
  | .node l cs :: ts =>
    if l.symbol == .named .caseClause then
      .mk (casePatterns cs) (guardOf cs) (bodyOfBlocks cs) :: casesIn ts
    else if l.symbol == .named .block then casesOf cs ++ casesIn ts
    else casesIn ts
def casesOf : List Tree → List Case
  | [] => []
  | .node l cs :: ts =>
    if l.symbol == .named .caseClause then
      .mk (casePatterns cs) (guardOf cs) (bodyOfBlocks cs) :: casesOf ts
    else casesOf ts
end

/-- The statements at the top level of a source. -/
def ofTree (root : Tree) : List Stmt := bodyOf root.children

end Excerpt.Program
