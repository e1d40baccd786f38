import Excerpt.Syntax.Grammar.TypeHint
import Excerpt.Syntax.Grammar.Case
import Excerpt.Syntax.Grammar.Expression

/-!
Statements that fit on one line. Several of them can stand side by side with semicolons between.
-/
namespace Excerpt.Syntax.Grammar
open Excerpt.Text Excerpt.Syntax.Parser

def augmentedOperators : List String :=
  ["+=","-=","*=","/=","@=","//=","%=","**=",">>=","<<=","&=","^=","|="]

/-- Whether what was read so far is the left side of an assignment. -/
def assigns : Parser Bool :=
  return match ← token with
    | .mark s => s == "=" || s == ":" || augmentedOperators.contains s
    | _ => false

def statementEnds : Parser Bool :=
  return match ← token with
    | .newline | .mark ";" => true
    | _ => false

/-- The left side that expressions with commas between them stand for. -/
def leftSide? (start : Cursor) (all : List Tree) : Option Tree :=
  match all with
  | [single] => single.toTarget?.map (·.withField .left)
  | _ => (Tree.toTargets? all).map fun cs => (node .patternList start cs).withField .left

/-- An assignment whose left side has been read. -/
def assignmentBehind (g : Grammar) (start : Cursor) (left : Tree) : Parser Tree := do
  let right (cs : List Tree) : Parser (List Tree) :=
    also cs (return (← g.one .rightSide).withField .right)
  match ← token with
  | .mark "=" => return node .assignment start (← right (← also [left] (mark "=" .operand)))
  | .mark ":" =>
    let cs ← also [left] (mark ":" .operand)
    let cs ← also cs (return (← g.one (.typeHint .line true)).withField .type)
    if ← isMark "=" then
      return node .assignment start (← right (← also cs (mark "=" .operand)))
    else return node .assignment start cs
  | .mark s =>
    require (augmentedOperators.contains s)
    let cs ← also [left] (return (← mark s .operand).withField .operator)
    return node .augmentedAssignment start (← right cs)
  | _ => failure

/-- Expressions with commas between them up to the end of the statement or an assignment. -/
def lineExpressions (g : Grammar) : Parser (List Tree) :=
  commas g.steps Follow.line.orOperand startsOperand (return [← g.expression .line]) []

/-- The right side of an assignment, which can be an assignment again. -/
def rightSide (g : Grammar) : Parser Tree := do
  if ← isWord "yield" then yielding g .line
  else
    let start ← here
    let all ← lineExpressions g
    if ← assigns then
      match leftSide? start all with
      | some left => assignmentBehind g start left
      | none => failure
    else
      match all with
      | [single] => return single
      | _ => return node .expressionList start all

/-- Ends a statement that consists of the given expressions. -/
def expressionsEnd (g : Grammar) (start : Cursor) (all : List Tree) : Parser Tree := do
  if ← assigns then
    match leftSide? start all with
    | some left => return node .expressionStatement start [← assignmentBehind g start left]
    | none => failure
  else return node .expressionStatement start all

/-- Targets that go on behind a comma at the end of a line. No line end is expected between them,
so they can reach an assignment on a later line. -/
def crossing (g : Grammar) (start : Cursor) (all : List Tree) : Parser Tree := do
  require (Tree.toTargets? all).isSome
  let comma ← also all (mark "," .operand)
  let more : Parser Bool := return !(← assigns)
  let all ← if ← assigns then pure comma
    else commas g.steps .operand more (return [← loopTargetItem g]) comma
  require (← assigns)
  let t ← expressionsEnd g start all
  require (← statementEnds)
  return t

/-- The rest of a statement that began with the given expressions. -/
def expressionsBehind (g : Grammar) (start : Cursor) : Nat → List Tree → Parser Tree
  | 0,_ => failure
  | n + 1,all => do
    if ← isMark "," then
      let before ← get
      let comma ← also all (mark "," Follow.line.orOperand)
      if (← token) == .newline then
        let after ← get
        set before
        crossing g start all <|> (do set after; expressionsEnd g start comma)
      else if ← startsOperand then
        expressionsBehind g start n (← also comma (g.expression .line))
      else expressionsEnd g start comma
    else expressionsEnd g start all

def expressionStatement (g : Grammar) : Parser Tree := do
  let start ← here
  if ← isWord "yield" then return node .expressionStatement start [← yielding g .line]
  else expressionsBehind g start g.steps [← g.expression .line]

/-- An expression statement that fills its part of the line. -/
def wholeExpression (g : Grammar) : Parser Tree := do
  let t ← expressionStatement g
  require (← statementEnds)
  return t

/-- The arguments of a print statement, each behind a comma. -/
def printArguments (g : Grammar) (cs : List Tree) : Parser (List Tree) := do
  let (all,_) ← loop (fun (cs,continues) => do
    if continues && (← isMark ",") then
      let cs ← also cs (mark "," Follow.line.orOperand)
      if ← startsOperand then
        return some (← also cs (return (← g.expression .line).withField .argument),true)
      else return some (cs,false)
    else return none) g.steps (cs,true)
  return all

/-- A print that writes to a file. -/
def printTo (g : Grammar) : Parser Tree := do
  let start ← here
  let first ← keyword "print" Follow.line.orOperand
  require (← isMark ">>")
  let cs ← also [first] (do
    let inner ← here
    let arrows ← mark ">>" .operand
    return node .chevron inner (← also [arrows] (g.expression .line)))
  return node .printStatement start (← printArguments g cs)

def printValues (g : Grammar) : Parser Tree := do
  let start ← here
  let first ← keyword "print" Follow.line.orOperand
  let cs ← also [first] (return (← g.expression .line).withField .argument)
  return node .printStatement start (← printArguments g cs)

/-- `print` is a statement only where it cannot be a name. -/
def printing (g : Grammar) : Parser Tree := printTo g <|> wholeExpression g <|> printValues g

/-- `exec` is a statement in front of a string or a name. -/
def execution (g : Grammar) : Parser Tree := do
  let start ← here
  let before ← get
  let first ← keyword "exec" Follow.line.orOperand
  let code ← match ← token with
    | .stringStart _ => pure true
    | .word w => pure !(["and","or","not","in","is","if","as"].contains w)
    | _ => pure false
  if !code then
    set before
    expressionStatement g
  else
    let cs ← also [first] (do
      match ← token with
      | .stringStart _ => return (← string g Follow.line.expect).withField .code
      | _ => return (← name Follow.line.expect).withField .code)
    if ← isWord "in" then
      let cs ← also cs (keyword "in" .operand)
      let more : Parser Bool := return true
      let cs ← commas g.steps .operand more (return [← g.expression .line]) cs
      return node .execStatement start cs
    else return node .execStatement start cs

/-- Words that continue an expression which ends in a name. -/
def operatorWords : List Token :=
  [.word "and",.word "or",.word "in",.word "is",.word "if",.word "as"]

/-- `type` names an alias where an equals sign follows a type, and is a name elsewhere. -/
def aliasing (g : Grammar) : Parser Tree :=
  (do let start ← here
      let first ← keyword "type" Follow.line.orOperand
      require !(operatorWords.contains (← token))
      let cs ← also [first] (return (← g.one (.typeHint {} true)).withField .left)
      let cs ← also cs (mark "=" .operand)
      let cs ← also cs (return (← g.one (.typeHint .line true)).withField .right)
      require (← statementEnds)
      return node .typeAliasStatement start cs) <|> expressionStatement g

/-- One imported name with its alias. -/
def importedName (g : Grammar) (f : Follow) : Parser Tree := do
  let start ← here
  let path ← dottedName g.steps f.expect
  if ← isWord "as" then
    let cs ← also [path.withField .name] (keyword "as" {})
    let cs ← also cs (return (← name f.expect).withField .alias)
    return (node .aliasedImport start cs).withField .name
  else return path.withField .name

def importedNames (g : Grammar) (f : Follow) (cs : List Tree) : Parser (List Tree) :=
  commas g.steps f.expect (return (← token) matches .word _) (return [← importedName g f]) cs

def importStatement (g : Grammar) : Parser Tree := do
  let start ← here
  let first ← keyword "import" {}
  return node .importStatement start (← importedNames g .line [first])

/-- The names of an import from a module, in brackets or not. -/
def importedPart (g : Grammar) (wildcard : Bool) (cs : List Tree) : Parser (List Tree) := do
  if ← isMark "(" then
    let cs ← also cs (mark "(" {})
    let cs ← importedNames g .bracket cs
    also cs (mark ")" Follow.line.expect)
  else if wildcard && (← isMark "*") then
    also cs (do
      let inner ← here
      return node .wildcardImport inner [← mark "*" Follow.line.expect])
  else importedNames g .line cs

/-- A module name relative to the package: dots, then perhaps a name. -/
def relativeModule (g : Grammar) : Parser Tree := do
  let start ← here
  let first ← mark "." {dots := true}
  let dots ← loop (fun cs => do
    if ← isMark "." then return some (← also cs (mark "." {dots := true}))
    else return none) g.steps [first]
  let prefixNode := node .importPrefix start dots
  if ← isWord "import" then return node .relativeImport start [prefixNode]
  else return node .relativeImport start (← also [prefixNode] (dottedName g.steps {}))

def importFrom (g : Grammar) : Parser Tree := do
  let start ← here
  let first ← keyword "from" {dots := true}
  if ← isWord "__future__" then
    let cs ← also [first] (keyword "__future__" {})
    let cs ← also cs (keyword "import" {})
    return node .futureImportStatement start (← importedPart g false cs)
  else
    let cs ← also [first] (do
      let path ← if ← isMark "." then relativeModule g else dottedName g.steps {}
      return path.withField .moduleName)
    let cs ← also cs (keyword "import" {})
    return node .importFromStatement start (← importedPart g true cs)

def raising (g : Grammar) : Parser Tree := do
  let start ← here
  let first ← keyword "raise" Follow.line.orOperand
  let cs ← if (← startsOperand) && !(← isWord "from") then also [first] (expressions g .line)
    else pure [first]
  if ← isWord "from" then
    let cs ← also cs (keyword "from" .operand)
    let cs ← also cs (return (← g.expression .line).withField .cause)
    return node .raiseStatement start cs
  else return node .raiseStatement start cs

def returning (g : Grammar) : Parser Tree := do
  let start ← here
  let first ← keyword "return" Follow.line.orOperand
  if ← startsOperand then return node .returnStatement start (← also [first] (expressions g .line))
  else return node .returnStatement start [first]

def deletion (g : Grammar) : Parser Tree := do
  let start ← here
  let first ← keyword "del" .operand
  return node .deleteStatement start (← also [first] (expressions g .line))

def assertion (g : Grammar) : Parser Tree := do
  let start ← here
  let first ← keyword "assert" .operand
  let cs ← commas g.steps .operand (return true) (return [← g.expression .line]) [first]
  return node .assertStatement start cs

/-- A statement that consists of one word. -/
def bare (spelling : String) (kind : Kind) : Parser Tree := do
  let start ← here
  return node kind start [← keyword spelling Follow.line.expect]

/-- A declaration of names that belong to another scope. -/
def declaration (g : Grammar) (spelling : String) (kind : Kind) : Parser Tree := do
  let start ← here
  let first ← keyword spelling {}
  let cs ← commas g.steps {} (return true) (return [← name Follow.line.expect]) [first]
  return node kind start cs

def simpleStatement (g : Grammar) : Parser Tree := do
  match ← token with
  | .word "import" => importStatement g
  | .word "from" => importFrom g
  | .word "print" => printing g
  | .word "exec" => execution g
  | .word "type" => aliasing g
  | .word "assert" => assertion g
  | .word "return" => returning g
  | .word "del" => deletion g
  | .word "raise" => raising g
  | .word "pass" => bare "pass" .passStatement
  | .word "break" => bare "break" .breakStatement
  | .word "continue" => bare "continue" .continueStatement
  | .word "global" => declaration g "global" .globalStatement
  | .word "nonlocal" => declaration g "nonlocal" .nonlocalStatement
  | _ => expressionStatement g

/-- The statements of one line; `after` is expected behind its end. -/
def lineOfStatements (g : Grammar) (after : Expect) : Parser (List Tree) := do
  let first ← simpleStatement g
  let all ← loop (fun cs => do
    if ← isMark ";" then
      let cs ← also cs (mark ";" {newline := true,strings := true})
      if (← token) == .newline then return some cs
      else return some (← also cs (simpleStatement g))
    else return none) g.steps [first]
  require ((← token) == .newline)
  let trailing ← waiting
  advance after
  return all ++ trailing

end Excerpt.Syntax.Grammar
