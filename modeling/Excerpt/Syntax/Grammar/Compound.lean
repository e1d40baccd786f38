import Excerpt.Syntax.Grammar.Simple

/-!
Statements with bodies. Each takes what is expected behind it, because the line structure after
its last body depends on that.
-/
namespace Excerpt.Syntax.Grammar
open Excerpt.Text Excerpt.Syntax.Parser

/-- Gives the last of `children` a role. -/
def lastAs (role : Field) (children : List Tree) : List Tree :=
  match children.getLast? with
  | some t => children.dropLast ++ [t.withField role]
  | none => []

/-- A colon and the body behind it. -/
def body (g : Grammar) (role : Field) (after : Expect) (cs : List Tree) : Parser (List Tree) := do
  let cs ← also cs (mark ":" .suite)
  alsoAll cs (return lastAs role (← g.parse (.suite after)))

/-- A colon and a body that plays no named role. -/
def plainBody (g : Grammar) (after : Expect) (cs : List Tree) : Parser (List Tree) := do
  let cs ← also cs (mark ":" .suite)
  alsoAll cs (g.parse (.suite after))

def elseClause (g : Grammar) (after : Expect) : Parser Tree := do
  let start ← here
  let first ← keyword "else" {}
  return node .elseClause start (← body g .body after [first])

/-- An else clause, if there is one, as an alternative. -/
def otherwise (g : Grammar) (after : Expect) (cs : List Tree) : Parser (List Tree) := do
  if ← isWord "else" then also cs (return (← elseClause g after).withField .alternative)
  else return cs

/-- A keyword, a condition and a body. -/
def conditional (g : Grammar) (spelling : String) (role : Field) (after : Expect) :
    Parser (List Tree) := do
  let first ← keyword spelling .operand
  let cs ← also [first] (return (← g.expression {}).withField .condition)
  body g role after cs

def ifStatement (g : Grammar) (after : Expect) : Parser Tree := do
  let start ← here
  let cs ← conditional g "if" .consequence after
  let cs ← loop (fun cs => do
    if ← isWord "elif" then
      return some (← also cs (do
        let inner ← here
        let clause := node .elifClause inner (← conditional g "elif" .consequence after)
        return clause.withField .alternative))
    else return none) g.steps cs
  return node .ifStatement start (← otherwise g after cs)

def whileStatement (g : Grammar) (after : Expect) : Parser Tree := do
  let start ← here
  let cs ← conditional g "while" .body after
  return node .whileStatement start (← otherwise g after cs)

/-- A loop; `first` holds the word before it, if any. -/
def forStatement (g : Grammar) (after : Expect) (start : Cursor) (first : List Tree) :
    Parser Tree := do
  let cs ← also first (keyword "for" .operand)
  let cs ← also cs (loopTarget g)
  let cs ← also cs (keyword "in" .operand)
  let cs ← also cs (return (← expressions g {}).withField .right)
  let cs ← body g .body after cs
  return node .forStatement start (← otherwise g after cs)

/-- A tuple of two or more elements that stands alone holds the items of a with statement. -/
def asItems (t : Tree) : Option (List Tree) :=
  let isElement (c : Tree) : Bool := c.isNamed && !c.isExtra
  let elements := t.children.filter isElement
  if t.is .tuple && 2 ≤ elements.length &&
      elements.all (fun c => !c.is .yieldExpression && !c.is .parenthesizedListSplat &&
        (!c.is .listSplat || c.toTarget?.isSome)) then
    some (t.children.map fun c => if isElement c then item c else c)
  else none
where
  item (c : Tree) : Tree :=
    .node {c.label with symbol := .named .withItem,field := none} [c.withField .value]

def withClause (g : Grammar) : Parser Tree := do
  let start ← here
  let all ← commas g.steps .operand (return !(← isMark ":")) (do
    let inner ← here
    return [node .withItem inner [(← g.expression {}).withField .value]]) []
  match all with
  | [single] =>
    match single.children with
    | [value] => return node .withClause start ((asItems value).getD all)
    | _ => return node .withClause start all
  | _ => return node .withClause start all

def withStatement (g : Grammar) (after : Expect) (start : Cursor) (first : List Tree) :
    Parser Tree := do
  let cs ← also first (keyword "with" .operand)
  let cs ← also cs (withClause g)
  return node .withStatement start (← body g .body after cs)

def exceptClause (g : Grammar) (after : Expect) : Parser Tree := do
  let start ← here
  let first ← keyword "except" .operand
  let cs ← if ← isMark ":" then pure [first]
    else
      let cs ← also [first] (return (← g.expression {}).withField .value)
      if ← isMark "," then
        let cs ← also cs (mark "," .operand)
        also cs (return (← g.expression {}).withField .alias)
      else pure cs
  return node .exceptClause start (← plainBody g {after with handler := true} cs)

def exceptGroupClause (g : Grammar) (after : Expect) : Parser Tree := do
  let start ← here
  let first ← mark "except*" .operand
  let cs ← also [first] (g.expression {})
  return node .exceptGroupClause start (← plainBody g {after with group := true} cs)

def finallyClause (g : Grammar) (after : Expect) : Parser Tree := do
  let start ← here
  let first ← keyword "finally" {}
  return node .finallyClause start (← plainBody g after [first])

/-- Handlers are all of one sort. Without any handler there is a final clause. -/
def tryStatement (g : Grammar) (after : Expect) : Parser Tree := do
  let start ← here
  let first ← keyword "try" {}
  let cs ← body g .body {handler := true,group := true} [first]
  let handlers (isHandler : Parser Bool) (clause : Parser Tree) : Parser (List Tree) :=
    loop (fun cs => do
      if ← isHandler then return some (← also cs clause) else return none) g.steps cs
  let final (cs : List Tree) : Parser Tree := do
    if ← isWord "finally" then
      return node .tryStatement start (← also cs (finallyClause g after))
    else return node .tryStatement start cs
  if ← isWord "finally" then final cs
  else
    require ((← isWord "except") || (← isMark "except*"))
    let cs ← if ← isWord "except" then handlers (isWord "except") (exceptClause g after)
      else handlers (isMark "except*") (exceptGroupClause g after)
    let cs ← if ← isWord "else" then also cs (elseClause g after) else pure cs
    final cs

/-- Words that begin a statement of their own. -/
def statementWords : List String :=
  ["import","from","assert","return","del","raise","pass","break","continue","global","nonlocal",
    "yield"]

/-- Whether the line begins with a plain name in front of a square bracket. Behind the annotation
of a result such a line would have to be a type, so it cannot be a body. -/
def startsGenericLine : Parser Bool := do
  match ← token with
  | .word w => if statementWords.contains w then return false else startsGeneric .line
  | _ => return false

def functionDefinition (g : Grammar) (after : Expect) (start : Cursor) (first : List Tree) :
    Parser Tree := do
  let cs ← also first (keyword "def" {})
  let cs ← also cs (return (← name {}).withField .name)
  let cs ← if ← isMark "[" then
    also cs (return (← typeParameters g {}).withField .typeParameters) else pure cs
  let cs ← also cs (return (← parameters g).withField .parameters)
  if ← isMark "->" then
    let cs ← also cs (mark "->" .operand)
    let cs ← also cs (return (← g.one (.typeHint {} false)).withField .returnType)
    let before ← get
    advance .suite
    let generic ← startsGenericLine
    set before
    require !generic
    return node .functionDefinition start (← body g .body after cs)
  else return node .functionDefinition start (← body g .body after cs)

def classDefinition (g : Grammar) (after : Expect) : Parser Tree := do
  let start ← here
  let first ← keyword "class" {}
  let cs ← also [first] (return (← name {}).withField .name)
  let cs ← if ← isMark "[" then
    also cs (return (← typeParameters g {}).withField .typeParameters) else pure cs
  let cs ← if ← isMark "(" then
    also cs (return (← arguments g false {}).withField .superclasses) else pure cs
  return node .classDefinition start (← body g .body after cs)

/-- A definition, a loop or a with statement behind `async`. -/
def asynchronous (g : Grammar) (after : Expect) : Parser Tree := do
  let start ← here
  let first ← keyword "async" Follow.line.expect
  match ← token with
  | .word "def" => functionDefinition g after start [first]
  | .word "for" => forStatement g after start [first]
  | .word "with" => withStatement g after start [first]
  | _ => failure

def decorator (g : Grammar) : Parser Tree := do
  let start ← here
  let first ← mark "@" .operand
  let cs ← also [first] (g.expression .line)
  require ((← token) == .newline)
  let trailing ← waiting
  advance {}
  return node .decorator start (cs ++ trailing)

def decorated (g : Grammar) (after : Expect) : Parser Tree := do
  let start ← here
  let first ← decorator g
  let cs ← loop (fun cs => do
    if ← isMark "@" then return some (← also cs (decorator g)) else return none) g.steps [first]
  let definition : Parser Tree := do
    match ← token with
    | .word "class" => classDefinition g after
    | .word "def" => functionDefinition g after (← here) []
    | .word "async" =>
      let inner ← here
      let word ← keyword "async" {}
      functionDefinition g after inner [word]
    | _ => failure
  return node .decoratedDefinition start (← also cs (return (← definition).withField .definition))

def caseClause (g : Grammar) : Parser Tree := do
  let start ← here
  let first ← keyword "case" .operand
  let more : Parser Bool := return !(← isMark ":") && !(← isWord "if")
  let cs ← commas g.steps .operand more (return [← g.one (.casePattern {})]) [first]
  let cs ← if ← isWord "if" then
    also cs (do
      let inner ← here
      let word ← keyword "if" .operand
      return (node .ifClause inner (← also [word] (g.expression {}))).withField .guard)
    else pure cs
  return node .caseClause start (← body g .consequence {dedent := true} cs)

/-- The cases of a match statement. -/
def matchBody (g : Grammar) (after : Expect) : Parser Tree := do
  let start ← here
  match ← token with
  | .newline =>
    advance after
    return node .block start []
  | .indent =>
    advance {dedent := true}
    let cs ← loop (fun cs => do
      if ← isWord "case" then
        return some (← also cs (return (← caseClause g).withField .alternative))
      else return none) g.steps []
    require ((← token) == .dedent)
    let trailing ← waiting
    advance after
    return node .block start (cs ++ trailing)
  | _ => failure

def matchStatement (g : Grammar) (after : Expect) : Parser Tree := do
  let start ← here
  let first ← keyword "match" Follow.line.orOperand
  let subject : Parser (List Tree) := return [(← g.expression {}).withField .subject]
  let cs ← commas g.steps .operand (return !(← isMark ":")) subject [first]
  let cs ← also cs (mark ":" {newline := true,indent := true})
  return node .matchStatement start
    (← also cs (return (← matchBody g after).withField .body))

/-- `match` begins a match statement, or is a name. If both readings are possible and end at the
same place, which takes a subscript with an annotation, it is a name. -/
def matching (g : Grammar) (after : Expect) : Parser (List Tree) := do
  let before ← get
  (do let t ← matchStatement g after
      let behind ← get
      set before
      (do let line ← lineOfStatements g after
          let s ← get
          require (s.start.place == behind.start.place && s.token == behind.token &&
            s.layout == behind.layout)
          return line) <|> (do set behind; return [t])) <|> lineOfStatements g after

/-- One statement with a body, or the statements of one line. -/
def statement (g : Grammar) (after : Expect) : Parser (List Tree) := do
  match ← token with
  | .word "if" => return [← ifStatement g after]
  | .word "for" => return [← forStatement g after (← here) []]
  | .word "while" => return [← whileStatement g after]
  | .word "try" => return [← tryStatement g after]
  | .word "with" => return [← withStatement g after (← here) []]
  | .word "def" => return [← functionDefinition g after (← here) []]
  | .word "class" => return [← classDefinition g after]
  | .word "async" => (return [← asynchronous g after]) <|> lineOfStatements g after
  | .word "match" => matching g after
  | .mark "@" => return [← decorated g after]
  | _ => lineOfStatements g after

/-- The body of a header: nothing, an indented block, or the rest of the line. Comments in front
of an indented block stay outside it. -/
def suite (g : Grammar) (after : Expect) : Parser (List Tree) := do
  let start ← here
  match ← token with
  | .newline =>
    advance after
    return [node .block start []]
  | .indent =>
    advance .block
    let leading ← waiting
    let inner ← here
    let cs ← loop (fun cs => do
      if (← token) == .dedent then return none
      else return some (← alsoAll cs (statement g .block))) g.steps []
    let trailing ← waiting
    advance after
    return leading ++ [node .block inner (cs ++ trailing)]
  | _ => return [node .block start (← lineOfStatements g after)]

end Excerpt.Syntax.Grammar
