import Excerpt.Syntax.Grammar.Quoted
import Excerpt.Syntax.Grammar.Target

/-!
Displays: lists, tuples, sets, dictionaries and the comprehensions of them.
-/
namespace Excerpt.Syntax.Grammar
open Excerpt.Text Excerpt.Syntax.Parser

def isClause : Parser Bool :=
  return match ← token with
    | .word w => w == "for" || w == "async" || w == "if"
    | _ => false

def isLoopClause : Parser Bool :=
  return match ← token with
    | .word w => w == "for" || w == "async"
    | _ => false

/-- Brackets that hold nothing but a splat. -/
def isBareSplat (t : Tree) : Bool :=
  t.is .tuple &&
    match t.children.filter (fun c => !c.isExtra) with
    | [_,inner,_] => inner.is .listSplat || inner.is .parenthesizedListSplat
    | _ => false

/-- A splat in brackets is a node of its own where an element is expected; brackets around such
brackets count as plain ones. -/
def asElement (kind : Kind) (t : Tree) : Tree :=
  if isBareSplat t then
    (t.withKind kind).withChildren (t.children.map fun c =>
      if c.is .parenthesizedListSplat then c.withKind .parenthesizedExpression else c)
  else t

/-- A splat over a whole expression. -/
def splat (g : Grammar) (spelling : String) (kind : Kind) : Parser Tree := do
  let start ← here
  let star ← mark spelling .operand
  return node kind start (← also [star] (g.expression .bracket))

/-- An element of a display or an argument. A splat covers the whole expression behind it, unless
that makes it the body of a comprehension or a key. -/
def element (g : Grammar) : Parser Tree := do
  if ← isMark "*" then
    let before ← get
    let t ← splat g "*" .listSplat
    if (← isLoopClause) || (← isMark ":") then
      set before
      g.expression .bracket
    else return t
  else g.expression .bracket

/-- An element of a display, where a yield may stand too. Two stars are a splat of a splat. -/
def displayElement (g : Grammar) : Parser Tree := do
  if ← isMark "**" then shorten
  if ← isWord "yield" then yielding g .bracket else element g

def bracketed : Expect := {strings := true,close := true}

/-- One target of a loop, or a splat over one. -/
def loopTargetItem (g : Grammar) : Parser Tree := do
  if ← isMark "*" then
    let start ← here
    let star ← mark "*" .operand
    target (return node .listSplat start (← also [star] (g.one (.chain {}))))
  else target (g.one (.chain {}))

/-- The targets of a loop, up to the word `in`. -/
def loopTarget (g : Grammar) : Parser Tree := do
  let start ← here
  let more : Parser Bool := return !(← isWord "in")
  let all ← commas g.steps .operand more (return [← loopTargetItem g]) []
  match all with
  | [single] => return single.withField .left
  | _ => return (node .patternList start all).withField .left

/-- The clause of a comprehension that ranges over something. The commas between its sources
share their role. -/
def loopClause (g : Grammar) : Parser Tree := do
  let start ← here
  let cs ← if ← isWord "async" then
    also [← keyword "async" {}] (keyword "for" .operand)
    else pure [← keyword "for" .operand]
  let cs ← also cs (loopTarget g)
  let cs ← also cs (keyword "in" .operand)
  let source : Parser Tree := return (← g.one (.source .bracket)).withField .right
  let cs ← also cs source
  let (cs,_) ← loop (fun (cs,continues) => do
    if continues && (← isMark ",") then
      let between ← waiting
      let comma ← mark "," bracketed
      if (← isOneOf [")","]","\x7d"]) || (← isClause) then
        return some (cs ++ between ++ [comma],false)
      else
        return some (← also (cs ++ between ++ [comma.withField .right]) source,true)
    else return none) g.steps (cs,true)
  return node .forInClause start cs

def conditionClause (g : Grammar) : Parser Tree := do
  let start ← here
  let first ← keyword "if" .operand
  return node .ifClause start (← also [first] (g.one (.expression .bracket false)))

/-- The clauses of a comprehension behind its body, and its closing bracket. -/
def comprehension (g : Grammar) (kind : Kind) (start : Cursor)
    (close : String) (after : Expect) (children : List Tree) : Parser Tree := do
  let cs ← also children (loopClause g)
  let cs ← loop (fun cs => do
    if ← isWord "if" then return some (← also cs (conditionClause g))
    else if ← isLoopClause then return some (← also cs (loopClause g))
    else return none) g.steps cs
  return node kind start (← also cs (mark close after))

/-- Gives the last of `children` the role of a body. -/
def asBody (children : List Tree) : List Tree :=
  match children.getLast? with
  | some t => children.dropLast ++ [t.withField .body]
  | none => []

/-- The elements behind the first one, and the closing bracket. -/
def moreElements (g : Grammar) (kind : Kind) (start : Cursor) (close : String) (f : Follow)
    (children : List Tree) : Parser Tree := do
  let (cs,_) ← loop (fun (cs,continues) => do
    if continues && (← isMark ",") then
      let cs ← also cs (mark "," bracketed)
      if ← isMark close then return some (cs,false)
      else return some (← also cs (displayElement g),true)
    else return none) g.steps (children,true)
  let cs ← also cs (mark close f.expect)
  return node kind start (cs.map (asElement .parenthesizedListSplat))

/-- What begins with a round bracket: a tuple, a generator, or an expression in brackets. -/
def parenthesized (g : Grammar) (f : Follow) : Parser Tree := do
  let start ← here
  let first ← mark "(" bracketed
  if ← isMark ")" then return node .tuple start (← also [first] (mark ")" f.expect))
  let yields ← isWord "yield"
  let cs ← also [first] (displayElement g)
  if !yields && (← isLoopClause) then
    comprehension g .generatorExpression start ")" f.expect (asBody cs)
  else if ← isMark "," then moreElements g .tuple start ")" f cs
  else
    let cs ← also cs (mark ")" f.expect)
    let cs := cs.map (asElement .parenthesizedListSplat)
    if cs.any fun t => t.is .listSplat || t.is .parenthesizedListSplat then
      return node .tuple start cs
    else return node .parenthesizedExpression start cs

/-- A list or a comprehension of one. -/
def listDisplay (g : Grammar) (f : Follow) : Parser Tree := do
  let start ← here
  let first ← mark "[" bracketed
  if ← isMark "]" then return node .list start (← also [first] (mark "]" f.expect))
  let yields ← isWord "yield"
  let cs ← also [first] (displayElement g)
  if !yields && (← isLoopClause) then
    comprehension g .listComprehension start "]" f.expect (asBody cs)
  else moreElements g .list start "]" f cs

/-- A key and its value. Behind the key only the colon may follow, except where the key could
still turn out to be an element of a set. -/
def pairBehind (g : Grammar) (start : Cursor) (key : Tree) : Parser Tree := do
  let cs ← also [key.withField .key] (mark ":" .operand)
  return node .pair start (← also cs (return (← g.expression .bracket).withField .value))

def dictionaryItem (g : Grammar) : Parser Tree := do
  if ← isMark "**" then splat g "**" .dictionarySplat
  else
    let start ← here
    pairBehind g start (← g.expression {})

/-- The items behind the first one of a dictionary, and its closing brace. -/
def moreItems (g : Grammar) (start : Cursor) (f : Follow) (children : List Tree) :
    Parser Tree := do
  let (cs,_) ← loop (fun (cs,continues) => do
    if continues && (← isMark ",") then
      let cs ← also cs (mark "," bracketed)
      if ← isMark "\x7d" then return some (cs,false)
      else return some (← also cs (dictionaryItem g),true)
    else return none) g.steps (children,true)
  return node .dictionary start (← also cs (mark "\x7d" f.expect))

/-- What begins with a brace: a dictionary, a set, or a comprehension of either. -/
def braced (g : Grammar) (f : Follow) : Parser Tree := do
  let start ← here
  let first ← mark "\x7b" bracketed
  if ← isMark "\x7d" then
    return node .dictionary start (← also [first] (mark "\x7d" f.expect))
  if ← isMark "," then
    let cs ← also [first] (mark "," f.expect)
    return node .dictionary start (← also cs (mark "\x7d" f.expect))
  if ← isMark "**" then moreItems g start f (← also [first] (dictionaryItem g))
  else
    let yields ← isWord "yield"
    let between ← waiting
    let inner ← here
    let value ← displayElement g
    if !yields && (← isMark ":") then
      let cs := first :: between ++ [← pairBehind g inner value]
      if ← isLoopClause then
        comprehension g .dictionaryComprehension start "\x7d" f.expect (asBody cs)
      else moreItems g start f cs
    else
      let cs := first :: between ++ [value]
      if !yields && (← isLoopClause) then
        comprehension g .setComprehension start "\x7d" f.expect (asBody cs)
      else moreElements g .set start "\x7d" f cs

end Excerpt.Syntax.Grammar
