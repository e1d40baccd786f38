import Excerpt.Syntax.Grammar.Display

/-!
Operands: names, literals, displays, signed and awaited operands, splats, and what can be appended
to an operand, that is members, calls and subscripts.
-/
namespace Excerpt.Syntax.Grammar
open Excerpt.Text Excerpt.Syntax.Parser

/-- Something appended to an operand: the node it makes, the role the operand plays in it, and
the children behind the operand. -/
structure Suffix where
  kind : Kind
  role : Field
  parts : List Tree

namespace Suffix

def apply (start : Cursor) (base : Tree) (s : Suffix) : Tree :=
  node s.kind start (base.withField s.role :: s.parts)

/-- Members and subscripts can be assigned to, calls cannot. -/
def isPlace (s : Suffix) : Bool := s.kind == .member || s.kind == .subscript

end Suffix

/-- An argument of a call: an expression, a splat of either sort, or a name with a value. -/
def argument (g : Grammar) : Parser Tree := do
  if ← isMark "**" then splat g "**" .dictionarySplat
  else
    let start ← here
    let value ← element g
    if value.is .identifier && (← isMark "=") then
      let cs ← also [value.withField .name] (mark "=" .operand)
      return node .keywordArgument start
        (← also cs (return (← g.expression .bracket).withField .value))
    else return value

/-- The arguments of a call in brackets. A generator may stand in their place if `generator`. -/
def arguments (g : Grammar) (generator : Bool) (after : Expect) : Parser Tree := do
  let start ← here
  let first ← mark "(" bracketed
  if ← isMark ")" then return node .argumentList start (← also [first] (mark ")" after))
  if ← isMark "," then
    let cs ← also [first] (mark "," {close := true})
    return node .argumentList start (← also cs (mark ")" after))
  let cs ← also [first] (argument g)
  if generator && (← isLoopClause) then
    require (cs.all fun t => !t.is .keywordArgument && !t.is .dictionarySplat)
    comprehension g .generatorExpression start ")" after (asBody cs)
  else
    let (cs,_) ← loop (fun (cs,continues) => do
      if continues && (← isMark ",") then
        let cs ← also cs (mark "," bracketed)
        if ← isMark ")" then return some (cs,false)
        else return some (← also cs (argument g),true)
      else return none) g.steps (cs,true)
    let cs ← also cs (mark ")" after)
    return node .argumentList start (cs.map (asElement .parenthesizedExpression))

/-- One index of a subscript: an expression or a slice. -/
def index (g : Grammar) : Parser Tree := do
  let start ← here
  let bound (cs : List Tree) : Parser (List Tree) := do
    if ← isOneOf ["]",",",":"] then pure cs else also cs (g.expression .bracket)
  let lower ← if ← isMark ":" then pure [] else pure [← g.expression .bracket]
  if ← isMark ":" then
    let colon : Parser Tree := mark ":" bracketed
    let cs ← if lower.isEmpty then pure [← colon] else also lower colon
    let cs ← bound cs
    let cs ← if ← isMark ":" then bound (← also cs colon) else pure cs
    return (node .slice start cs).withField .subscript
  else
    match lower with
    | [single] => return single.withField .subscript
    | _ => failure

/-- What is appended to an operand, if anything is. -/
def suffix (g : Grammar) (f : Follow) : Parser (Option Suffix) := do
  if ← isMark "." then
    let cs ← also [] (mark "." {})
    let cs ← also cs (return (← name f.expect).withField .member)
    return some ⟨.member,.object,cs⟩
  else if ← isMark "(" then
    let cs ← also [] (return (← arguments g true f.expect).withField .arguments)
    return some ⟨.call,.function,cs⟩
  else if ← isMark "[" then
    let cs ← also [] (mark "[" .operand)
    let more : Parser Bool := return !(← isMark "]")
    let cs ← commas g.steps bracketed more (return [← index g]) cs
    return some ⟨.subscript,.value,← also cs (mark "]" f.expect)⟩
  else return none

/-- A name, a literal or a display. Every word that is no literal counts as a name. -/
def atom (g : Grammar) (f : Follow) : Parser Tree := do
  match ← token with
  | .word "True" => take (.named .trueLiteral) f.expect
  | .word "False" => take (.named .falseLiteral) f.expect
  | .word "None" => take (.named .noneLiteral) f.expect
  | .word _ => take (.named .identifier) f.expect
  | .integer => take (.named .integer) f.expect
  | .float => take (.named .float) f.expect
  | .stringStart _ => strings g f
  | .mark "..." => take (.named .ellipsis) f.expect
  | .mark "(" => parenthesized g f
  | .mark "[" => listDisplay g f
  | .mark "\x7b" => braced g f
  | _ => failure

def appended (g : Grammar) (f : Follow) (start : Cursor) (base : Tree) : Parser Tree :=
  loop (fun t => do
    match ← suffix g f with
    | some s => return some (s.apply start t)
    | none => return none) g.steps base

def chain (g : Grammar) (f : Follow) : Parser Tree := do
  let start ← here
  appended g f start (← atom g f)

/-- How tightly a binary operator binds. -/
def binaryLevel (spelling : String) : Option Nat :=
  match spelling with
  | "|" => some 14
  | "&" => some 15
  | "^" => some 16
  | "<<" | ">>" => some 17
  | "+" | "-" => some 18
  | "*" | "@" | "/" | "%" | "//" => some 19
  | "**" => some 21
  | _ => none

def isBinaryOperator : Parser Bool :=
  return match ← token with
    | .mark s => (binaryLevel s).isSome
    | _ => false

/-- A splat in a plain expression. Behind the star stands a chain of suffixes on a first operand.
The star covers the whole chain if it ends in a place and no operator follows; otherwise it covers
as little of the chain as is a place. -/
def starred (g : Grammar) (f : Follow) : Parser Tree := do
  let start ← here
  let star ← mark "*" .operand
  let between ← waiting
  let inner ← here
  let base ← atom g f
  let suffixes ← loop (fun ss => do
    match ← suffix g f with
    | some s => return some (ss ++ [s])
    | none => return none) g.steps ([] : List Suffix)
  let cover (t : Tree) : Tree := node .listSplat start (star :: between ++ [t])
  let isName := base.is .identifier
  let whole := match suffixes.getLast? with
    | some s => s.isPlace
    | none => isName
  if whole && !(← isBinaryOperator) then return cover (suffixes.foldl (Suffix.apply inner) base)
  else if isName then return suffixes.foldl (Suffix.apply start) (cover base)
  else
    let count := (suffixes.takeWhile fun s => !s.isPlace).length + 1
    require (count ≤ suffixes.length)
    let place := (suffixes.take count).foldl (Suffix.apply inner) base
    return (suffixes.drop count).foldl (Suffix.apply start) (cover place)

/-- Words that can follow a complete operand, so that they do not begin the next one. -/
def followingWords : List String :=
  ["and","or","not","in","is","if","else","as","for","from"]

/-- `await` waits for the operand behind it; where none follows it is a name. -/
def awaited (g : Grammar) (f : Follow) : Parser Tree := do
  let start ← here
  let first ← keyword "await" f.orOperand
  let waits ← match ← token with
    | .word w => pure !(followingWords.contains w)
    | _ => startsOperand
  if waits then return node .awaitExpression start (← also [first] (g.one (.binary f 20)))
  else appended g f start (first.withKind .identifier)

def signed (g : Grammar) (f : Follow) (spelling : String) : Parser Tree := do
  let start ← here
  let operator ← mark spelling .operand
  let cs ← also [operator.withField .operator]
    (return (← g.one (.binary f 20)).withField .argument)
  return node .unaryOperator start cs

def operand (g : Grammar) (f : Follow) : Parser Tree := do
  match ← token with
  | .mark "-" => signed g f "-"
  | .mark "+" => signed g f "+"
  | .mark "~" => signed g f "~"
  | .mark "*" => starred g f
  | .word "await" => awaited g f
  | _ => chain g f

end Excerpt.Syntax.Grammar
