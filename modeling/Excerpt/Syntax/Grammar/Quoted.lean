import Excerpt.Syntax.Grammar.Basic
import Excerpt.Syntax.Quotation

/-!
String literals and the values replaced in format strings.
-/
namespace Excerpt.Syntax.Grammar
open Excerpt.Text Excerpt.Syntax.Parser

/-- The pieces of a literal read so far: finished children, and the stretch of content that is
still open with its start, its named parts and its end. -/
structure Quoting where
  children : List Tree
  content : Option (Cursor × List Tree × Cursor)
  finished : Bool

namespace Quoting

def extend (q : Quoting) (start : Cursor) (parts : List Tree) (stop : Cursor) : Quoting :=
  match q.content with
  | none => {q with content := some (start,parts,stop)}
  | some (s,ps,_) => {q with content := some (s,ps ++ parts,stop)}

def settle (q : Quoting) : Quoting :=
  match q.content with
  | none => q
  | some (s,ps,e) =>
    {q with children := q.children ++ [nodeTo .stringContent s e.place.byte ps],content := none}

def push (q : Quoting) (t : Tree) : Quoting :=
  let settled := q.settle
  {settled with children := settled.children ++ [t]}

end Quoting

/-- One piece of the literal opened by `d`. -/
def quotedPiece (g : Grammar) (d : Delimiter) (q : Quoting) : Parser (Option Quoting) := do
  if q.finished then return none
  let s ← get
  let c := s.stop
  match Quotation.piece d s.layout c with
  | .text stop => seek stop; return some (q.extend c [] stop)
  | .backslash stop => seek stop; return some (q.extend c [] stop)
  | .escape stop =>
    seek stop
    return some (q.extend c [leaf (.named .escapeSequence) c stop] stop)
  | .doubledBrace stop =>
    seek stop
    return some (q.extend c [leaf (.named .escapeInterpolation) c stop] stop)
  | .comment start stop =>
    seek stop
    return some (q.push (leaf (.named .comment) start stop))
  | .continuation start stop =>
    seek stop
    return some (q.push (leaf (.named .lineContinuation) start stop))
  | .brace start =>
    seek start
    return some (q.push (← g.one (.interpolation .interpolation)))
  | .close stop =>
    modify fun s => {s with layout := {s.layout with inFormat := false}}
    seek stop
    return some {q.push (leaf (.named .stringEnd) c stop) with finished := true}
  | .broken => failure

/-- One string literal; `after` is expected behind it. -/
def string (g : Grammar) (after : Expect) : Parser Tree := do
  match ← token with
  | .stringStart d =>
    let start ← here
    let stop ← behind
    seek stop
    let q ← loop (quotedPiece g d) g.steps ⟨[leaf (.named .stringStart) start stop],none,false⟩
    advance after
    return node .string start q.children
  | _ => failure

/-- String literals side by side. -/
def strings (g : Grammar) (f : Follow) : Parser Tree := do
  let start ← here
  let first ← string g f.orOperand
  let all ← loop (fun cs => do
    match ← token with
    | .stringStart _ => return some (← also cs (string g f.orOperand))
    | _ => return none) g.steps [first]
  match all with
  | [single] => return single
  | _ => return node .concatenatedString start all

/-- The text of a format specification runs up to a brace or the end of the line. -/
def formatText : List Char → Position → Cursor
  | [],p => ⟨[],p⟩
  | c :: cs,p =>
    if c = '\x7b' || c = '\x7d' || c = '\n' then ⟨c :: cs,p⟩ else formatText cs (p.next c)

/-- A format specification from its colon up to the brace that closes the value. -/
def formatSpecifier (g : Grammar) : Parser Tree := do
  let start ← here
  let colon := start.drop 1
  seek colon
  let (children,stop) ← loop (fun (cs,stop) => do
    let c ← behind
    match c.rest with
    | [] => failure
    | '\x7d' :: _ => return none
    | '\x7b' :: _ =>
      let value ← g.one (.interpolation .formatExpression)
      return some (cs ++ [value],value.endByte)
    | '\n' :: _ =>
      seek (Token.skipBlanks c.rest c.place)
      return some (cs,stop)
    | _ =>
      let after := formatText c.rest c.place
      seek after
      return some (cs,after.place.byte)) g.steps
    ([leaf (.token ":") start colon],colon.place.byte)
  return (nodeTo .formatSpecifier start stop children).withField .formatSpecifier

/-- Expressions separated by commas: one expression, or a list if there is a comma. -/
def expressions (g : Grammar) (f : Follow) : Parser Tree := do
  let start ← here
  let all ← commas g.steps f.orOperand startsOperand (return [← g.expression f]) []
  match all with
  | [single] => return single
  | _ => return node .expressionList start all

/-- A yield, alone, with values, or from another generator. -/
def yielding (g : Grammar) (f : Follow) : Parser Tree := do
  let start ← here
  let first ← keyword "yield" f.orOperand
  if ← isWord "from" then
    let cs ← also [first] (keyword "from" .operand)
    return node .yieldExpression start (← also cs (g.expression f))
  else if ← startsOperand then
    return node .yieldExpression start (← also [first] (expressions g f))
  else return node .yieldExpression start [first]

/-- A replaced value: its expression, then an equals sign, a conversion and a format
specification, each of which may be missing. -/
def interpolation (g : Grammar) (kind : Kind) : Parser Tree := do
  let start ← behind
  seek (start.drop 1)
  advance .operand
  let f := Follow.bracket
  let cs ← also [leaf (.token "\x7b") start (start.drop 1)] (do
    let value ← if ← isWord "yield" then yielding g f else expressions g f
    return value.withField .expression)
  let cs ← if ← isMark "=" then also cs (mark "=" f.expect) else pure cs
  let cs ← if (← token) == .conversion then
    also cs (return (← take (.named .typeConversion) f.expect).withField .typeConversion)
    else pure cs
  if ← isOneOf [":",":="] then
    let cs ← also cs (formatSpecifier g)
    let close ← behind
    seek (close.drop 1)
    return node kind start (cs ++ [leaf (.token "\x7d") close (close.drop 1)])
  else
    require (← isMark "\x7d")
    let cs ← also cs (do
      let s ← get
      seek s.stop
      return leaf (.token "\x7d") s.start s.stop)
    return node kind start cs

end Excerpt.Syntax.Grammar
