import Excerpt.Syntax.Grammar.Operand

/-!
Patterns of case clauses.
-/
namespace Excerpt.Syntax.Grammar
open Excerpt.Text Excerpt.Syntax.Parser

def number (after : Expect) : Parser Tree := do
  match ← token with
  | .integer => take (.named .integer) after
  | .float => take (.named .float) after
  | _ => failure

/-- A number with an optional sign; a second number behind a sign makes it complex. -/
def numberPattern (f : Follow) : Parser (List Tree) := do
  let start ← here
  let cs ← if ← isMark "-" then also [← mark "-" .operand] (number f.expect)
    else pure [← number f.expect]
  if ← isOneOf ["+","-"] then
    let sign : Parser Tree := do
      if ← isMark "+" then mark "+" {} else mark "-" {}
    let cs ← also cs sign
    return [node .complexPattern start (← also cs (number f.expect))]
  else return cs

/-- Names with points between them. -/
def dottedName (n : Nat) (after : Expect) : Parser Tree := do
  let start ← here
  let first ← name after
  let all ← loop (fun cs => do
    if ← isMark "." then
      let cs ← also cs (mark "." {})
      return some (← also cs (name after))
    else return none) n [first]
  return node .dottedName start all

/-- Patterns with commas between them, up to a closing bracket. -/
def patternsUpTo (g : Grammar) (close : String) (f : Follow) (cs : List Tree) :
    Parser (List Tree) := do
  let cs ← if ← isMark close then pure cs
    else
      let more : Parser Bool := return !(← isMark close)
      commas g.steps bracketed more (return [← g.one (.casePattern .bracket)]) cs
  also cs (mark close f.expect)

def splatPattern (f : Follow) (spelling : String) : Parser Tree := do
  let start ← here
  let star ← mark spelling {}
  let place : Parser Tree := do
    if ← isWord "_" then keyword "_" f.expect else name f.expect
  return node .splatPattern start (← also [star] place)

/-- A pattern that is no union. A signed number is two nodes. -/
def closedPattern (g : Grammar) (simple : Parser (List Tree)) (f : Follow) :
    Parser (List Tree) := do
  let start ← here
  match ← token with
  | .mark "*" => return [← splatPattern f "*"]
  | .mark "**" => return [← splatPattern f "**"]
  | .mark "[" =>
    let first ← mark "[" bracketed
    return [node .listPattern start (← patternsUpTo g "]" f [first])]
  | .mark "(" =>
    let first ← mark "(" bracketed
    return [node .tuplePattern start (← patternsUpTo g ")" f [first])]
  | .mark "\x7b" =>
    let first ← mark "\x7b" bracketed
    let item : Parser (List Tree) := do
      if ← isMark "*" then return [← splatPattern .bracket "*"]
      if ← isMark "**" then return [← splatPattern .bracket "**"]
      let key ← simple
      let cs ← also (key.map (·.withField .key)) (mark ":" .operand)
      also cs (return (← g.one (.casePattern .bracket)).withField .value)
    let more : Parser Bool := return !(← isMark "\x7d")
    let cs ← if ← isMark "\x7d" then pure [first]
      else commas g.steps bracketed more item [first]
    return [node .dictPattern start (← also cs (mark "\x7d" f.expect))]
  | .mark "-" | .integer | .float => numberPattern f
  | .stringStart _ => return [← strings g f]
  | .word "True" => return [← take (.named .trueLiteral) f.expect]
  | .word "False" => return [← take (.named .falseLiteral) f.expect]
  | .word "None" => return [← take (.named .noneLiteral) f.expect]
  | .word "_" => return [← keyword "_" f.expect]
  | .word _ =>
    let path ← dottedName g.steps f.expect
    if ← isMark "(" then
      let cs ← also [path] (mark "(" bracketed)
      return [node .classPattern start (← patternsUpTo g ")" f cs)]
    else return [path]
  | _ => failure

/-- A pattern or a union of patterns. The keys of a dictionary pattern are read with `keys`
rounds left. -/
def simplePattern (g : Grammar) (f : Follow) : Nat → Parser (List Tree)
  | 0 => failure
  | keys + 1 => do
    let start ← here
    let part : Parser (List Tree) := closedPattern g (simplePattern g {} keys) f
    let first ← part
    if ← isMark "|" then
      let all ← loop (fun cs => do
        if ← isMark "|" then
          let cs ← also cs (mark "|" .operand)
          return some (← alsoAll cs part)
        else return none) g.steps first
      return [node .unionPattern start all]
    else return first

/-- A whole pattern: a name with a value, or a simple pattern, bound to names behind it. -/
def casePattern (g : Grammar) (f : Follow) : Parser Tree := do
  let start ← here
  let named : Parser (List Tree) := do
    match ← token with
    | .word w =>
      require !(["True","False","None","_"].contains w)
      let first ← name f.expect
      require (← isMark "=")
      let cs ← also [first] (mark "=" .operand)
      return [node .keywordPattern start (← alsoAll cs (simplePattern g f g.steps))]
    | _ => failure
  let first := node .casePattern start (← named <|> simplePattern g f g.steps)
  loop (fun left => do
    if ← isWord "as" then
      let cs ← also [left] (keyword "as" {})
      let cs ← also cs (name f.expect)
      return some (node .casePattern start [node .asPattern start cs])
    else return none) g.steps first

end Excerpt.Syntax.Grammar
