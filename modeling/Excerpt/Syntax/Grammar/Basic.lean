import Excerpt.Syntax.Parser

/-!
The goals a parser can pursue. Productions are written against a grammar that says how every
goal is reached with one step less, so that they can be read one at a time.
-/
namespace Excerpt.Syntax
open Excerpt.Text

/-- What may come right after a construct: the end of the line, or a closing bracket. -/
structure Follow where
  newline : Bool := false
  close : Bool := false
deriving DecidableEq, Repr, Inhabited

namespace Follow

def line : Follow := {newline := true}

def bracket : Follow := {close := true}

/-- What is expected behind an operand. -/
def expect (f : Follow) : Expect := {newline := f.newline,close := f.close}

/-- What is expected behind something after which an operand may follow. -/
def orOperand (f : Follow) : Expect := {newline := f.newline,close := f.close,strings := true}

end Follow

/-- An operand has to follow. -/
def Expect.operand : Expect := {strings := true}

/-- Behind the colon of a header: a block, one line of statements, or nothing at all. -/
def Expect.suite : Expect := {newline := true,indent := true,strings := true}

/-- Where a statement of an indented block may begin or the block may close. -/
def Expect.block : Expect := {dedent := true,strings := true}

inductive Goal
  /-- A whole expression; without `conditional` it stops before `if`. -/
  | expression (follow : Follow) (conditional : Bool)
  /-- What a clause of a comprehension ranges over. -/
  | source (follow : Follow)
  | disjunction (follow : Follow)
  | negation (follow : Follow)
  /-- Operators at least as tight as `level`. -/
  | binary (follow : Follow) (level : Nat)
  /-- An operand with everything that is appended to it. -/
  | chain (follow : Follow)
  | rightSide
  /-- An annotation; with `constraint` it may go on behind a colon. -/
  | typeHint (follow : Follow) (constraint : Bool)
  | casePattern (follow : Follow)
  /-- A value replaced in a format string, from its opening brace to its closing one. -/
  | interpolation (kind : Kind)
  /-- The body of a header, with what is expected behind it. -/
  | suite (after : Expect)
deriving Repr

/-- The ways to reach goals with fewer steps left, and how many those are. -/
structure Grammar where
  steps : Nat
  parse : Goal → Parser (List Tree)

namespace Grammar

/-- Reaches a goal that is a single node. -/
def one (g : Grammar) (goal : Goal) : Parser Tree := do
  match ← g.parse goal with
  | [t] => return t
  | _ => failure

def expression (g : Grammar) (f : Follow) : Parser Tree := g.one (.expression f true)

end Grammar

namespace Parser

/-- Whether the current token can begin an operand. -/
def startsOperand : Parser Bool :=
  return match ← token with
    | .word _ | .integer | .float | .stringStart _ => true
    | .mark s => ["(","[","\x7b","-","+","~","*","..."].contains s
    | _ => false

/-- Elements with commas between them and perhaps one at the end, put behind `children`.
`behind` is expected after a comma, and `more` says whether another element follows it. -/
def commas (n : Nat) (behind : Expect) (more : Parser Bool) (element : Parser (List Tree))
    (children : List Tree) : Parser (List Tree) := do
  let first ← alsoAll children element
  let (all,_) ← loop (fun (cs,continues) => do
    if continues && (← isMark ",") then
      let cs ← also cs (mark "," behind)
      if ← more then return some (← alsoAll cs element,true)
      else return some (cs,false)
    else return none) n (first,true)
  return all

end Parser

end Excerpt.Syntax
