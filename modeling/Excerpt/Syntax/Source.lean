import Excerpt.Syntax.Grammar.Compound

/-!
Trees of whole texts. Each goal is reached by its production, whose parts are reached with one
step less; the number of steps is bounded by the length of the text.
-/
namespace Excerpt.Syntax
open Excerpt.Text Excerpt.Syntax.Parser

namespace Grammar

/-- The production of a goal. -/
def produce (g : Grammar) : Goal → Parser (List Tree)
  | .expression f conditional => return [← expressionOf g f conditional]
  | .source f => return [← source g f]
  | .disjunction f => return [← disjunction g f]
  | .negation f => return [← negation g f]
  | .binary f level => return [← binary g f level]
  | .chain f => return [← chain g f]
  | .rightSide => return [← rightSide g]
  | .typeHint f constraint => return [← typeHint g f constraint]
  | .casePattern f => return [← casePattern g f]
  | .interpolation kind => return [← interpolation g kind]
  | .suite after => suite g after

/-- Reaches a goal in a given number of steps. -/
def reach : Nat → Goal → Parser (List Tree)
  | 0,_ => failure
  | n + 1,goal => produce ⟨n,reach n⟩ goal

end Grammar

/-- The statements of a whole text. -/
def statements (g : Grammar) (start : Cursor) : Parser Tree := do
  let cs ← loop (fun cs => do
    if (← token) == .finish then return none
    else return some (← alsoAll cs (Grammar.statement g {strings := true}))) g.steps []
  let trailing ← waiting
  return node .program start (cs ++ trailing)

/-- The tree of a text, if the text has one. -/
def readTree (text : String) : Option Tree :=
  let start := Cursor.ofString text
  let limit := 16 * start.rest.length + 64
  let first := fetch limit {strings := true} Layout.initial [] limit start
  (statements ⟨limit,Grammar.reach limit⟩ start first).map Prod.fst

end Excerpt.Syntax
