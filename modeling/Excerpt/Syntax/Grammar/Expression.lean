import Excerpt.Syntax.Grammar.Parameter

/-!
Expressions. From loose to tight: lambdas, conditionals, `as`, `or`, `and`, `not`, comparisons,
then the binary operators by level. Below comparisons only operands stand, where `not` and
`lambda` are names.
-/
namespace Excerpt.Syntax.Grammar
open Excerpt.Text Excerpt.Syntax.Parser

/-- Binary operators of at least the given level. Powers group to the right, others to the left. -/
def binary (g : Grammar) (f : Follow) (level : Nat) : Parser Tree := do
  let start ← here
  let first ← operand g f
  loop (fun left => do
    match ← token with
    | .mark spelling =>
      match binaryLevel spelling with
      | some own =>
        if level ≤ own then
          let cs ← also [left.withField .left]
            (return (← mark spelling .operand).withField .operator)
          let next := if own = 21 then 21 else own + 1
          let cs ← also cs (return (← g.one (.binary f next)).withField .right)
          return some (node .binaryOperator start cs)
        else return none
      | none => return none
    | _ => return none) g.steps first

/-- A comparison operator, of one word or two. -/
def comparator : Parser (Option Tree) := do
  let start ← here
  match ← token with
  | .mark s =>
    if ["<","<=","==","!=",">=",">","<>"].contains s then return some (← mark s .operand)
    else return none
  | .word "in" => return some (← keyword "in" .operand)
  | .word "not" =>
    let first ← keyword "not" {}
    return some (compound "not in" start (← also [first] (keyword "in" .operand)))
  | .word "is" =>
    let first ← keyword "is" .operand
    if ← isWord "not" then
      return some (compound "is not" start (← also [first] (keyword "not" .operand)))
    else return some first
  | _ => return none

/-- A chain of comparisons is one node. A name before `:=` is bound to what follows. -/
def comparison (g : Grammar) (f : Follow) : Parser Tree := do
  let start ← here
  let first ← g.one (.binary f 14)
  if first.is .identifier && (← isMark ":=") then
    let cs ← also [first.withField .name] (mark ":=" .operand)
    let cs ← also cs (return (← g.one (.disjunction f)).withField .value)
    return node .namedExpression start cs
  else
    let all ← loop (fun cs => do
      let between ← waiting
      match ← comparator with
      | some operator =>
        let cs := cs ++ between ++ [operator.withField .operators]
        return some (← also cs (g.one (.binary f 14)))
      | none =>
        modify fun s => {s with waiting := between}
        return none) g.steps [first]
    match all with
    | [single] => return single
    | _ => return node .comparisonOperator start all

def negation (g : Grammar) (f : Follow) : Parser Tree := do
  let start ← here
  match ← token with
  | .word "not" =>
    let first ← keyword "not" .operand
    let cs ← also [first] (return (← g.one (.negation f)).withField .argument)
    return node .notOperator start cs
  | .word "lambda" => lambda g (g.expression f)
  | _ => comparison g f

/-- Operands joined by a boolean operator, grouped to the left. -/
def joined (g : Grammar) (operator : String) (part : Parser Tree) : Parser Tree := do
  let start ← here
  let first ← part
  loop (fun left => do
    if ← isWord operator then
      let cs ← also [left.withField .left]
        (return (← keyword operator .operand).withField .operator)
      let cs ← also cs (return (← part).withField .right)
      return some (node .booleanOperator start cs)
    else return none) g.steps first

def conjunction (g : Grammar) (f : Follow) : Parser Tree := joined g "and" (negation g f)

def disjunction (g : Grammar) (f : Follow) : Parser Tree := joined g "or" (conjunction g f)

def expressionOf (g : Grammar) (f : Follow) (conditional : Bool) : Parser Tree := do
  let start ← here
  let first ← disjunction g f
  let left ← loop (fun left => do
    if ← isWord "as" then
      let cs ← also [left] (keyword "as" .operand)
      let cs ← also cs (do
        let inner ← here
        let aim ← g.one (.disjunction f)
        return (node .asPatternTarget inner [aim]).withField .alias)
      return some (node .asPattern start cs)
    else return none) g.steps first
  if conditional && (← isWord "if") then
    let cs ← also [left] (keyword "if" .operand)
    let cs ← also cs (g.expression {})
    let cs ← also cs (keyword "else" .operand)
    return node .conditionalExpression start (← also cs (g.expression f))
  else return left

/-- What a loop clause ranges over: an `if` behind it belongs to the comprehension. -/
def source (g : Grammar) (f : Follow) : Parser Tree := do
  if ← isWord "lambda" then lambda g (g.one (.source f)) else expressionOf g f false

end Excerpt.Syntax.Grammar
