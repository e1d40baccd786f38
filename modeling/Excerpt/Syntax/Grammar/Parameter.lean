import Excerpt.Syntax.Grammar.Operand

/-!
Parameters of functions and lambdas. Only the parameters of a function, which stand in brackets,
can carry annotations.
-/
namespace Excerpt.Syntax.Grammar
open Excerpt.Text Excerpt.Syntax.Parser

/-- The annotation of a parameter, if one may follow and does. -/
def parameterType (g : Grammar) (f : Follow) (cs : List Tree) : Parser (List Tree) := do
  let cs ← also cs (mark ":" .operand)
  also cs (return (← g.one (.typeHint f true)).withField .type)

def parameterDefault (g : Grammar) (f : Follow) (cs : List Tree) : Parser (List Tree) := do
  let cs ← also cs (mark "=" .operand)
  also cs (return (← g.expression f).withField .value)

/-- A parameter with a name of its own. -/
def namedParameter (g : Grammar) (f : Follow) : Parser Tree := do
  let start ← here
  let first ← name f.expect
  if f.close && (← isMark ":") then
    let cs ← parameterType g f [first]
    if ← isMark "=" then
      let cs ← parameterDefault g f (cs.set 0 (first.withField .name))
      return node .typedDefaultParameter start cs
    else return node .typedParameter start cs
  else if ← isMark "=" then
    return node .defaultParameter start (← parameterDefault g f [first.withField .name])
  else return first

/-- A parameter that collects arguments; a star on its own only separates. -/
def collectingParameter (g : Grammar) (f : Follow) (spelling : String) (kind : Kind) :
    Parser Tree := do
  let start ← here
  let star ← mark spelling f.orOperand
  if spelling == "*" && (← isOneOf [",",")",":"]) then
    return node .keywordSeparator start [star]
  let cs ← also [star] (do
    let place ← g.one (.chain f)
    require place.isPlace
    return place)
  let collecting := node kind start cs
  if f.close && (← isMark ":") then
    return node .typedParameter start (← parameterType g f [collecting])
  else return collecting

def tupleParameter (g : Grammar) (f : Follow) : Parser Tree := do
  let start ← here
  let first ← target (parenthesized g f)
  if ← isMark "=" then
    return node .defaultParameter start (← parameterDefault g f [first.withField .name])
  else return first

def parameter (g : Grammar) (f : Follow) : Parser Tree := do
  match ← token with
  | .mark "*" => collectingParameter g f "*" .listSplatPattern
  | .mark "**" => collectingParameter g f "**" .dictionarySplatPattern
  | .mark "(" => tupleParameter g f
  | .mark "/" =>
    let start ← here
    return node .positionalSeparator start [← mark "/" f.expect]
  | _ => namedParameter g f

/-- The parameters of a function, in brackets. -/
def parameters (g : Grammar) : Parser Tree := do
  let start ← here
  let first ← mark "(" {close := true}
  let cs ← if ← isMark ")" then pure [first]
    else
      let more : Parser Bool := return !(← isMark ")")
      commas g.steps {close := true} more (return [← parameter g .bracket]) [first]
  return node .parameters start (← also cs (mark ")" {}))

/-- A lambda whose body is read by `body`. -/
def lambda (g : Grammar) (body : Parser Tree) : Parser Tree := do
  let start ← here
  let first ← keyword "lambda" {}
  let cs ← if ← isMark ":" then pure [first]
    else also [first] (do
      let inner ← here
      let more : Parser Bool := return !(← isMark ":")
      let ps ← commas g.steps {} more (return [← parameter g {}]) []
      return (node .lambdaParameters inner ps).withField .parameters)
  let cs ← also cs (mark ":" .operand)
  return node .lambda start (← also cs (return (← body).withField .body))

end Excerpt.Syntax.Grammar
