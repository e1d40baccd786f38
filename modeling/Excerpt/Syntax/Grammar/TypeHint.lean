import Excerpt.Syntax.Grammar.Operand

/-!
Annotations. A plain name in front of a square bracket is a generic type and not a subscript; such
a type can have members, be united with others, and be constrained behind a colon.
-/
namespace Excerpt.Syntax.Grammar
open Excerpt.Text Excerpt.Syntax.Parser

/-- Words that are never a plain name in an annotation, except behind a star. -/
def typeWords : List String :=
  ["True","False","None","not","lambda","await","print","exec","async","match"]

/-- Words that a starred type cannot name. -/
def splatTypeWords : List String :=
  ["True","False","None","await","print","exec","async","match","type"]

/-- Types between square brackets. -/
def typeParameters (g : Grammar) (after : Expect) : Parser Tree := do
  let start ← here
  let first ← mark "[" .operand
  let more : Parser Bool := return !(← isMark "]")
  let element : Parser (List Tree) := return [← g.one (.typeHint .bracket true)]
  let cs ← commas g.steps bracketed more element [first]
  return node .typeParameter start (← also cs (mark "]" after))

/-- Whether the current token is a plain name in front of a square bracket. -/
def startsGeneric (f : Follow) : Parser Bool := do
  match ← token with
  | .word w =>
    if typeWords.contains w then return false
    let before ← get
    advance f.expect
    let generic ← isMark "["
    set before
    return generic
  | _ => return false

def genericType (g : Grammar) (f : Follow) : Parser Tree := do
  let start ← here
  let first ← name f.expect
  return node .genericType start (← also [first] (typeParameters g f.expect))

/-- A starred name that nothing but a type can continue. -/
def splatType (f : Follow) : Parser Tree := do
  let start ← here
  let star ← match ← token with
    | .mark "*" => mark "*" .operand
    | .mark "**" => mark "**" {}
    | _ => failure
  match ← token with
  | .word w =>
    require !(splatTypeWords.contains w)
    let t := node .splatType start (← also [star] (name f.expect))
    match ← token with
    | .mark s => require ([",","]",")",":","=",".","|",";"].contains s)
    | .word _ => failure
    | _ => pure ()
    return t
  | _ => failure

/-- A type without members, unions or constraints, and whether it can have them: what is written
as an expression cannot be continued, except by a constraint. -/
def plainType (g : Grammar) (f : Follow) : Parser (Tree × Bool) := do
  let start ← here
  let wrap (t : Tree) : Tree := node .typeExpression start [t]
  if ← startsGeneric f then return (wrap (← genericType g f),true)
  else (do return (wrap (← splatType f),true)) <|> (do return (wrap (← g.expression f),false))

def typeHint (g : Grammar) (f : Follow) (constraint : Bool) : Parser Tree := do
  let start ← here
  let wrap (kind : Kind) (cs : List Tree) : Tree :=
    node .typeExpression start [node kind start cs]
  let (first,continues) ← plainType g f
  let (left,_) ← loop (fun (left,continues) => do
    if continues && (← isMark ".") then
      let cs ← also [left] (mark "." {})
      return some (wrap .memberType (← also cs (name f.expect)),true)
    else if continues && (← isMark "|") then
      let cs ← also [left] (mark "|" .operand)
      let between ← waiting
      let (right,_) ← plainType g f
      return some (wrap .unionType (cs ++ between ++ [right]),true)
    else return none) g.steps (first,continues)
  if constraint && (← isMark ":") then
    let cs ← also [left] (mark ":" .operand)
    return wrap .constrainedType (← also cs (g.one (.typeHint f true)))
  else return left

end Excerpt.Syntax.Grammar
