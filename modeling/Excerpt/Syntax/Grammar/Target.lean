import Excerpt.Syntax.Grammar.Basic

/-!
Targets of assignments and loops. A target is read as an expression first; this module says which
expressions are targets, and what they look like as such.
-/
namespace Excerpt.Syntax
open Excerpt.Text

/-- Names, subscripts and members can be assigned to as they are. -/
def Tree.isPlace (t : Tree) : Bool := t.is .identifier || t.is .subscript || t.is .member

/-- Comments and line continuations, which may stand between any two parts. -/
def Tree.isExtra (t : Tree) : Bool := t.is .comment || t.is .lineContinuation

namespace Tree

mutual
/-- The target that an expression stands for. Displays become patterns of the same shape, and a
parenthesized target is a pattern of one element. -/
def toTarget? : Tree → Option Tree
  | .node l cs =>
    match l.symbol with
    | .named .identifier | .named .subscript | .named .member => some (.node l cs)
    | .named .listSplat =>
      if cs.all (fun t => !t.isNamed || t.isExtra || t.isPlace) then
        some (.node {l with symbol := .named .listSplatPattern} cs)
      else none
    | .named .tuple | .named .parenthesizedExpression | .named .parenthesizedListSplat =>
      (toTargets? cs).map (.node {l with symbol := .named .tuplePattern})
    | .named .list => (toTargets? cs).map (.node {l with symbol := .named .listPattern})
    | _ => none
/-- The targets among the children of a display; commas, brackets and comments stay. -/
def toTargets? : List Tree → Option (List Tree)
  | [] => some []
  | t :: ts => do
    let u ← if !t.isNamed || t.isExtra then some t else toTarget? t
    return u :: (← toTargets? ts)
end

end Tree

namespace Parser

/-- Reads an expression that has to be a target. -/
def target (p : Parser Tree) : Parser Tree := do
  match (← p).toTarget? with
  | some t => return t
  | none => failure

end Parser

end Excerpt.Syntax
