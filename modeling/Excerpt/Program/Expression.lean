import Excerpt.Text.Position

/-!
Expressions of a program, as far as running it and resolving its names need them.
-/
namespace Excerpt.Program
open Excerpt.Text

/-- How the items of a sequence are written. A `bare` sequence has no brackets of its own or is a
target only. -/
inductive SequenceForm
  | tuple
  | list
  | set
  | dictionary
  | bare
deriving DecidableEq, Repr

namespace SequenceForm

/-- Displays have a known truth: they are true if they hold anything. -/
def isDisplay : SequenceForm → Bool
  | .bare => false
  | _ => true

/-- Sequences that unpack a value when they are assigned to. -/
def isTarget : SequenceForm → Bool
  | .tuple | .list | .bare => true
  | .set | .dictionary => false

/-- Sequences whose items are all caught when a handler names them. -/
def isCatchable : SequenceForm → Bool
  | .tuple | .bare => true
  | _ => false

end SequenceForm

inductive Comparator
  | identical
  | equal
  | notIdentical
  | notEqual
  | other
deriving DecidableEq, Repr

mutual
inductive Expr
  | name (id : String) (line : Nat)
  | none
  | truth (value : Bool)
  /-- An integer literal, with whether it differs from zero if that is known. -/
  | integer (nonzero : Option Bool)
  /-- A line continuation, or nothing at all. -/
  | blank
  /-- Any construct of which only the parts matter. -/
  | group (items : List Expr)
  | parens (items : List Expr)
  | sequence (form : SequenceForm) (items : List Expr)
  | splat (double : Bool) (items : List Expr)
  | member (object : Expr) (attr : String)
  | call (function arguments : Expr)
  | subscript (value : Expr) (indices : List Expr)
  | keyword (name : String) (value : Expr)
  | walrus (name : String) (value : Expr)
  | aliased (value target : Expr)
  | conditional (body condition alternative : Expr)
  | conjunction (left right : Expr)
  | disjunction (left right : Expr)
  | negation (argument : Expr)
  | comparison (operands : List Expr) (comparators : List Comparator)
  | binary (left right : Expr)
  | lambda (parameters : List Parameter) (body : Expr)
  | comprehension (parts : List Part)
  /-- `yield` or `await`. -/
  | suspension (place : Position) (items : List Expr)
  | assignment (target : Expr) (hint value : Option Expr)
  | augmented (target value : Expr)
/-- A parameter of a function. Separators have no target. -/
inductive Parameter
  | mk (target hint default : Option Expr)
/-- A part of a comprehension: a `for` clause, or anything else that is evaluated. -/
inductive Part
  | clause (target : Expr) (iterables : List Expr)
  | element (value : Expr)
end

instance : Inhabited Expr := ⟨.blank⟩

end Excerpt.Program
