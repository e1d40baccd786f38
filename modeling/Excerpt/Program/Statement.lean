import Excerpt.Import
import Excerpt.Program.Expression

/-!
Statements of a program.
-/
namespace Excerpt.Program
open Excerpt.Text

/-- What an explicit `raise` throws. -/
structure Thrown where
  exception : String
  message : String
  line : Nat
deriving DecidableEq, Repr

/-- A name in the pattern of a case: it captures a part of the subject, or it is looked up. -/
inductive PatternName
  | capture (name : String)
  | load (name : String) (line : Nat)
deriving DecidableEq, Repr

/-- A decorator with everything that stands behind the `@`, comments included as blanks. -/
structure Decoration where
  items : List Expr

mutual
inductive Stmt
  /-- Statements that neither run nor bind anything. -/
  | skip
  /-- Expressions and assignments. -/
  | evaluate (items : List Expr)
  | importing (statement : ImportStatement)
  | define (decorations : List Decoration) (definition : Definition)
  | branch (branches : List Branch)
  | forLoop (target iterable : Expr) (body otherwise : List Stmt)
  | whileLoop (condition : Expr) (body otherwise : List Stmt)
  | attempt (body : List Stmt) (handlers : List Handler) (otherwise final : List Stmt)
  | within (items : List Expr) (body : List Stmt)
  | choose (subjects : List Expr) (cases : List Case)
  | delete (targets : List Expr)
  /-- A `raise` with all that stands behind it; without anything it raises the active exception. -/
  | raising (items : List Expr) (thrown : Option Thrown)
  | result (place : Position) (items : List Expr)
  | globals (names : List String)
  | nonlocals (names : List String)
  /-- A type alias with its name as it is written, its target and its value. -/
  | typeAlias (name : Option String) (target value : Option Expr)
inductive Definition
  | classDef (name : String) (bases : List Expr) (body : List Stmt)
  | function (name : String) (parameters : List Parameter) (hint : Option Expr) (body : List Stmt)
/-- A branch of a conditional statement; the last may have no condition. -/
inductive Branch
  | mk (condition : Option Expr) (body : List Stmt)
/-- A handler with everything in front of its body. -/
inductive Handler
  | mk (items : List Expr) (body : List Stmt)
inductive Case
  | mk (patterns : List PatternName) (condition : List Expr) (body : List Stmt)
end

def Definition.name : Definition → String
  | .classDef name _ _ => name
  | .function name _ _ _ => name

end Excerpt.Program
