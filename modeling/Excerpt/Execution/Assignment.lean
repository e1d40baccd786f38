import Excerpt.Execution.Evaluation

/-!
Assignment to targets, and their deletion.
-/
namespace Excerpt.Execution
open Excerpt.Program Exec

mutual
/-- Assigns a value. Nothing is known of the items that a sequence unpacks; what is no target is
evaluated. -/
def assign (value : Value) : Expr → Exec Unit
  | .name id _ => store id value
  | .member object attr => do
    let object ← evaluate object
    setAttributeOf object.value attr
  | .subscript container indices => do
    let container ← evaluate container
    let _ ← evaluateEach indices
    requireItems container.value
  | .parens items => assignEach items
  | .sequence form items =>
    if form.isTarget then assignEach items
    else do
      let _ ← evaluate (.sequence form items)
  | .splat double items =>
    if double then do
      let _ ← evaluate (.splat double items)
    else assignEach items
  | e => do
    let _ ← evaluate e
def assignEach : List Expr → Exec Unit
  | [] => return
  | e :: es => do
    assign .unknown e
    assignEach es
end

mutual
def remove : Expr → Exec Unit
  | .name id line => unbind id line
  | .parens items => removeEach items
  | .sequence form items =>
    if form.isTarget then removeEach items
    else do
      let _ ← evaluate (.sequence form items)
  | .splat double items =>
    if double then do
      let _ ← evaluate (.splat double items)
    else removeEach items
  | e => do
    let _ ← evaluate e
def removeEach : List Expr → Exec Unit
  | [] => return
  | e :: es => do
    remove e
    removeEach es
end

mutual
/-- Performs an assignment, or evaluates any other expression. The value of an assignment is the
value that was assigned; a hint without a value assigns nothing. -/
def perform (lazy : Bool) : Expr → Exec Value
  | .assignment target hint value => do
    let assigned ← performOption lazy value
    if !lazy then evaluateOption hint
    match assigned with
    | some v => do
      assign v target
      return v
    | none => return .unknown
  | .augmented target operand => do
    let current ← evaluate target
    let operand ← evaluate operand
    let _ ← combine current.value operand.value
    assign .unknown target
    return .unknown
  | e => return (← evaluate e).value
def performOption (lazy : Bool) : Option Expr → Exec (Option Value)
  | none => return none
  | some e => return some (← perform lazy e)
end

def performEach (lazy : Bool) : List Expr → Exec Unit
  | [] => return
  | e :: es => do
    let _ ← perform lazy e
    performEach lazy es

end Excerpt.Execution
