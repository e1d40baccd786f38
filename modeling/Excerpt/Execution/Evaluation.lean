import Excerpt.Execution.State
import Excerpt.Scope.Scan

/-!
Evaluation of expressions. An operand that may be skipped cannot fail; bodies of lambdas and
comprehensions are not run but kept for the check at the end.
-/
namespace Excerpt.Execution
open Excerpt.Program Exec

/-- What is known of an expression: its value, and its truth as a condition. -/
structure Appraisal where
  value : Value
  truth : Option Bool
deriving DecidableEq, Repr

namespace Appraisal

def ofValue (value : Value) : Appraisal := ⟨value,value.truth⟩

def unknown : Appraisal := ⟨.unknown,none⟩

end Appraisal

def isSplat : Expr → Bool
  | .splat _ _ => true
  | _ => false

def isNone : Expr → Bool
  | .none => true
  | _ => false

/-- The truth of a display: whether it holds anything, unless it takes over unknown items. -/
def displayTruth (items : List Expr) : Option Bool :=
  if items.any isSplat then none else some (!items.isEmpty)

/-- Whether a value is `None`, if that is known. -/
def Value.isNothing : Value → Option Bool
  | .nothing => some true
  | .module _ => some false
  | .unknown => none

/-- The truth of a comparison. Only comparisons with the literal `None` are decided. -/
def comparisonTruth (operands : List Expr) (values : List Value)
    (comparators : List Comparator) : Option Bool :=
  match operands,values,comparators with
  | [left,right],[leftValue,rightValue],[comparator] =>
    let isNothing :=
      if isNone right then leftValue.isNothing
      else if isNone left then rightValue.isNothing
      else none
    match comparator with
    | .identical | .equal => isNothing
    | .notIdentical | .notEqual => isNothing.map (!·)
    | .other => none
  | _,_,_ => none

/-- The truth of a connective whose left side is unknown: only the deciding value of the right side
settles it. -/
def settledBy (deciding : Bool) (right : Option Appraisal) : Option Bool :=
  (right.bind Appraisal.truth).filter (· == deciding)

mutual
def evaluate : Expr → Exec Appraisal
  | .name id line => return .ofValue (← lookup id line)
  | .none => return .ofValue .nothing
  | .truth value => return ⟨.unknown,some value⟩
  | .integer nonzero => return ⟨.unknown,nonzero⟩
  | .blank => return .unknown
  | .group items => do
    let _ ← evaluateEach items
    return .unknown
  | .parens items => do
    match ← evaluateEach items with
    | [only] => return only
    | all => return .ofValue ((all.getLast?.map Appraisal.value).getD .unknown)
  | .sequence form items => do
    let _ ← evaluateEach items
    return ⟨.unknown,if form.isDisplay then displayTruth items else none⟩
  | .splat _ items => do
    let _ ← evaluateEach items
    return .unknown
  | .member object attr => do
    let object ← evaluate object
    return .ofValue (← attributeOf object.value attr)
  | .call function arguments => do
    let function ← evaluate function
    let _ ← evaluate arguments
    requireCallable function.value
    return .unknown
  | .subscript value indices => do
    let value ← evaluate value
    let _ ← evaluateEach indices
    requireSubscriptable value.value
    return .unknown
  | .keyword _ value => return .ofValue (← evaluate value).value
  | .walrus name value => do
    let value ← evaluate value
    store name value.value
    return .ofValue value.value
  | .aliased value target => do
    let _ ← evaluate value
    let _ ← evaluate target
    return .unknown
  | .conditional body condition alternative => do
    match (← evaluate condition).truth with
    | some true => return .ofValue (← evaluate body).value
    | some false => return .ofValue (← evaluate alternative).value
    | none =>
      let _ ← perhaps (evaluate body)
      let _ ← perhaps (evaluate alternative)
      return .unknown
  | .conjunction left right => do
    let left ← evaluate left
    match left.truth with
    | some false => return left
    | some true => evaluate right
    | none => return ⟨.unknown,settledBy false (← perhaps (evaluate right))⟩
  | .disjunction left right => do
    let left ← evaluate left
    match left.truth with
    | some true => return left
    | some false => evaluate right
    | none => return ⟨.unknown,settledBy true (← perhaps (evaluate right))⟩
  | .negation argument => return ⟨.unknown,(← evaluate argument).truth.map (!·)⟩
  | .comparison operands comparators => do
    let values := (← evaluateEach operands).map Appraisal.value
    return ⟨.unknown,comparisonTruth operands values comparators⟩
  | .binary left right => do
    let left ← evaluate left
    let right ← evaluate right
    return .ofValue (← combine left.value right.value)
  | .lambda parameters body => do
    evaluateDefaults parameters
    defer (lambdaScope parameters body)
    return .unknown
  | .comprehension parts => do
    evaluateIterables parts
    let scope := comprehensionScope parts
    storeAll scope.escaping
    defer scope
    return .unknown
  | .suspension place _ => raise (.syntaxError (place.row + 1) (place.column + 1))
  | .assignment target hint value => do
    let _ ← evaluate target
    evaluateOption hint
    evaluateOption value
    return .unknown
  | .augmented target value => do
    let _ ← evaluate target
    let _ ← evaluate value
    return .unknown
def evaluateEach : List Expr → Exec (List Appraisal)
  | [] => return []
  | e :: es => do
    let first ← evaluate e
    return first :: (← evaluateEach es)
def evaluateOption : Option Expr → Exec Unit
  | none => return
  | some e => do
    let _ ← evaluate e
/-- Default values are evaluated with the definition. -/
def evaluateDefaults : List Parameter → Exec Unit
  | [] => return
  | .mk _ _ default :: ps => do
    evaluateOption default
    evaluateDefaults ps
/-- The iterables of the first clause are evaluated outside the comprehension. -/
def evaluateIterables : List Part → Exec Unit
  | [] => return
  | .clause _ iterables :: _ => evaluateIterable iterables
  | .element _ :: ps => evaluateIterables ps
def evaluateIterable : List Expr → Exec Unit
  | [] => return
  | e :: es => do
    requireIterable (← evaluate e).value
    evaluateIterable es
end

end Excerpt.Execution
