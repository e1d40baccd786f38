import Excerpt.Execution.Statement

/-!
What running a piece of a program can do, read off its syntax. Effects are listed whether or not
the branch that has them is taken, so the list is an upper bound of every run.
-/
namespace Excerpt.Program

inductive Effect
  /-- Looks a name up. -/
  | read (name : String)
  /-- Binds a name in the current namespace. -/
  | bind (name : String)
  /-- Unbinds a name of the current namespace. -/
  | drop (name : String)
  /-- Keeps a scope for the check at the end. -/
  | defer (scope : Scope)
  /-- Changes what is known of modules. -/
  | touch
  /-- Fails with a fault of the syntax. -/
  | halt

namespace Effect

/-- What is left of an effect in a class body when the namespace of the class is gone. -/
def outlives : Effect → Bool
  | .bind _ | .drop _ => false
  | _ => true

def bound? : Effect → Option String
  | .bind name => some name
  | _ => none

end Effect

mutual
/-- The effects of evaluating an expression. -/
def Expr.effects : Expr → List Effect
  | .name id _ => [.read id]
  | .none | .truth _ | .integer _ | .blank => []
  | .group items | .parens items | .sequence _ items | .splat _ items => effectsAll items
  | .member object _ => object.effects
  | .call function arguments => function.effects ++ arguments.effects
  | .subscript value indices => value.effects ++ effectsAll indices
  | .keyword _ value => value.effects
  | .walrus name value => value.effects ++ [.bind name]
  | .aliased value target => value.effects ++ target.effects
  | .conditional body condition alternative =>
    condition.effects ++ body.effects ++ alternative.effects
  | .conjunction left right => left.effects ++ right.effects
  | .disjunction left right => left.effects ++ right.effects
  | .negation argument => argument.effects
  | .comparison operands _ => effectsAll operands
  | .binary left right => left.effects ++ right.effects
  | .lambda parameters body => defaultEffects parameters ++ [.defer (lambdaScope parameters body)]
  | .comprehension parts =>
    iterableEffects parts ++ (comprehensionScope parts).escaping.map .bind ++
      [.defer (comprehensionScope parts)]
  | .suspension _ _ => [.halt]
  | .assignment target hint value => target.effects ++ effectsOf hint ++ effectsOf value
  | .augmented target value => target.effects ++ value.effects
def effectsAll : List Expr → List Effect
  | [] => []
  | e :: es => e.effects ++ effectsAll es
def effectsOf : Option Expr → List Effect
  | none => []
  | some e => e.effects
/-- The effects of default values. -/
def defaultEffects : List Parameter → List Effect
  | [] => []
  | .mk _ _ default :: ps => effectsOf default ++ defaultEffects ps
/-- The effects of the iterables of the first clause of a comprehension. -/
def iterableEffects : List Part → List Effect
  | [] => []
  | .clause _ iterables :: _ => effectsAll iterables
  | .element _ :: ps => iterableEffects ps
end

mutual
/-- The effects of assigning to a target. -/
def Expr.targetEffects : Expr → List Effect
  | .name id _ => [.bind id]
  | .member object _ => object.effects ++ [.touch]
  | .parens items => targetEffectsAll items
  | .sequence form items => if form.isTarget then targetEffectsAll items else effectsAll items
  | .splat double items => if double then effectsAll items else targetEffectsAll items
  | e => e.effects
def targetEffectsAll : List Expr → List Effect
  | [] => []
  | e :: es => e.targetEffects ++ targetEffectsAll es
end

mutual
/-- The effects of deleting a target. -/
def Expr.removalEffects : Expr → List Effect
  | .name id _ => [.drop id]
  | .parens items => removalEffectsAll items
  | .sequence form items => if form.isTarget then removalEffectsAll items else effectsAll items
  | .splat double items => if double then effectsAll items else removalEffectsAll items
  | e => e.effects
def removalEffectsAll : List Expr → List Effect
  | [] => []
  | e :: es => e.removalEffects ++ removalEffectsAll es
end

mutual
/-- The effects of an expression that stands as a statement: it may be an assignment. -/
def Expr.performEffects (lazy : Bool) : Expr → List Effect
  | .assignment target hint value =>
    performEffectsOf lazy value ++ (if lazy then [] else effectsOf hint) ++ target.targetEffects
  | .augmented target operand => target.effects ++ operand.effects ++ target.targetEffects
  | e => e.effects
def performEffectsOf (lazy : Bool) : Option Expr → List Effect
  | none => []
  | some e => e.performEffects lazy
end

/-- The effects of entering a context manager. -/
def Expr.entryEffects : Expr → List Effect
  | .aliased value target => value.effects ++ target.targetEffects
  | e => e.effects

/-- The effects of binding the alias of a handler. -/
def Expr.aliasEffects : Expr → List Effect
  | .aliased _ target => target.targetEffects
  | _ => []

mutual
/-- The effects of a statement in the namespace it stands in. What a class body binds or deletes
is no effect of the class. -/
def Stmt.effects (lazy : Bool) : Stmt → List Effect
  | .skip | .globals _ | .nonlocals _ => []
  | .evaluate items => items.flatMap (·.performEffects lazy)
  | .importing statement => .touch :: statement.boundNames.map .bind
  | .define decorations definition =>
    decorations.flatMap (effectsAll ·.items) ++ definition.effects lazy ++ [.bind definition.name]
  | .branch branches => branchEffects lazy branches
  | .forLoop target iterable body otherwise =>
    iterable.effects ++ target.targetEffects ++ bodyEffects lazy body ++ bodyEffects lazy otherwise
  | .whileLoop condition body otherwise =>
    condition.effects ++ bodyEffects lazy body ++ bodyEffects lazy otherwise
  | .attempt body handlers otherwise final =>
    bodyEffects lazy body ++ handlerEffects lazy handlers ++ bodyEffects lazy otherwise ++
      bodyEffects lazy final
  | .within items body => items.flatMap Expr.entryEffects ++ bodyEffects lazy body
  | .choose subjects cases => effectsAll subjects ++ caseEffects lazy cases
  | .delete targets => removalEffectsAll targets
  | .raising items _ => effectsAll items
  | .result _ _ => [.halt]
  | .typeAlias name _ _ => name.toList.map .bind
def bodyEffects (lazy : Bool) : List Stmt → List Effect
  | [] => []
  | s :: ss => s.effects lazy ++ bodyEffects lazy ss
def Definition.effects (lazy : Bool) : Definition → List Effect
  | .classDef _ bases body => effectsAll bases ++ (bodyEffects lazy body).filter Effect.outlives
  | .function _ parameters hint body =>
    effectsAll (definitionTime lazy parameters hint) ++
      [.defer (functionScope lazy parameters body)]
def branchEffects (lazy : Bool) : List Branch → List Effect
  | [] => []
  | .mk condition body :: bs =>
    effectsOf condition ++ bodyEffects lazy body ++ branchEffects lazy bs
def handlerEffects (lazy : Bool) : List Handler → List Effect
  | [] => []
  | .mk items body :: hs =>
    items.flatMap Expr.aliasEffects ++ bodyEffects lazy body ++ handlerEffects lazy hs
def caseEffects (lazy : Bool) : List Case → List Effect
  | [] => []
  | .mk patterns condition body :: cs =>
    (Execution.captures patterns).map .bind ++ effectsAll condition ++ bodyEffects lazy body ++
      caseEffects lazy cs
end

end Excerpt.Program
