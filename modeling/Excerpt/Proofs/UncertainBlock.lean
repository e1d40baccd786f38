import Excerpt.Proofs.Agreement
import Excerpt.Proofs.ValidFunctions

/-!
Blocks that may not run. Under a condition of which nothing is known, a block of simple statements
is run for the names it binds: it cannot fail, but what it changes stays changed.
-/
namespace Excerpt.Program

mutual
/-- Expressions without lambdas, comprehensions, `yield` and `await`. -/
def Expr.isPlain : Expr → Bool
  | .name _ _ | .none | .truth _ | .integer _ | .blank => true
  | .lambda _ _ | .comprehension _ | .suspension _ _ => false
  | .group items | .parens items | .sequence _ items | .splat _ items | .comparison items _ =>
    plainAll items
  | .member value _ | .keyword _ value | .walrus _ value | .negation value => value.isPlain
  | .call left right | .aliased left right | .conjunction left right | .disjunction left right
  | .binary left right | .augmented left right => left.isPlain && right.isPlain
  | .subscript value indices => value.isPlain && plainAll indices
  | .conditional body condition alternative =>
    body.isPlain && condition.isPlain && alternative.isPlain
  | .assignment target hint value => target.isPlain && plainOf hint && plainOf value
def plainAll : List Expr → Bool
  | [] => true
  | e :: es => e.isPlain && plainAll es
def plainOf : Option Expr → Bool
  | none => true
  | some e => e.isPlain
end

/-- Assignments, expressions, deletions and imports with nothing but plain expressions. -/
def Stmt.isSimple : Stmt → Bool
  | .evaluate items | .delete items => plainAll items
  | .importing _ => true
  | _ => false

/-- Whether an effect neither fails with a fault of the syntax nor leaves anything for later. -/
def Effect.isQuiet : Effect → Bool
  | .halt | .defer _ => false
  | _ => true

mutual
theorem Expr.effects_quiet : ∀ e : Expr, e.isPlain → e.effects.all Effect.isQuiet
  | .name _ _, _ => rfl
  | .none, _ | .truth _, _ | .integer _, _ | .blank, _ => rfl
  | .group items, plain | .parens items, plain | .sequence _ items, plain | .splat _ items, plain
  | .comparison items _, plain => effectsAll_quiet items plain
  | .member value _, plain => value.effects_quiet plain
  | .keyword _ value, plain => value.effects_quiet plain
  | .negation value, plain => value.effects_quiet plain
  | .walrus _ value, plain => by
    simp [Expr.effects,value.effects_quiet plain,Effect.isQuiet]
  | .call left right, plain | .aliased left right, plain | .conjunction left right, plain
  | .disjunction left right, plain | .binary left right, plain | .augmented left right, plain => by
    simp only [Expr.isPlain,Bool.and_eq_true] at plain
    simp only [Expr.effects,List.all_append,left.effects_quiet plain.1,
      right.effects_quiet plain.2,Bool.and_self]
  | .subscript value indices, plain => by
    simp only [Expr.isPlain,Bool.and_eq_true] at plain
    simp only [Expr.effects,List.all_append,value.effects_quiet plain.1,
      effectsAll_quiet indices plain.2,Bool.and_self]
  | .conditional body condition alternative, plain => by
    simp only [Expr.isPlain,Bool.and_eq_true] at plain
    simp only [Expr.effects,List.all_append,body.effects_quiet plain.1.1,
      condition.effects_quiet plain.1.2,alternative.effects_quiet plain.2,Bool.and_self]
  | .assignment target hint value, plain => by
    simp only [Expr.isPlain,Bool.and_eq_true] at plain
    simp only [Expr.effects,List.all_append,target.effects_quiet plain.1.1,
      effectsOf_quiet hint plain.1.2,effectsOf_quiet value plain.2,Bool.and_self]
theorem effectsAll_quiet : ∀ es : List Expr, plainAll es → (effectsAll es).all Effect.isQuiet
  | [], _ => rfl
  | e :: es, plain => by
    simp only [plainAll,Bool.and_eq_true] at plain
    simp only [effectsAll,List.all_append,e.effects_quiet plain.1,effectsAll_quiet es plain.2,
      Bool.and_self]
theorem effectsOf_quiet : ∀ e? : Option Expr, plainOf e? → (effectsOf e?).all Effect.isQuiet
  | none, _ => rfl
  | some e, plain => e.effects_quiet plain
end

mutual
theorem Expr.targetEffects_quiet : ∀ e : Expr, e.isPlain → e.targetEffects.all Effect.isQuiet
  | .name _ _, _ => rfl
  | .member object _, plain => by
    simp [Expr.targetEffects,object.effects_quiet plain,Effect.isQuiet]
  | .parens items, plain => targetEffectsAll_quiet items plain
  | .sequence form items, plain => by
    rw [Expr.targetEffects]
    split
    · exact targetEffectsAll_quiet items plain
    · exact effectsAll_quiet items plain
  | .splat double items, plain => by
    rw [Expr.targetEffects]
    split
    · exact effectsAll_quiet items plain
    · exact targetEffectsAll_quiet items plain
  | .none, plain | .truth _, plain | .integer _, plain | .blank, plain | .group _, plain
  | .call _ _, plain | .subscript _ _, plain | .keyword _ _, plain | .walrus _ _, plain
  | .aliased _ _, plain | .conditional _ _ _, plain | .conjunction _ _, plain
  | .disjunction _ _, plain | .negation _, plain | .comparison _ _, plain | .binary _ _, plain
  | .lambda _ _, plain | .comprehension _, plain | .suspension _ _, plain
  | .assignment _ _ _, plain | .augmented _ _, plain => Expr.effects_quiet _ plain
theorem targetEffectsAll_quiet :
    ∀ es : List Expr, plainAll es → (targetEffectsAll es).all Effect.isQuiet
  | [], _ => rfl
  | e :: es, plain => by
    simp only [plainAll,Bool.and_eq_true] at plain
    simp only [targetEffectsAll,List.all_append,e.targetEffects_quiet plain.1,
      targetEffectsAll_quiet es plain.2,Bool.and_self]
end

mutual
theorem Expr.removalEffects_quiet : ∀ e : Expr, e.isPlain → e.removalEffects.all Effect.isQuiet
  | .name _ _, _ => rfl
  | .parens items, plain => removalEffectsAll_quiet items plain
  | .sequence form items, plain => by
    rw [Expr.removalEffects]
    split
    · exact removalEffectsAll_quiet items plain
    · exact effectsAll_quiet items plain
  | .splat double items, plain => by
    rw [Expr.removalEffects]
    split
    · exact effectsAll_quiet items plain
    · exact removalEffectsAll_quiet items plain
  | .none, plain | .truth _, plain | .integer _, plain | .blank, plain | .group _, plain
  | .member _ _, plain | .call _ _, plain | .subscript _ _, plain | .keyword _ _, plain
  | .walrus _ _, plain | .aliased _ _, plain | .conditional _ _ _, plain | .conjunction _ _, plain
  | .disjunction _ _, plain | .negation _, plain | .comparison _ _, plain | .binary _ _, plain
  | .lambda _ _, plain | .comprehension _, plain | .suspension _ _, plain
  | .assignment _ _ _, plain | .augmented _ _, plain => Expr.effects_quiet _ plain
theorem removalEffectsAll_quiet :
    ∀ es : List Expr, plainAll es → (removalEffectsAll es).all Effect.isQuiet
  | [], _ => rfl
  | e :: es, plain => by
    simp only [plainAll,Bool.and_eq_true] at plain
    simp only [removalEffectsAll,List.all_append,e.removalEffects_quiet plain.1,
      removalEffectsAll_quiet es plain.2,Bool.and_self]
end

mutual
theorem Expr.performEffects_quiet (lazy : Bool) :
    ∀ e : Expr, e.isPlain → (e.performEffects lazy).all Effect.isQuiet
  | .assignment target hint value, plain => by
    simp only [Expr.isPlain,Bool.and_eq_true] at plain
    have hinted : (if lazy then [] else effectsOf hint).all Effect.isQuiet := by
      cases lazy with
      | true => rfl
      | false => exact effectsOf_quiet hint plain.1.2
    simp only [Expr.performEffects,List.all_append,performEffectsOf_quiet lazy value plain.2,hinted,
      target.targetEffects_quiet plain.1.1,Bool.and_self]
  | .augmented target operand, plain => by
    simp only [Expr.isPlain,Bool.and_eq_true] at plain
    simp only [Expr.performEffects,List.all_append,target.effects_quiet plain.1,
      operand.effects_quiet plain.2,target.targetEffects_quiet plain.1,Bool.and_self]
  | .name _ _, plain | .none, plain | .truth _, plain | .integer _, plain | .blank, plain
  | .group _, plain | .parens _, plain | .sequence _ _, plain | .splat _ _, plain
  | .member _ _, plain | .call _ _, plain | .subscript _ _, plain | .keyword _ _, plain
  | .walrus _ _, plain | .aliased _ _, plain | .conditional _ _ _, plain | .conjunction _ _, plain
  | .disjunction _ _, plain | .negation _, plain | .comparison _ _, plain | .binary _ _, plain
  | .lambda _ _, plain | .comprehension _, plain | .suspension _ _, plain =>
    Expr.effects_quiet _ plain
theorem performEffectsOf_quiet (lazy : Bool) :
    ∀ e? : Option Expr, plainOf e? → (performEffectsOf lazy e?).all Effect.isQuiet
  | none, _ => rfl
  | some e, plain => e.performEffects_quiet lazy plain
end

theorem Stmt.effects_quiet (lazy : Bool) (s : Stmt) (simple : s.isSimple) :
    (s.effects lazy).all Effect.isQuiet := by
  cases s with
  | evaluate items =>
    have simple : plainAll items := simple
    rw [Stmt.effects]
    induction items with
    | nil => rfl
    | cons e es ih =>
      simp only [plainAll,Bool.and_eq_true] at simple
      simp only [List.flatMap_cons,List.all_append,e.performEffects_quiet lazy simple.1,
        ih simple.2 simple.2,Bool.and_self]
  | delete items => exact removalEffectsAll_quiet items simple
  | importing statement => simp [Stmt.effects,Effect.isQuiet]
  | _ => cases simple

end Excerpt.Program

namespace Excerpt.Execution
open Excerpt.Names Excerpt.Program Exec

/-- A statement that runs a block under the condition that a name is true. -/
def guarded (name : String) (line : Nat) (block : List Stmt) : Stmt :=
  .branch [.mk (some (.name name line)) block]

theorem executeAll_append_bind (lazy : Bool) (before after : List Stmt) :
    executeAll lazy (before ++ after) = executeAll lazy before >>= fun _ => executeAll lazy after := by
  induction before with
  | nil => rfl
  | cons first rest ih => simp only [List.cons_append,executeAll,ih,bind_assoc]

theorem executeAll_append {lazy : Bool} {before : List Stmt} (after : List Stmt) {s t : State}
    (ran : executeAll lazy before s = (.ok (),t)) :
    executeAll lazy (before ++ after) s = executeAll lazy after t := by
  rw [executeAll_append_bind,bind_apply,ran]

theorem isSome_valueAt_iff {n : String} {env : Namespace} :
    (valueAt n env).isSome ↔ n ∈ env.map Prod.fst := by
  induction env with
  | nil => simp [valueAt]
  | cons entry env ih =>
    obtain ⟨key,value⟩ := entry
    rw [valueAt]
    by_cases same : key = n
    · simp [same]
    · simp [same,Ne.symm same,ih]

/-- The check at the end does not tell apart states that agree on the names it looks up. -/
theorem checkDeferred_congr {names : String → Prop} {s t : State} (agree : Agree names s t)
    (covered : ∀ f ∈ s.deferred, ∀ n ∈ f.mentions, names n) : checkDeferred s = checkDeferred t := by
  have same : firstUnresolved s.globals s.deferred.reverse =
      firstUnresolved t.globals t.deferred.reverse := by
    simp only [firstUnresolved,← agree.deferred,List.flatMap_def]
    congr 2
    refine List.map_congr_left fun f kept => Scope.unresolved_congr (fun n mentioned => ?_) []
    have known := agree.globals n (covered f (List.mem_reverse.1 kept) n mentioned)
    congr 1
    rw [Bool.eq_iff_iff,List.contains_iff_mem,List.contains_iff_mem]
    simp only [moduleNames,List.mem_append,← isSome_valueAt_iff,known]
  rw [checkDeferred,checkDeferred,same]

theorem bodyEffects_append (lazy : Bool) (before after : List Stmt) :
    bodyEffects lazy (before ++ after) = bodyEffects lazy before ++ bodyEffects lazy after := by
  induction before with
  | nil => rfl
  | cons s ss ih => simp [bodyEffects,ih]

end Excerpt.Execution
