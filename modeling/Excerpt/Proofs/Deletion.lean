import Excerpt.Proofs.NamePlaces
import Excerpt.Proofs.PureExpression

/-!
What unbinds a name. A name of the current namespace is gone only where a statement deletes it: nothing
else that runs unbinds names, and what the body of a class deletes are names of the class.
-/
namespace Excerpt.Program
open Excerpt.Syntax

/-- Whether the effects drop names with the property only. -/
def DropsOnly (q : NameRef → Prop) (effects : List Effect) : Prop :=
  ∀ n, .drop n ∈ effects → ∃ line, q ⟨n,line⟩

section Drops

variable {q : NameRef → Prop}

namespace DropsOnly

theorem nil : DropsOnly q [] := nofun

/-- What drops only names that have a property no name has drops nothing. -/
theorem notMem {effects : List Effect} (drops : DropsOnly (fun _ => False) effects) (n : String) :
    .drop n ∉ effects := fun dropped => (drops n dropped).elim fun _ => id

theorem append {es fs : List Effect} (first : DropsOnly q es) (second : DropsOnly q fs) :
    DropsOnly q (es ++ fs) := fun n dropped =>
  (List.mem_append.1 dropped).elim (first n) (second n)

theorem cons {x : Effect} {es : List Effect} (other : ∀ n, x ≠ .drop n) (rest : DropsOnly q es) :
    DropsOnly q (x :: es) := by
  intro n dropped
  rcases List.mem_cons.1 dropped with same | later
  · exact absurd same.symm (other n)
  · exact rest n later

theorem binds (names : List String) : DropsOnly q (names.map .bind) := by
  intro n dropped
  simp at dropped

theorem flatMap {α : Type} {items : List α} {effects : α → List Effect}
    (each : ∀ x ∈ items, DropsOnly q (effects x)) : DropsOnly q (items.flatMap effects) := by
  intro n dropped
  obtain ⟨x,member,here⟩ := List.mem_flatMap.1 dropped
  exact each x member n here

end DropsOnly

mutual
/-- Expressions drop nothing. -/
theorem Expr.drops : ∀ e : Expr, DropsOnly q e.effects
  | .name _ _ => .cons nofun .nil
  | .none | .truth _ | .integer _ | .blank => .nil
  | .group items | .parens items | .sequence _ items | .splat _ items | .comparison items _ =>
    dropsAll items
  | .member value _ | .keyword _ value | .negation value => value.drops
  | .walrus _ value => value.drops.append (.cons nofun .nil)
  | .call left right | .aliased left right | .conjunction left right | .disjunction left right
  | .binary left right | .augmented left right => left.drops.append right.drops
  | .subscript value indices => value.drops.append (dropsAll indices)
  | .conditional body condition alternative =>
    (condition.drops.append body.drops).append alternative.drops
  | .lambda parameters _ => (dropsDefaults parameters).append (.cons nofun .nil)
  | .comprehension parts => ((dropsIterables parts).append (.binds _)).append (.cons nofun .nil)
  | .suspension _ _ => .cons nofun .nil
  | .assignment target hint value => (target.drops.append (dropsOption hint)).append (dropsOption value)
theorem dropsAll : ∀ es : List Expr, DropsOnly q (effectsAll es)
  | [] => .nil
  | e :: es => e.drops.append (dropsAll es)
theorem dropsOption : ∀ e? : Option Expr, DropsOnly q (effectsOf e?)
  | none => .nil
  | some e => e.drops
theorem dropsDefaults : ∀ ps : List Parameter, DropsOnly q (defaultEffects ps)
  | [] => .nil
  | .mk _ _ default :: ps => (dropsOption default).append (dropsDefaults ps)
theorem dropsIterables : ∀ ps : List Part, DropsOnly q (iterableEffects ps)
  | [] => .nil
  | .clause _ iterables :: _ => dropsAll iterables
  | .element _ :: ps => dropsIterables ps
end

mutual
theorem Expr.drops_target : ∀ e : Expr, DropsOnly q e.targetEffects
  | .name _ _ => .cons nofun .nil
  | .member object _ => object.drops.append (.cons nofun .nil)
  | .parens items => dropsAll_target items
  | .sequence form items => by
    rw [Expr.targetEffects]
    split
    · exact dropsAll_target items
    · exact dropsAll items
  | .splat double items => by
    rw [Expr.targetEffects]
    split
    · exact dropsAll items
    · exact dropsAll_target items
  | .none | .truth _ | .integer _ | .blank | .group _ | .call _ _ | .subscript _ _ | .keyword _ _
  | .walrus _ _ | .aliased _ _ | .conditional _ _ _ | .conjunction _ _ | .disjunction _ _ | .negation _
  | .comparison _ _ | .binary _ _ | .lambda _ _ | .comprehension _ | .suspension _ _
  | .assignment _ _ _ | .augmented _ _ => Expr.drops _
theorem dropsAll_target : ∀ es : List Expr, DropsOnly q (targetEffectsAll es)
  | [] => .nil
  | e :: es => e.drops_target.append (dropsAll_target es)
end

mutual
theorem Expr.drops_perform (lazy : Bool) : ∀ e : Expr, DropsOnly q (e.performEffects lazy)
  | .assignment target hint value => by
    refine ((dropsOption_perform lazy value).append ?_).append target.drops_target
    split
    · exact .nil
    · exact dropsOption hint
  | .augmented target operand => (target.drops.append operand.drops).append target.drops_target
  | .name _ _ | .none | .truth _ | .integer _ | .blank | .group _ | .parens _ | .sequence _ _
  | .splat _ _ | .member _ _ | .call _ _ | .subscript _ _ | .keyword _ _ | .walrus _ _ | .aliased _ _
  | .conditional _ _ _ | .conjunction _ _ | .disjunction _ _ | .negation _ | .comparison _ _
  | .binary _ _ | .lambda _ _ | .comprehension _ | .suspension _ _ => Expr.drops _
theorem dropsOption_perform (lazy : Bool) : ∀ e? : Option Expr, DropsOnly q (performEffectsOf lazy e?)
  | none => .nil
  | some e => e.drops_perform lazy
end

mutual
theorem Expr.EachRemoved.drops : ∀ {e : Expr}, e.EachRemoved q → DropsOnly q e.removalEffects
  | .name id line,removed => by
    intro n dropped
    obtain rfl : n = id := by simpa [Expr.removalEffects] using dropped
    exact ⟨line,removed⟩
  | .parens _,removed => eachRemoved_drops removed
  | .sequence form items,removed => by
    rw [Expr.removalEffects]
    split
    · next target => exact eachRemoved_drops (removed target)
    · exact dropsAll items
  | .splat double items,removed => by
    rw [Expr.removalEffects]
    split
    · exact dropsAll items
    · next single => exact eachRemoved_drops (removed (Bool.of_not_eq_true single))
  | .none,_ | .truth _,_ | .integer _,_ | .blank,_ | .group _,_ | .member _ _,_ | .call _ _,_
  | .subscript _ _,_ | .keyword _ _,_ | .walrus _ _,_ | .aliased _ _,_ | .conditional _ _ _,_
  | .conjunction _ _,_ | .disjunction _ _,_ | .negation _,_ | .comparison _ _,_ | .binary _ _,_
  | .lambda _ _,_ | .comprehension _,_ | .suspension _ _,_ | .assignment _ _ _,_
  | .augmented _ _,_ => Expr.drops _
theorem eachRemoved_drops : ∀ {es : List Expr}, eachRemoved q es → DropsOnly q (removalEffectsAll es)
  | [],_ => .nil
  | _ :: _,removed => removed.1.drops.append (eachRemoved_drops removed.2)
end

theorem Definition.drops (lazy : Bool) (definition : Definition) : DropsOnly q (definition.effects lazy) := by
  cases definition with
  | classDef name bases body =>
    refine (dropsAll bases).append fun n dropped => ?_
    -- What a class deletes is gone with its namespace.
    cases (List.mem_filter.1 dropped).2
  | function name parameters hint body => exact (dropsAll _).append (.cons nofun .nil)

section Statements

variable {p : NameRef → Prop}

mutual
/-- A statement drops nothing but what its deletions name. -/
theorem Stmt.Each.drops (lazy : Bool) : ∀ {s : Stmt}, s.Each p q → DropsOnly q (s.effects lazy)
  | .skip,_ | .globals _,_ | .nonlocals _,_ => .nil
  | .evaluate _,_ => .flatMap fun e _ => e.drops_perform lazy
  | .importing _,_ => .cons nofun (.binds _)
  | .define _ definition,_ =>
    ((DropsOnly.flatMap fun d _ => dropsAll d.items).append (definition.drops lazy)).append
      (.cons nofun .nil)
  | .branch _,each => eachBranch_drops lazy each
  | .forLoop target iterable _ _,each =>
    ((iterable.drops.append target.drops_target).append (eachStmt_drops lazy each.2.2.1)).append
      (eachStmt_drops lazy each.2.2.2)
  | .whileLoop condition _ _,each =>
    (condition.drops.append (eachStmt_drops lazy each.2.1)).append (eachStmt_drops lazy each.2.2)
  | .attempt _ _ _ _,each =>
    (((eachStmt_drops lazy each.1).append (eachHandler_drops lazy each.2.1)).append
      (eachStmt_drops lazy each.2.2.1)).append (eachStmt_drops lazy each.2.2.2)
  | .within _ _,each => (DropsOnly.flatMap fun e _ => by
      unfold Expr.entryEffects
      split
      · exact (Expr.drops _).append (Expr.drops_target _)
      · exact Expr.drops _).append (eachStmt_drops lazy each.2)
  | .choose subjects _,each => (dropsAll subjects).append (eachCase_drops lazy each.2)
  | .delete _,each => eachRemoved_drops each.2
  | .raising items _,_ => dropsAll items
  | .result _ _,_ => .cons nofun .nil
  | .typeAlias _ _ _,_ => .binds _
theorem eachStmt_drops (lazy : Bool) : ∀ {body : List Stmt}, eachStmt p q body →
    DropsOnly q (bodyEffects lazy body)
  | [],_ => .nil
  | _ :: _,each => (each.1.drops lazy).append (eachStmt_drops lazy each.2)
theorem eachBranch_drops (lazy : Bool) : ∀ {branches : List Branch}, eachBranch p q branches →
    DropsOnly q (branchEffects lazy branches)
  | [],_ => .nil
  | .mk condition _ :: _,each =>
    ((dropsOption condition).append (eachStmt_drops lazy each.2.1)).append (eachBranch_drops lazy each.2.2)
theorem eachHandler_drops (lazy : Bool) : ∀ {handlers : List Handler}, eachHandler p q handlers →
    DropsOnly q (handlerEffects lazy handlers)
  | [],_ => .nil
  | .mk _ _ :: _,each => ((DropsOnly.flatMap fun e _ => by
      unfold Expr.aliasEffects
      split
      · exact Expr.drops_target _
      · exact .nil).append (eachStmt_drops lazy each.2.1)).append (eachHandler_drops lazy each.2.2)
theorem eachCase_drops (lazy : Bool) : ∀ {cases : List Case}, eachCase p q cases →
    DropsOnly q (caseEffects lazy cases)
  | [],_ => .nil
  | .mk _ condition _ :: _,each =>
    (((DropsOnly.binds _).append (dropsAll condition)).append (eachStmt_drops lazy each.2.2.1)).append
      (eachCase_drops lazy each.2.2.2)
end

end Statements

end Drops

/-- Where no deletion names it, a name is not dropped. -/
theorem drop_notMem_bodyEffects (lazy : Bool) {block : Tree} {n : String}
    (kept : ∀ t ∈ block.deleted, t.text ≠ n) : .drop n ∉ bodyEffects lazy (bodyOf block.children) := by
  have each : eachStmt (fun _ => True) (fun ref => ref.name ≠ n) (bodyOf block.children) := by
    refine each_bodyOf fun c child u inside => ⟨fun _ => trivial,fun deletion v target => ?_⟩
    have among : u ∈ block.preorder := Tree.mem_preorder_of_child child inside
    exact kept v (List.mem_flatMap.2 ⟨u,List.mem_filter.2 ⟨among,deletion⟩,target⟩)
  intro dropped
  obtain ⟨_,other⟩ := eachStmt_drops lazy each n dropped
  exact other rfl

end Excerpt.Program

namespace Excerpt.Execution
open Excerpt.Program Exec

/-- Whether a name is bound in the current namespace. -/
def State.Has (s : State) (n : String) : Prop := (valueAt n s.current).isSome

theorem State.has_bind (s : State) (n : String) (value : Value) : (s.bind n value).Has n := by
  simp [State.Has,State.current_bind,valueAt_setAt]

/-- A permitted step unbinds nothing but what its effects drop, also if it fails. -/
theorem Permitted.stays {effects : List Effect} {α : Type} {step : Exec α} {n : String}
    (permitted : Permitted effects step) (undropped : .drop n ∉ effects) {s : State} (bound : s.Has n) :
    (step s).2.Has n := by
  induction permitted generalizing s with
  | pure a => exact bound
  | raise fault => exact bound
  | @bind _ _ _ step next _ _ first rest =>
    have early := first undropped bound
    rw [bind_apply]
    rcases ran : step s with ⟨_ | a,t⟩ <;> rw [ran] at early
    · exact early
    · exact rest a undropped early
  | lookup covered =>
    rw [lookup_apply]
    exact bound
  | @store _ name value covered =>
    change (valueAt n (s.bind name value).current).isSome
    rw [State.current_bind,valueAt_setAt]
    split
    · rfl
    · exact bound
  | @unbind _ name line covered =>
    rw [unbind_apply]
    split
    · have other : name ≠ n := fun same => undropped (same ▸ covered)
      rw [State.Has,State.current_erase,valueAt_eraseAt,if_neg other]
      exact bound
    · exact bound
  | defer covered => exact bound
  | @recover _ _ _ step next permitted _ _ first succeeded failed =>
    have early := first undropped bound
    rw [attempt_bind_apply]
    rcases ran : (step s).1 with r | a
    · exact failed r (permitted.fault s r ran) undropped early
    · exact succeeded a undropped early
  | @inClass _ inner _ step inside outside _ =>
    -- What the class binds is gone with it, and it cannot change the names around it.
    have follows := inside.follows {s with locals := some classNames}
    have same : (Exec.inClass step s).2.current = s.current := by
      rw [inClass_apply]
      simp only [State.current,follows.globals rfl]
    rwa [State.Has,same]
  | consult _ rest => exact rest s.modules undropped bound
  | importing covered =>
    rw [importModule_apply]
    split <;> exact bound
  | setAttribute covered => exact bound

theorem Permitted.stays_after {effects : List Effect} {α : Type} {step : Exec α} {n : String}
    (permitted : Permitted effects step) (undropped : .drop n ∉ effects) {s t : State}
    {r : Except Raised α} (ran : step s = (r,t)) (bound : s.Has n) : t.Has n := by
  have kept := permitted.stays undropped bound
  rwa [ran] at kept

end Excerpt.Execution
