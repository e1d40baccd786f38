import Excerpt.Proofs.PermittedRun

/-!
Expressions whose evaluation leaves no trace but scopes for the check at the end. No step looks at those
scopes, so such an expression can be evaluated at any time with the same result.
-/
namespace Excerpt.Program

mutual
/-- Expressions without `yield`, `await` and `:=`. -/
def Expr.isPure : Expr → Bool
  | .name _ _ | .none | .truth _ | .integer _ | .blank => true
  | .walrus _ _ | .suspension _ _ => false
  | .group items | .parens items | .sequence _ items | .splat _ items | .comparison items _ =>
    pureAll items
  | .member value _ | .keyword _ value | .negation value => value.isPure
  | .call left right | .aliased left right | .conjunction left right | .disjunction left right
  | .binary left right | .augmented left right => left.isPure && right.isPure
  | .subscript value indices => value.isPure && pureAll indices
  | .conditional body condition alternative =>
    body.isPure && condition.isPure && alternative.isPure
  | .assignment target hint value => target.isPure && pureOf hint && pureOf value
  | .lambda parameters body => pureParameters parameters && body.isPure
  | .comprehension parts => pureParts parts
def pureAll : List Expr → Bool
  | [] => true
  | e :: es => e.isPure && pureAll es
def pureOf : Option Expr → Bool
  | none => true
  | some e => e.isPure
def pureParameters : List Parameter → Bool
  | [] => true
  | .mk target hint default :: ps =>
    pureOf target && pureOf hint && pureOf default && pureParameters ps
def pureParts : List Part → Bool
  | [] => true
  | .clause target iterables :: ps => target.isPure && pureAll iterables && pureParts ps
  | .element value :: ps => value.isPure && pureParts ps
end

/-- The names that leave a comprehension with the given findings. -/
def escapes (findings : List Finding) : List String :=
  findings.filterMap (Finding.escaping? .comprehension)

theorem escapes_append (fs gs : List Finding) : escapes (fs ++ gs) = escapes fs ++ escapes gs :=
  List.filterMap_append

mutual
/-- Nothing leaves a comprehension that binds nothing by `:=`. -/
theorem Expr.escapes_findings {hinted : Bool} {role : Role} :
    ∀ e : Expr, e.isPure → escapes (e.findings hinted role) = []
  | .name id line, _ => by cases role <;> rfl
  | .none, _ | .truth _, _ | .integer _, _ | .blank, _ => rfl
  | .group items, still => escapes_findingsAll items still
  | .parens items, still => escapes_findingsAll items still
  | .sequence _ items, still => escapes_findingsAll items still
  | .splat _ items, still => escapes_findingsAll items still
  | .comparison items _, still => escapes_findingsAll items still
  | .member value _, still => value.escapes_findings still
  | .keyword _ value, still => value.escapes_findings still
  | .negation value, still => value.escapes_findings still
  | .call left right, still | .aliased left right, still | .conjunction left right, still
  | .disjunction left right, still | .binary left right, still => by
    simp only [Expr.isPure,Bool.and_eq_true] at still
    simp only [Expr.findings,escapes_append,left.escapes_findings still.1,
      right.escapes_findings still.2,List.append_nil]
  | .augmented target value, still => by
    simp only [Expr.isPure,Bool.and_eq_true] at still
    simp only [Expr.findings,escapes_append,target.escapes_findings still.1,
      value.escapes_findings still.2,List.append_nil]
  | .subscript value indices, still => by
    simp only [Expr.isPure,Bool.and_eq_true] at still
    simp only [Expr.findings,escapes_append,value.escapes_findings still.1,
      escapes_findingsAll indices still.2,List.append_nil]
  | .conditional body condition alternative, still => by
    simp only [Expr.isPure,Bool.and_eq_true] at still
    simp only [Expr.findings,escapes_append,body.escapes_findings still.1.1,
      condition.escapes_findings still.1.2,alternative.escapes_findings still.2,List.append_nil]
  | .assignment target hint value, still => by
    simp only [Expr.isPure,Bool.and_eq_true] at still
    have hints : escapes (if hinted then findingsOf hinted hint else []) = [] := by
      split
      · exact escapes_findingsOf hint still.1.2
      · rfl
    simp only [Expr.findings,escapes_append,target.escapes_findings still.1.1,hints,
      escapes_findingsOf value still.2,List.append_nil]
  | .lambda parameters body, still => by
    simp only [Expr.isPure,Bool.and_eq_true] at still
    rw [Expr.findings,escapes_append,escapes_defaultFindings parameters still.1]
    rfl
  | .comprehension parts, still => by
    have inside : (Scope.mk .comprehension (partFindings false parts)).escaping = [] :=
      escapes_partFindings parts still
    simp only [Expr.findings,escapes_append,escapes_firstFindings parts still,inside]
    rfl
theorem escapes_findingsAll {hinted : Bool} {role : Role} :
    ∀ es : List Expr, pureAll es → escapes (findingsAll hinted role es) = []
  | [], _ => rfl
  | e :: es, still => by
    simp only [pureAll,Bool.and_eq_true] at still
    simp only [findingsAll,escapes_append,e.escapes_findings still.1,
      escapes_findingsAll es still.2,List.append_nil]
theorem escapes_findingsOf {hinted : Bool} :
    ∀ e? : Option Expr, pureOf e? → escapes (findingsOf hinted e?) = []
  | none, _ => rfl
  | some e, still => e.escapes_findings still
theorem escapes_defaultFindings {hinted : Bool} :
    ∀ ps : List Parameter, pureParameters ps → escapes (defaultFindings hinted ps) = []
  | [], _ => rfl
  | .mk _ _ default :: ps, still => by
    simp only [pureParameters,Bool.and_eq_true] at still
    simp only [defaultFindings,Parameter.defaultFindings,escapes_append,
      escapes_findingsOf default still.1.2,escapes_defaultFindings ps still.2,List.append_nil]
theorem escapes_firstFindings {hinted : Bool} :
    ∀ ps : List Part, pureParts ps → escapes (firstFindings hinted ps) = []
  | [], _ => rfl
  | .clause _ iterables :: _, still => by
    simp only [pureParts,Bool.and_eq_true] at still
    exact escapes_findingsAll iterables still.1.2
  | .element _ :: ps, still => by
    simp only [pureParts,Bool.and_eq_true] at still
    exact escapes_firstFindings ps still.2
theorem escapes_partFindings {seen : Bool} :
    ∀ ps : List Part, pureParts ps → escapes (partFindings seen ps) = []
  | [], _ => rfl
  | .clause target iterables :: ps, still => by
    simp only [pureParts,Bool.and_eq_true] at still
    have later : escapes (if seen then findingsAll false .read iterables else []) = [] := by
      split
      · exact escapes_findingsAll iterables still.1.2
      · rfl
    simp only [partFindings,escapes_append,target.escapes_findings still.1.1,later,
      escapes_partFindings ps still.2,List.append_nil]
  | .element value :: ps, still => by
    simp only [pureParts,Bool.and_eq_true] at still
    simp only [partFindings,escapes_append,value.escapes_findings still.1,
      escapes_partFindings ps still.2,List.append_nil]
end

/-- Whether an effect changes no name and no module, and does not fail. -/
def Effect.isInert : Effect → Bool
  | .read _ | .defer _ => true
  | _ => false

mutual
theorem Expr.effects_inert : ∀ e : Expr, e.isPure → e.effects.all Effect.isInert
  | .name _ _, _ => rfl
  | .none, _ | .truth _, _ | .integer _, _ | .blank, _ => rfl
  | .group items, still | .parens items, still | .sequence _ items, still | .splat _ items, still
  | .comparison items _, still => effectsAll_inert items still
  | .member value _, still => value.effects_inert still
  | .keyword _ value, still => value.effects_inert still
  | .negation value, still => value.effects_inert still
  | .call left right, still | .aliased left right, still | .conjunction left right, still
  | .disjunction left right, still | .binary left right, still | .augmented left right, still => by
    simp only [Expr.isPure,Bool.and_eq_true] at still
    simp only [Expr.effects,List.all_append,left.effects_inert still.1,
      right.effects_inert still.2,Bool.and_self]
  | .subscript value indices, still => by
    simp only [Expr.isPure,Bool.and_eq_true] at still
    simp only [Expr.effects,List.all_append,value.effects_inert still.1,
      effectsAll_inert indices still.2,Bool.and_self]
  | .conditional body condition alternative, still => by
    simp only [Expr.isPure,Bool.and_eq_true] at still
    simp only [Expr.effects,List.all_append,body.effects_inert still.1.1,
      condition.effects_inert still.1.2,alternative.effects_inert still.2,Bool.and_self]
  | .assignment target hint value, still => by
    simp only [Expr.isPure,Bool.and_eq_true] at still
    simp only [Expr.effects,List.all_append,target.effects_inert still.1.1,
      effectsOf_inert hint still.1.2,effectsOf_inert value still.2,Bool.and_self]
  | .lambda parameters body, still => by
    simp only [Expr.isPure,Bool.and_eq_true] at still
    simp [Expr.effects,defaultEffects_inert parameters still.1,Effect.isInert]
  | .comprehension parts, still => by
    have inside : (comprehensionScope parts).escaping = [] := escapes_partFindings parts still
    simp [Expr.effects,inside,iterableEffects_inert parts still,Effect.isInert]
theorem effectsAll_inert : ∀ es : List Expr, pureAll es → (effectsAll es).all Effect.isInert
  | [], _ => rfl
  | e :: es, still => by
    simp only [pureAll,Bool.and_eq_true] at still
    simp only [effectsAll,List.all_append,e.effects_inert still.1,effectsAll_inert es still.2,
      Bool.and_self]
theorem effectsOf_inert : ∀ e? : Option Expr, pureOf e? → (effectsOf e?).all Effect.isInert
  | none, _ => rfl
  | some e, still => e.effects_inert still
theorem defaultEffects_inert :
    ∀ ps : List Parameter, pureParameters ps → (defaultEffects ps).all Effect.isInert
  | [], _ => rfl
  | .mk _ _ default :: ps, still => by
    simp only [pureParameters,Bool.and_eq_true] at still
    simp only [defaultEffects,List.all_append,effectsOf_inert default still.1.2,
      defaultEffects_inert ps still.2,Bool.and_self]
theorem iterableEffects_inert :
    ∀ ps : List Part, pureParts ps → (iterableEffects ps).all Effect.isInert
  | [], _ => rfl
  | .clause _ iterables :: _, still => by
    simp only [pureParts,Bool.and_eq_true] at still
    exact effectsAll_inert iterables still.1.2
  | .element _ :: ps, still => by
    simp only [pureParts,Bool.and_eq_true] at still
    exact iterableEffects_inert ps still.2
end

end Excerpt.Program

namespace Excerpt.Execution
open Excerpt.Program Exec

/-- The names that the body of a class starts with. -/
def classNames : Namespace :=
  [("__module__",.unknown),("__qualname__",.unknown),("__annotations__",.unknown)]

theorem inClass_apply {α : Type} (step : Exec α) (s : State) :
    Exec.inClass step s = ((step {s with locals := some classNames}).1,
      {(step {s with locals := some classNames}).2 with locals := s.locals}) := rfl

/-- A step that changes nothing but the scopes for the check at the end, and does not fail with a fault
of the syntax. -/
structure Inert {α : Type} (step : Exec α) : Prop where
  state : ∀ s, (step s).2 = {s with deferred := (step s).2.deferred}
  fault : ∀ s r, (step s).1 = .error r → r.isSyntaxError = false

theorem Permitted.inert {effects : List Effect} {α : Type} {step : Exec α}
    (permitted : Permitted effects step) (still : effects.all Effect.isInert) : Inert step := by
  have only {x : Effect} (member : x ∈ effects) : x.isInert := List.all_eq_true.1 still x member
  refine ⟨?_,fun s r failed => Bool.of_not_eq_true fun syntactic =>
    nomatch only (permitted.fault s r failed syntactic)⟩
  induction permitted with
  | pure a => exact fun _ => rfl
  | raise fault => exact fun _ => rfl
  | @bind _ _ _ step next _ _ first rest =>
    intro s
    have before := first still only s
    rw [bind_apply]
    rcases ran : step s with ⟨_ | a,t⟩
    · rw [ran] at before
      exact before
    · rw [ran] at before
      have later := rest a still only t
      dsimp only at before ⊢
      rw [before] at later ⊢
      exact later
  | lookup covered =>
    intro s
    rw [lookup_apply]
  | store covered => exact nomatch only covered
  | unbind covered => exact nomatch only covered
  | defer covered => exact fun _ => rfl
  | @recover _ _ _ step next permitted _ _ first succeeded failed =>
    intro s
    have before := first still only s
    rw [attempt_bind_apply]
    rcases ran : (step s).1 with r | a
    · have later := failed r (permitted.fault s r ran) still only (step s).2
      rw [before] at later ⊢
      exact later
    · have later := succeeded a still only (step s).2
      rw [before] at later ⊢
      exact later
  | @inClass _ _ _ step inside outside _ =>
    intro s
    have follows := inside.follows {s with locals := some classNames}
    have untouched : Effect.touch ∉ _ := fun touched => nomatch only (outside .touch touched rfl)
    rw [inClass_apply]
    simp only [follows.globals rfl,follows.modules untouched]
  | consult _ rest => exact fun s => rest s.modules still only s
  | importing covered => exact nomatch only covered
  | setAttribute covered => exact nomatch only covered

theorem State.bind_deferred (s : State) (scopes : List Scope) (name : String) (value : Value) :
    State.bind {s with deferred := scopes} name value =
      {s.bind name value with deferred := scopes} := by
  cases found : s.locals <;> simp [State.bind,found]

theorem State.erase_deferred (s : State) (scopes : List Scope) (name : String) :
    State.erase {s with deferred := scopes} name = {s.erase name with deferred := scopes} := by
  cases found : s.locals <;> simp [State.erase,found]

/-- Whatever scopes are kept already, a step ends in the same way and adds the same scopes to them. -/
theorem Permitted.adds {effects : List Effect} {α : Type} {step : Exec α}
    (permitted : Permitted effects step) (s : State) : ∃ new, ∀ scopes,
      step {s with deferred := scopes} =
        ((step s).1,{(step s).2 with deferred := new ++ scopes}) := by
  induction permitted generalizing s with
  | pure a => exact ⟨[],fun _ => rfl⟩
  | raise fault => exact ⟨[],fun _ => rfl⟩
  | @bind _ _ _ step next _ _ first rest =>
    obtain ⟨early,before⟩ := first s
    rcases ran : step s with ⟨_ | a,t⟩ <;> rw [ran] at before
    · exact ⟨early,fun scopes => by rw [bind_apply,bind_apply,before,ran]⟩
    · obtain ⟨late,after⟩ := rest a t
      refine ⟨late ++ early,fun scopes => ?_⟩
      rw [bind_apply,bind_apply,before,ran,List.append_assoc]
      exact after (early ++ scopes)
  | lookup covered =>
    refine ⟨[],fun scopes => ?_⟩
    rw [lookup_apply,lookup_apply]
    rfl
  | @store _ name value covered =>
    exact ⟨[],fun scopes => congrArg (Prod.mk (Except.ok ())) (s.bind_deferred scopes name value)⟩
  | @unbind _ name line covered =>
    refine ⟨[],fun scopes => ?_⟩
    rw [unbind_apply,unbind_apply,s.erase_deferred]
    change (if (valueAt name s.current).isSome then _ else _) = _
    split <;> rfl
  | @defer _ scope covered => exact ⟨[scope],fun _ => rfl⟩
  | @recover _ _ _ step next _ _ _ first succeeded failed =>
    obtain ⟨early,before⟩ := first s
    have next_adds : ∃ new, ∀ scopes, next (step s).1 {(step s).2 with deferred := scopes} =
        ((next (step s).1 (step s).2).1,
          {(next (step s).1 (step s).2).2 with deferred := new ++ scopes}) := by
      rcases ran : (step s).1 with r | a
      · exact failed r (Permitted.fault ‹_› s r ran) (step s).2
      · exact succeeded a (step s).2
    obtain ⟨late,after⟩ := next_adds
    refine ⟨late ++ early,fun scopes => ?_⟩
    rw [attempt_bind_apply,attempt_bind_apply,before,List.append_assoc]
    exact after (early ++ scopes)
  | @inClass _ _ _ step _ _ inside =>
    obtain ⟨new,ran⟩ := inside {s with locals := some classNames}
    refine ⟨new,fun scopes => ?_⟩
    have ran := ran scopes
    rw [inClass_apply,inClass_apply]
    dsimp only at ran ⊢
    rw [ran]
  | consult _ rest => exact rest s.modules s
  | importing covered =>
    refine ⟨[],fun scopes => ?_⟩
    rw [importModule_apply,importModule_apply]
    dsimp only
    split <;> rfl
  | setAttribute covered => exact ⟨[],fun _ => rfl⟩

/-- No step looks at the scopes for the check at the end. -/
theorem Permitted.blind {effects : List Effect} {α : Type} {step : Exec α}
    (permitted : Permitted effects step) (s : State) (scopes : List Scope) :
    ∃ later, step {s with deferred := scopes} = ((step s).1,{(step s).2 with deferred := later}) := by
  obtain ⟨new,added⟩ := permitted.adds s
  exact ⟨new ++ scopes,added scopes⟩

theorem Inert.perhaps_apply {α : Type} {step : Exec α} (inert : Inert step) (s : State) :
    perhaps step s = (.ok (step s).1.toOption,(step s).2) := by
  unfold perhaps
  rw [attempt_bind_apply]
  rcases ran : (step s).1 with r | a
  · dsimp only
    rw [inert.fault s r ran]
    rfl
  · rfl

theorem evaluate_inert {e : Expr} (still : e.isPure) : Inert (evaluate e) :=
  (evaluate_permitted e (List.Subset.refl _)).inert (e.effects_inert still)

theorem evaluateEach_inert {es : List Expr} (still : pureAll es) : Inert (evaluateEach es) :=
  (evaluateEach_permitted es (List.Subset.refl _)).inert (effectsAll_inert es still)

theorem evaluateOption_inert {e? : Option Expr} (still : pureOf e?) : Inert (evaluateOption e?) :=
  (evaluateOption_permitted e? (List.Subset.refl _)).inert (effectsOf_inert e? still)

theorem evaluateDefaults_inert {ps : List Parameter} (still : pureParameters ps) :
    Inert (evaluateDefaults ps) :=
  (evaluateDefaults_permitted ps (List.Subset.refl _)).inert (defaultEffects_inert ps still)

theorem evaluateIterables_inert {ps : List Part} (still : pureParts ps) :
    Inert (evaluateIterables ps) :=
  (evaluateIterables_permitted ps (List.Subset.refl _)).inert (iterableEffects_inert ps still)

theorem lookup_inert (name : String) (line : Nat) : Inert (lookup name line) := by
  have permitted : Permitted [.read name] (lookup name line) := .lookup (by simp)
  exact permitted.inert rfl

theorem evaluate_deferred (e : Expr) (s : State) (scopes : List Scope) :
    (evaluate e {s with deferred := scopes}).1 = (evaluate e s).1 := by
  obtain ⟨later,ran⟩ := (evaluate_permitted e (List.Subset.refl _)).blind s scopes
  rw [ran]

end Excerpt.Execution
