import Excerpt.Proofs.PureExpression
import Excerpt.Validation
import Mathlib.Data.List.Forall2

/-!
Evaluation when less is known. Where values are forgotten, fewer operands are certain to be evaluated
and fewer operations are certain to fail, so what could be evaluated before can be evaluated still. The
exception are operands of connectives that may be skipped: their failures are not seen, and one that no
longer fails may decide its connective.
-/
namespace Excerpt.Program

/-- A connective, with the truth of an operand that decides it. -/
structure Connective where
  deciding : Bool
  left : Expr
  right : Expr

mutual
/-- The connectives that are evaluated with an expression, if they are not skipped. -/
def Expr.connectives : Expr → List Connective
  | .name _ _ | .none | .truth _ | .integer _ | .blank | .suspension _ _ => []
  | .group items | .parens items | .sequence _ items | .splat _ items | .comparison items _ =>
    connectivesAll items
  | .member value _ | .keyword _ value | .walrus _ value | .negation value => value.connectives
  | .conjunction left right => ⟨false,left,right⟩ :: (left.connectives ++ right.connectives)
  | .disjunction left right => ⟨true,left,right⟩ :: (left.connectives ++ right.connectives)
  | .call left right | .aliased left right | .binary left right | .augmented left right =>
    left.connectives ++ right.connectives
  | .subscript value indices => value.connectives ++ connectivesAll indices
  | .conditional body condition alternative =>
    condition.connectives ++ body.connectives ++ alternative.connectives
  | .assignment target hint value =>
    target.connectives ++ connectivesOf hint ++ connectivesOf value
  | .lambda parameters _ => defaultConnectives parameters
  | .comprehension parts => iterableConnectives parts
def connectivesAll : List Expr → List Connective
  | [] => []
  | e :: es => e.connectives ++ connectivesAll es
def connectivesOf : Option Expr → List Connective
  | none => []
  | some e => e.connectives
def defaultConnectives : List Parameter → List Connective
  | [] => []
  | .mk _ _ default :: ps => connectivesOf default ++ defaultConnectives ps
def iterableConnectives : List Part → List Connective
  | [] => []
  | .clause _ iterables :: _ => connectivesAll iterables
  | .element _ :: ps => iterableConnectives ps
end

end Excerpt.Program

namespace Excerpt.Execution
open Excerpt.Program Exec

/-- The second value is the first, or nothing is known of it. -/
def Value.Fades (v w : Value) : Prop := w = v ∨ w = .unknown

/-- The second truth is the first, or it is not known. -/
def TruthFades (a b : Option Bool) : Prop := b = a ∨ b = none

structure Appraisal.Fades (a b : Appraisal) : Prop where
  value : a.value.Fades b.value
  truth : TruthFades a.truth b.truth

/-- The same names, of whose values less is known. -/
def NamesFade (names others : Namespace) : Prop :=
  ∀ n, Option.Rel Value.Fades (valueAt n names) (valueAt n others)

/-- The same state, but that less is known of the values of names. Scopes that wait for the check at the
end do not count. -/
structure State.Fades (s t : State) : Prop where
  modules : t.modules = s.modules
  globals : NamesFade s.globals t.globals
  locals : Option.Rel NamesFade s.locals t.locals

theorem Value.Fades.refl (v : Value) : v.Fades v := .inl rfl

theorem Value.fades_unknown (v : Value) : v.Fades .unknown := .inr rfl

theorem Value.Fades.truth {v w : Value} (fades : v.Fades w) : TruthFades v.truth w.truth := by
  rcases fades with rfl | rfl
  · exact .inl rfl
  · exact .inr rfl

theorem Value.Fades.isNothing {v w : Value} (fades : v.Fades w) :
    TruthFades v.isNothing w.isNothing := by
  rcases fades with rfl | rfl
  · exact .inl rfl
  · exact .inr rfl

theorem TruthFades.trans {a b c : Option Bool} (first : TruthFades a b) (second : TruthFades b c) :
    TruthFades a c := by
  rcases second with rfl | lost
  · exact first
  · exact .inr lost

theorem TruthFades.map {a b : Option Bool} (fades : TruthFades a b) (f : Bool → Bool) :
    TruthFades (a.map f) (b.map f) := by
  rcases fades with rfl | rfl
  · exact .inl rfl
  · exact .inr rfl

theorem Appraisal.Fades.ofValue {v w : Value} (fades : v.Fades w) : (ofValue v).Fades (ofValue w) :=
  ⟨fades,fades.truth⟩

theorem Appraisal.fades_unknown (a : Appraisal) : a.Fades unknown := ⟨.inr rfl,.inr rfl⟩

theorem rel_or {α : Type} {related : α → α → Prop} {a b c d : Option α}
    (first : Option.Rel related a b) (second : Option.Rel related c d) :
    Option.Rel related (a.or c) (b.or d) := by
  cases first with
  | none => exact second
  | some here => exact .some here

theorem rel_find {names others : Option Namespace} (fade : Option.Rel NamesFade names others)
    (name : String) :
    Option.Rel Value.Fades (names.bind (valueAt name)) (others.bind (valueAt name)) := by
  cases fade with
  | none => exact .none
  | some inside => exact inside name

theorem State.Fades.find? {s t : State} (fades : s.Fades t) (name : String) :
    Option.Rel Value.Fades (s.find? name) (t.find? name) := by
  refine rel_or (rel_or (rel_find fades.locals name) (fades.globals name)) ?_
  split
  · exact .some (.refl _)
  · exact .none

theorem lookup_eq_ok {name : String} {line : Nat} {s : State} {v : Value} :
    (lookup name line s).1 = .ok v ↔ s.find? name = some v := by
  rw [lookup_apply]
  cases s.find? name <;> simp

/-- Where the first step succeeds in the state `s`, the second succeeds in the state `t`, with a related
result. Scopes that wait for the check at the end do not count. -/
def Forgiving (s t : State) {α β : Type} (related : α → β → Prop) (step : Exec α) (other : Exec β) :
    Prop :=
  ∀ before after a, (step {s with deferred := before}).1 = .ok a →
    ∃ b, (other {t with deferred := after}).1 = .ok b ∧ related a b

namespace Forgiving

variable {s t : State} {α β γ δ : Type} {related : α → β → Prop} {connected : γ → δ → Prop}

theorem pure {a : α} {b : β} (holds : related a b) :
    Forgiving s t related (Pure.pure a : Exec α) (Pure.pure b : Exec β) := by
  rintro before after _ ⟨⟩
  exact ⟨b,rfl,holds⟩

theorem bind {step : Exec α} {other : Exec β} {next : α → Exec γ} {later : β → Exec δ}
    (inert : Inert step) (still : Inert other) (first : Forgiving s t related step other)
    (rest : ∀ a b, related a b → Forgiving s t connected (next a) (later b)) :
    Forgiving s t connected (step >>= next) (other >>= later) := by
  intro before after c succeeded
  have stateS := inert.state {s with deferred := before}
  have stateT := still.state {t with deferred := after}
  rw [bind_apply] at succeeded ⊢
  rcases ranS : step {s with deferred := before} with ⟨r | a,s'⟩
  · rw [ranS] at succeeded
    cases succeeded
  · obtain ⟨b,same,holds⟩ := first before after a (by rw [ranS])
    rcases ranT : other {t with deferred := after} with ⟨r | b',t'⟩
    · rw [ranT] at same
      cases same
    · rw [ranT] at same stateT
      rw [ranS] at stateS succeeded
      cases same
      dsimp only at stateS stateT succeeded ⊢
      rw [stateS] at succeeded
      rw [stateT]
      exact rest a b holds _ _ c succeeded

/-- A pure expression first. -/
theorem evaluated {e : Expr} {next : Appraisal → Exec γ} {later : Appraisal → Exec δ}
    (still : e.isPure) (first : Forgiving s t Appraisal.Fades (evaluate e) (evaluate e))
    (rest : ∀ a b, a.Fades b → Forgiving s t connected (next a) (later b)) :
    Forgiving s t connected (evaluate e >>= next) (evaluate e >>= later) :=
  .bind (evaluate_inert still) (evaluate_inert still) first rest

/-- A step without effects first. -/
theorem small {step : Exec α} {other : Exec β} {next : α → Exec γ} {later : β → Exec δ}
    (one : Permitted [] step) (two : Permitted [] other) (first : Forgiving s t related step other)
    (rest : ∀ a b, related a b → Forgiving s t connected (next a) (later b)) :
    Forgiving s t connected (step >>= next) (other >>= later) :=
  .bind (one.inert rfl) (two.inert rfl) first rest

theorem lookup (fades : s.Fades t) (name : String) (line : Nat) :
    Forgiving s t Value.Fades (Exec.lookup name line) (Exec.lookup name line) := by
  intro before after v found
  rw [lookup_eq_ok] at found
  have related := fades.find? name
  rw [show s.find? name = some v from found] at related
  cases held : t.find? name with
  | none =>
    rw [held] at related
    cases related
  | some w =>
    rw [held] at related
    cases related with
    | some fade => exact ⟨w,lookup_eq_ok.2 held,fade⟩

theorem requireUnknown {v w : Value} (fades : v.Fades w) (message : String → String) :
    Forgiving s t (fun _ _ => True) (Exec.requireUnknown v message)
      (Exec.requireUnknown w message) := by
  rcases fades with rfl | rfl
  · cases w with
    | unknown => exact .pure trivial
    | module path => rintro before after _ ⟨⟩
    | nothing => rintro before after _ ⟨⟩
  · cases v with
    | unknown => exact .pure trivial
    | module path => rintro before after _ ⟨⟩
    | nothing => rintro before after _ ⟨⟩

theorem combine {v w v' w' : Value} (left : v.Fades w) (right : v'.Fades w') :
    Forgiving s t Value.Fades (Exec.combine v v') (Exec.combine w w') := by
  by_cases known : v = .unknown ∨ v' = .unknown
  · have lost : w = .unknown ∨ w' = .unknown := by
      refine known.imp (fun here => ?_) fun here => ?_
      · rcases left with rfl | rfl
        · exact here
        · rfl
      · rcases right with rfl | rfl
        · exact here
        · rfl
    rw [Exec.combine,Exec.combine,if_pos known,if_pos lost]
    exact .pure (.refl _)
  · rw [Exec.combine,if_neg known]
    rintro before after _ ⟨⟩

theorem attributeOf (fades : s.Fades t) {v w : Value} (object : v.Fades w) (attr : String) :
    Forgiving s t Value.Fades (Exec.attributeOf v attr) (Exec.attributeOf w attr) := by
  rcases object with rfl | rfl
  · cases w with
    | unknown => exact .pure (.refl _)
    | nothing => rintro before after _ ⟨⟩
    | module path =>
      intro before after u found
      refine ⟨u,?_,.refl u⟩
      change ((liftM (s.modules.attribute? path attr) : Exec Value) _).1 = _ at found
      change ((liftM (t.modules.attribute? path attr) : Exec Value) _).1 = _
      rw [fades.modules]
      cases held : s.modules.attribute? path attr with
      | error r =>
        rw [held] at found
        cases found
      | ok value =>
        rw [held] at found
        exact found
  · intro before after u _
    exact ⟨.unknown,rfl,u.fades_unknown⟩

end Forgiving

theorem getLast?_fades {as bs : List Appraisal} (fade : List.Forall₂ Appraisal.Fades as bs) :
    ((as.getLast?.map Appraisal.value).getD .unknown).Fades
      ((bs.getLast?.map Appraisal.value).getD .unknown) := by
  induction fade with
  | nil => exact .refl _
  | @cons a b as bs first rest ih =>
    cases rest with
    | nil => exact first.value
    | cons second rest => simpa using ih

/-- Only one comparison of two operands has a known truth. -/
theorem comparisonTruth_fades (operands : List Expr) {as bs : List Appraisal}
    (comparators : List Comparator) (fade : List.Forall₂ Appraisal.Fades as bs) :
    TruthFades (comparisonTruth operands (as.map Appraisal.value) comparators)
      (comparisonTruth operands (bs.map Appraisal.value) comparators) := by
  rcases operands with _ | ⟨left,_ | ⟨right,_ | ⟨third,others⟩⟩⟩ <;> try exact .inl rfl
  rcases fade with _ | ⟨first,_ | ⟨last,_ | _⟩⟩ <;> try exact .inl rfl
  rcases comparators with _ | ⟨comparator,_ | ⟨second,more⟩⟩ <;> try exact .inl rfl
  rename_i a b c d
  have decided : TruthFades
      (if isNone right then a.value.isNothing else if isNone left then c.value.isNothing else none)
      (if isNone right then b.value.isNothing else if isNone left then d.value.isNothing else none) := by
    split
    · exact first.value.isNothing
    · split
      · exact last.value.isNothing
      · exact .inl rfl
  cases comparator with
  | identical | equal => exact decided
  | notIdentical | notEqual => exact decided.map _
  | other => exact .inl rfl

/-- What a connective does, with the truth of an operand that decides it. -/
def connect (deciding : Bool) (left right : Exec Appraisal) : Exec Appraisal := do
  let left ← left
  if left.truth = some deciding then return left
  else if left.truth.isSome then right
  else return ⟨.unknown,settledBy deciding (← perhaps right)⟩

theorem evaluate_conjunction (left right : Expr) :
    evaluate (.conjunction left right) = connect false (evaluate left) (evaluate right) := by
  rw [evaluate,connect]
  refine congrArg (bind (evaluate left)) (funext fun known => ?_)
  rcases known.truth with _ | _ | _ <;> rfl

theorem evaluate_disjunction (left right : Expr) :
    evaluate (.disjunction left right) = connect true (evaluate left) (evaluate right) := by
  rw [evaluate,connect]
  refine congrArg (bind (evaluate left)) (funext fun known => ?_)
  rcases known.truth with _ | _ | _ <;> rfl

/-- Of a connective whose left side has an unknown truth in the state `s`, the failure of the right side
is not seen there; in the state `t` the right side decides the connective. -/
structure Surfaces (c : Connective) (s t : State) : Prop where
  unsure : ∃ a, (evaluate c.left s).1 = .ok a ∧ a.truth = none
  fails : ∃ r, (evaluate c.right s).1 = .error r
  decides : ∃ b, (evaluate c.right t).1 = .ok b ∧ b.truth = some c.deciding

theorem settledBy_fades {a b : Appraisal} (fades : a.Fades b) (deciding : Bool) :
    TruthFades (settledBy deciding (some a)) (settledBy deciding (some b)) := by
  rcases fades.truth with same | lost
  · exact .inl (by simp [settledBy,same])
  · exact .inr (by simp [settledBy,lost])

/-- What a connective makes of its right side if nothing is known of the left side. -/
theorem evaluate_perhaps {e : Expr} (still : e.isPure) (deciding : Bool) (s : State)
    (scopes : List Scope) :
    ((do return ⟨.unknown,settledBy deciding (← perhaps (evaluate e))⟩ : Exec Appraisal)
      {s with deferred := scopes}).1 =
      .ok ⟨.unknown,settledBy deciding (evaluate e s).1.toOption⟩ := by
  rw [bind_apply,(evaluate_inert still).perhaps_apply,evaluate_deferred]
  rfl

theorem settledBy_or (deciding : Bool) (right : Option Appraisal) :
    settledBy deciding right = some deciding ∨ settledBy deciding right = none := by
  rw [settledBy]
  cases right.bind Appraisal.truth with
  | none => exact .inr rfl
  | some truth => by_cases same : truth = deciding <;> simp [same]

theorem settledBy_eq_some {deciding : Bool} {right : Option Appraisal}
    (decided : settledBy deciding right = some deciding) :
    ∃ b, right = some b ∧ b.truth = some deciding := by
  obtain ⟨known,-⟩ := Option.filter_eq_some_iff.1 decided
  exact Option.bind_eq_some_iff.1 known

theorem truthFades_settledBy (deciding : Bool) (a : Appraisal) :
    TruthFades a.truth (settledBy deciding (some a)) := by
  refine (settledBy_or deciding (some a)).imp_left fun decided => ?_
  obtain ⟨b,same,truth⟩ := settledBy_eq_some decided
  cases same
  exact decided.trans truth.symm

/-- A right side that may be skipped decides no more when less is known, unless a failure surfaces. -/
theorem settledBy_outcome_fades {s t : State} {deciding : Bool} {right : Expr}
    (second : Forgiving s t Appraisal.Fades (evaluate right) (evaluate right))
    (hidden : ∀ r b, (evaluate right s).1 = .error r → (evaluate right t).1 = .ok b →
      b.truth ≠ some deciding) :
    TruthFades (settledBy deciding (evaluate right s).1.toOption)
      (settledBy deciding (evaluate right t).1.toOption) := by
  rcases ran : (evaluate right s).1 with r | a
  · refine (settledBy_or deciding _).elim (fun decided => ?_) .inr
    obtain ⟨b,ok,truth⟩ := settledBy_eq_some decided
    rcases other : (evaluate right t).1 with r' | b'
    · rw [other] at ok
      cases ok
    · rw [other] at ok
      cases ok
      exact absurd truth (hidden r b ran other)
  · obtain ⟨b,ok,fades⟩ := second s.deferred t.deferred a ran
    rw [show (evaluate right t).1 = .ok b from ok]
    exact settledBy_fades fades deciding

theorem forgiving_connect {s t : State} (deciding : Bool) {left right : Expr}
    (pureLeft : left.isPure) (pureRight : right.isPure)
    (hidden : ¬ Surfaces ⟨deciding,left,right⟩ s t)
    (first : Forgiving s t Appraisal.Fades (evaluate left) (evaluate left))
    (second : Forgiving s t Appraisal.Fades (evaluate right) (evaluate right)) :
    Forgiving s t Appraisal.Fades (connect deciding (evaluate left) (evaluate right))
      (connect deciding (evaluate left) (evaluate right)) := by
  have noted : Forgiving s t (fun a b => a.Fades b ∧ (evaluate left s).1 = .ok a)
      (evaluate left) (evaluate left) := by
    intro before after a ran
    obtain ⟨b,ok,fades⟩ := first before after a ran
    exact ⟨b,ok,fades,by rwa [evaluate_deferred] at ran⟩
  refine .bind (evaluate_inert pureLeft) (evaluate_inert pureLeft) noted fun a b related => ?_
  obtain ⟨fades,ran⟩ := related
  by_cases decided : a.truth = some deciding
  · -- the left side alone decides, and the right side may have to be looked at after all
    rw [if_pos decided]
    rcases fades.truth with same | lost
    · rw [if_pos (same.trans decided)]
      exact .pure fades
    · rintro before after _ ⟨⟩
      simp only [lost,Option.isSome_none,Bool.false_eq_true,if_false,reduceCtorEq]
      refine ⟨_,evaluate_perhaps pureRight deciding t after,.inr rfl,?_⟩
      exact decided ▸ settledBy_or deciding _
  · rw [if_neg decided]
    by_cases known : a.truth.isSome
    · rw [if_pos known]
      rcases fades.truth with same | lost
      · rw [same,if_neg decided,if_pos known]
        exact second
      · intro before after c succeeded
        simp only [lost,Option.isSome_none,Bool.false_eq_true,if_false,reduceCtorEq]
        obtain ⟨d,ok,weaker⟩ := second before after c succeeded
        rw [evaluate_deferred] at ok
        refine ⟨_,evaluate_perhaps pureRight deciding t after,.inr rfl,?_⟩
        rw [ok]
        exact weaker.truth.trans (truthFades_settledBy deciding d)
    · -- both states skip over the right side, and only here a failure can surface
      have unsure : a.truth = none := by simpa using known
      have lost : b.truth = none := by
        rcases fades.truth with same | lost
        · exact same.trans unsure
        · exact lost
      intro before after c succeeded
      simp only [unsure,Option.isSome_none,Bool.false_eq_true,if_false] at succeeded
      simp only [lost,Option.isSome_none,Bool.false_eq_true,if_false,reduceCtorEq]
      rw [evaluate_perhaps pureRight] at succeeded
      cases succeeded
      refine ⟨_,evaluate_perhaps pureRight deciding t after,.inr rfl,?_⟩
      refine settledBy_outcome_fades second fun r d fails ok truth => hidden ?_
      exact ⟨⟨a,ran,unsure⟩,⟨r,fails⟩,⟨d,ok,truth⟩⟩

/-- A branch that may be skipped cannot fail, and gives nothing away. -/
theorem skipped_branches {body alternative : Expr} (pureBody : body.isPure)
    (pureAlternative : alternative.isPure) (t : State) :
    ((do
      let _ ← perhaps (evaluate body)
      let _ ← perhaps (evaluate alternative)
      return .unknown : Exec Appraisal) t).1 = .ok .unknown := by
  rw [bind_apply,(evaluate_inert pureBody).perhaps_apply]
  dsimp only
  rw [bind_apply,(evaluate_inert pureAlternative).perhaps_apply]
  rfl

/-- None of the connectives lets a failure surface. -/
def Hides (s t : State) (connectives : List Connective) : Prop :=
  ∀ c ∈ connectives, ¬ Surfaces c s t

theorem hides_append {s t : State} {few more : List Connective} :
    Hides s t (few ++ more) ↔ Hides s t few ∧ Hides s t more := List.forall_mem_append

theorem hides_cons {s t : State} {c : Connective} {more : List Connective} :
    Hides s t (c :: more) ↔ ¬ Surfaces c s t ∧ Hides s t more := List.forall_mem_cons

mutual
/-- Every case follows the order in which the parts are evaluated. -/
theorem evaluate_forgiving {s t : State} (fades : s.Fades t) : ∀ e : Expr, e.isPure →
    Hides s t e.connectives → Forgiving s t Appraisal.Fades (evaluate e) (evaluate e)
  | .name id line, _, _ => by
    rw [evaluate]
    exact .bind (lookup_inert id line) (lookup_inert id line) (.lookup fades id line)
      fun _ _ related => .pure (.ofValue related)
  | .none, _, _ => .pure (.ofValue (.refl _))
  | .truth _, _, _ => .pure ⟨.refl _,.inl rfl⟩
  | .integer _, _, _ => .pure ⟨.refl _,.inl rfl⟩
  | .blank, _, _ => .pure (Appraisal.fades_unknown _)
  | .group items, still, hidden => by
    rw [evaluate]
    exact .bind (evaluateEach_inert still) (evaluateEach_inert still)
      (evaluateEach_forgiving fades items still hidden) fun _ _ _ => .pure (Appraisal.fades_unknown _)
  | .parens items, still, hidden => by
    rw [evaluate]
    refine .bind (evaluateEach_inert still) (evaluateEach_inert still)
      (evaluateEach_forgiving fades items still hidden) fun as bs fade => ?_
    rcases fade with _ | ⟨first,_ | ⟨second,rest⟩⟩
    · exact .pure (.ofValue (.refl _))
    · exact .pure first
    · exact .pure (.ofValue (getLast?_fades (.cons first (.cons second rest))))
  | .sequence form items, still, hidden => by
    rw [evaluate]
    exact .bind (evaluateEach_inert still) (evaluateEach_inert still)
      (evaluateEach_forgiving fades items still hidden) fun _ _ _ => .pure ⟨.refl _,.inl rfl⟩
  | .splat _ items, still, hidden => by
    rw [evaluate]
    exact .bind (evaluateEach_inert still) (evaluateEach_inert still)
      (evaluateEach_forgiving fades items still hidden) fun _ _ _ => .pure (Appraisal.fades_unknown _)
  | .member object attr, still, hidden => by
    rw [evaluate]
    refine .evaluated still (evaluate_forgiving fades object still hidden) fun _ _ related => ?_
    exact .small (.attributeOf _ _) (.attributeOf _ _) (.attributeOf fades related.value attr)
      fun _ _ held => .pure (.ofValue held)
  | .call function arguments, still, hidden => by
    rw [evaluate]
    simp only [Expr.isPure,Bool.and_eq_true] at still
    rw [Expr.connectives,hides_append] at hidden
    refine .evaluated still.1 (evaluate_forgiving fades function still.1 hidden.1) fun _ _ related => ?_
    refine .evaluated still.2 (evaluate_forgiving fades arguments still.2 hidden.2) fun _ _ _ => ?_
    exact .small (.requireUnknown _ _) (.requireUnknown _ _) (.requireUnknown related.value _)
      fun _ _ _ => .pure (Appraisal.fades_unknown _)
  | .subscript value indices, still, hidden => by
    rw [evaluate]
    simp only [Expr.isPure,Bool.and_eq_true] at still
    rw [Expr.connectives,hides_append] at hidden
    refine .evaluated still.1 (evaluate_forgiving fades value still.1 hidden.1) fun _ _ related => ?_
    refine .bind (evaluateEach_inert still.2) (evaluateEach_inert still.2)
      (evaluateEach_forgiving fades indices still.2 hidden.2) fun _ _ _ => ?_
    exact .small (.requireUnknown _ _) (.requireUnknown _ _) (.requireUnknown related.value _)
      fun _ _ _ => .pure (Appraisal.fades_unknown _)
  | .keyword _ value, still, hidden => by
    rw [evaluate]
    exact .evaluated still (evaluate_forgiving fades value still hidden) fun _ _ related =>
      .pure (.ofValue related.value)
  | .aliased value target, still, hidden => by
    rw [evaluate]
    simp only [Expr.isPure,Bool.and_eq_true] at still
    rw [Expr.connectives,hides_append] at hidden
    refine .evaluated still.1 (evaluate_forgiving fades value still.1 hidden.1) fun _ _ _ => ?_
    exact .evaluated still.2 (evaluate_forgiving fades target still.2 hidden.2) fun _ _ _ =>
      .pure (Appraisal.fades_unknown _)
  | .conditional body condition alternative, still, hidden => by
    rw [evaluate]
    simp only [Expr.isPure,Bool.and_eq_true] at still
    rw [Expr.connectives,hides_append,hides_append] at hidden
    have runBody := evaluate_forgiving fades body still.1.1 hidden.1.2
    have runAlternative := evaluate_forgiving fades alternative still.2 hidden.2
    refine .evaluated still.1.2 (evaluate_forgiving fades condition still.1.2 hidden.1.1)
      fun a b related => ?_
    cases held : b.truth with
    | none =>
      intro before after c _
      exact ⟨_,skipped_branches still.1.1 still.2 _,Appraisal.fades_unknown c⟩
    | some truth =>
      have same : a.truth = some truth := by
        rcases related.truth with same | lost
        · exact same.symm.trans held
        · exact nomatch held.symm.trans lost
      rw [same]
      cases truth with
      | true => exact .evaluated still.1.1 runBody fun _ _ fade => .pure (.ofValue fade.value)
      | false => exact .evaluated still.2 runAlternative fun _ _ fade => .pure (.ofValue fade.value)
  | .conjunction left right, still, hidden => by
    rw [evaluate_conjunction]
    simp only [Expr.isPure,Bool.and_eq_true] at still
    rw [Expr.connectives,hides_cons,hides_append] at hidden
    exact forgiving_connect false still.1 still.2 hidden.1
      (evaluate_forgiving fades left still.1 hidden.2.1)
      (evaluate_forgiving fades right still.2 hidden.2.2)
  | .disjunction left right, still, hidden => by
    rw [evaluate_disjunction]
    simp only [Expr.isPure,Bool.and_eq_true] at still
    rw [Expr.connectives,hides_cons,hides_append] at hidden
    exact forgiving_connect true still.1 still.2 hidden.1
      (evaluate_forgiving fades left still.1 hidden.2.1)
      (evaluate_forgiving fades right still.2 hidden.2.2)
  | .negation argument, still, hidden => by
    rw [evaluate]
    exact .evaluated still (evaluate_forgiving fades argument still hidden) fun _ _ related =>
      .pure ⟨.refl _,related.truth.map _⟩
  | .comparison operands comparators, still, hidden => by
    rw [evaluate]
    exact .bind (evaluateEach_inert still) (evaluateEach_inert still)
      (evaluateEach_forgiving fades operands still hidden) fun _ _ fade =>
        .pure ⟨.refl _,comparisonTruth_fades operands comparators fade⟩
  | .binary left right, still, hidden => by
    rw [evaluate]
    simp only [Expr.isPure,Bool.and_eq_true] at still
    rw [Expr.connectives,hides_append] at hidden
    refine .evaluated still.1 (evaluate_forgiving fades left still.1 hidden.1) fun _ _ first => ?_
    refine .evaluated still.2 (evaluate_forgiving fades right still.2 hidden.2) fun _ _ second => ?_
    exact .small (.combine _ _) (.combine _ _) (.combine first.value second.value)
      fun _ _ held => .pure (.ofValue held)
  | .lambda parameters body, still, hidden => by
    rw [evaluate]
    simp only [Expr.isPure,Bool.and_eq_true] at still
    refine .bind (evaluateDefaults_inert still.1) (evaluateDefaults_inert still.1)
      (evaluateDefaults_forgiving fades parameters still.1 hidden) fun _ _ _ => ?_
    exact fun _ _ c _ => ⟨.unknown,rfl,c.fades_unknown⟩
  | .comprehension parts, still, hidden => by
    rw [evaluate]
    refine .bind (evaluateIterables_inert still) (evaluateIterables_inert still)
      (evaluateIterables_forgiving fades parts still hidden) fun _ _ _ => ?_
    exact fun _ _ c _ => ⟨.unknown,rfl,c.fades_unknown⟩
  | .assignment target hint value, still, hidden => by
    rw [evaluate]
    simp only [Expr.isPure,Bool.and_eq_true] at still
    rw [Expr.connectives,hides_append,hides_append] at hidden
    refine .evaluated still.1.1 (evaluate_forgiving fades target still.1.1 hidden.1.1) fun _ _ _ => ?_
    refine .bind (evaluateOption_inert still.1.2) (evaluateOption_inert still.1.2)
      (evaluateOption_forgiving fades hint still.1.2 hidden.1.2) fun _ _ _ => ?_
    exact .bind (evaluateOption_inert still.2) (evaluateOption_inert still.2)
      (evaluateOption_forgiving fades value still.2 hidden.2) fun _ _ _ =>
        .pure (Appraisal.fades_unknown _)
  | .augmented target value, still, hidden => by
    rw [evaluate]
    simp only [Expr.isPure,Bool.and_eq_true] at still
    rw [Expr.connectives,hides_append] at hidden
    refine .evaluated still.1 (evaluate_forgiving fades target still.1 hidden.1) fun _ _ _ => ?_
    exact .evaluated still.2 (evaluate_forgiving fades value still.2 hidden.2) fun _ _ _ =>
      .pure (Appraisal.fades_unknown _)
theorem evaluateEach_forgiving {s t : State} (fades : s.Fades t) : ∀ es : List Expr, pureAll es →
    Hides s t (connectivesAll es) →
      Forgiving s t (List.Forall₂ Appraisal.Fades) (evaluateEach es) (evaluateEach es)
  | [], _, _ => .pure .nil
  | e :: es, still, hidden => by
    rw [evaluateEach]
    simp only [pureAll,Bool.and_eq_true] at still
    rw [connectivesAll,hides_append] at hidden
    refine .evaluated still.1 (evaluate_forgiving fades e still.1 hidden.1) fun _ _ first => ?_
    exact .bind (evaluateEach_inert still.2) (evaluateEach_inert still.2)
      (evaluateEach_forgiving fades es still.2 hidden.2) fun _ _ rest => .pure (.cons first rest)
theorem evaluateOption_forgiving {s t : State} (fades : s.Fades t) : ∀ e? : Option Expr, pureOf e? →
    Hides s t (connectivesOf e?) →
      Forgiving s t (fun _ _ => True) (evaluateOption e?) (evaluateOption e?)
  | none, _, _ => .pure trivial
  | some e, still, hidden => by
    rw [evaluateOption]
    exact .evaluated still (evaluate_forgiving fades e still hidden) fun _ _ _ => .pure trivial
theorem evaluateDefaults_forgiving {s t : State} (fades : s.Fades t) :
    ∀ ps : List Parameter, pureParameters ps → Hides s t (defaultConnectives ps) →
      Forgiving s t (fun _ _ => True) (evaluateDefaults ps) (evaluateDefaults ps)
  | [], _, _ => .pure trivial
  | .mk _ _ default :: ps, still, hidden => by
    rw [evaluateDefaults]
    simp only [pureParameters,Bool.and_eq_true] at still
    rw [defaultConnectives,hides_append] at hidden
    exact .bind (evaluateOption_inert still.1.2) (evaluateOption_inert still.1.2)
      (evaluateOption_forgiving fades default still.1.2 hidden.1) fun _ _ _ =>
        evaluateDefaults_forgiving fades ps still.2 hidden.2
theorem evaluateIterables_forgiving {s t : State} (fades : s.Fades t) :
    ∀ ps : List Part, pureParts ps → Hides s t (iterableConnectives ps) →
      Forgiving s t (fun _ _ => True) (evaluateIterables ps) (evaluateIterables ps)
  | [], _, _ => .pure trivial
  | .clause _ iterables :: _, still, hidden => by
    rw [evaluateIterables]
    simp only [pureParts,Bool.and_eq_true] at still
    exact evaluateIterable_forgiving fades iterables still.1.2 hidden
  | .element _ :: ps, still, hidden => by
    rw [evaluateIterables]
    simp only [pureParts,Bool.and_eq_true] at still
    exact evaluateIterables_forgiving fades ps still.2 hidden
theorem evaluateIterable_forgiving {s t : State} (fades : s.Fades t) : ∀ es : List Expr, pureAll es →
    Hides s t (connectivesAll es) →
      Forgiving s t (fun _ _ => True) (evaluateIterable es) (evaluateIterable es)
  | [], _, _ => .pure trivial
  | e :: es, still, hidden => by
    rw [evaluateIterable]
    simp only [pureAll,Bool.and_eq_true] at still
    rw [connectivesAll,hides_append] at hidden
    refine .evaluated still.1 (evaluate_forgiving fades e still.1 hidden.1) fun _ _ related => ?_
    exact .small (.requireUnknown _ _) (.requireUnknown _ _) (.requireUnknown related.value _)
      fun _ _ _ => evaluateIterable_forgiving fades es still.2 hidden.2
end

/-- Where less is known, no more fails: what can be evaluated in a state can be evaluated when values
are forgotten, with the same result or one of which less is known. The connectives in the expression
must not let a failure surface that the state hides. -/
theorem evaluate_of_fades {s t : State} (fades : s.Fades t) {e : Expr} (still : e.isPure)
    (hidden : ∀ c ∈ e.connectives, ¬ Surfaces c s t) {a : Appraisal}
    (succeeded : (evaluate e s).1 = .ok a) :
    ∃ b, (evaluate e t).1 = .ok b ∧ (b.value = a.value ∨ b.value = .unknown) ∧
      (b.truth = a.truth ∨ b.truth = none) := by
  obtain ⟨b,ok,fade⟩ := evaluate_forgiving fades e still hidden s.deferred t.deferred a succeeded
  exact ⟨b,ok,fade.value,fade.truth⟩

theorem namesFade_nil : NamesFade [] [] := fun _ => .none

theorem namesFade_cons {names others : Namespace} (rest : NamesFade names others) {v w : Value}
    (value : v.Fades w) (key : String) : NamesFade ((key,v) :: names) ((key,w) :: others) := by
  intro n
  simp only [valueAt]
  split
  · exact .some value
  · exact rest n

/-- The state of a module that has given values to the names `c` and `x`. -/
def stateOf (c x : Value) : State := ⟨Modules.empty [],[("c",c),("x",x)],none,[]⟩

theorem stateOf_fades {c x y : Value} (value : x.Fades y) : (stateOf c x).Fades (stateOf c y) :=
  ⟨rfl,namesFade_cons (namesFade_cons namesFade_nil value "x") (.refl c) "c",.none⟩

/-- `None if x is None or c else x.a` -/
def noneOrMember : Expr :=
  .conditional .none (.disjunction (.comparison [.name "x" 1,.none] [.identical]) (.name "c" 1))
    (.member (.name "x" 1) "a")

/-- Once `x` is forgotten, neither the connective nor the condition is decided any more, and of the value
nothing is known. -/
theorem evaluate_of_fades_none :
    (stateOf .unknown .nothing).Fades (stateOf .unknown .unknown) ∧ noneOrMember.isPure ∧
    (∀ c ∈ noneOrMember.connectives,
      ¬ Surfaces c (stateOf .unknown .nothing) (stateOf .unknown .unknown)) ∧
    (evaluate noneOrMember (stateOf .unknown .nothing)).1 = .ok (.ofValue .nothing) ∧
    ∃ b, (evaluate noneOrMember (stateOf .unknown .unknown)).1 = .ok b ∧
      (b.value = .nothing ∨ b.value = .unknown) ∧ (b.truth = some false ∨ b.truth = none) := by
  have fades : (stateOf .unknown .nothing).Fades (stateOf .unknown .unknown) := stateOf_fades (.inr rfl)
  have hidden : ∀ c ∈ noneOrMember.connectives,
      ¬ Surfaces c (stateOf .unknown .nothing) (stateOf .unknown .unknown) := by
    intro c member surfaces
    obtain rfl := List.mem_singleton.1 member
    obtain ⟨a,ran,unsure⟩ := surfaces.unsure
    obtain rfl : (⟨.unknown,some true⟩ : Appraisal) = a := Except.ok.inj ran
    cases unsure
  have known : (evaluate noneOrMember (stateOf .unknown .nothing)).1 = .ok (.ofValue .nothing) := rfl
  exact ⟨fades,rfl,hidden,known,evaluate_of_fades fades rfl hidden known⟩

/-- `missing if c or [x.a] else 0` -/
def missingIfListed : Expr :=
  .conditional (.name "missing" 3)
    (.disjunction (.name "c" 3) (.sequence .list [.member (.name "x" 3) "a"])) (.integer (some false))

/-- As long as `x` is known to be `None`, the failure of `x.a` is not seen. Once `x` is forgotten, the
list decides the connective, and a name that is missing is looked up for sure. -/
theorem forgotten_value_fails :
    (stateOf .unknown .nothing).Fades (stateOf .unknown .unknown) ∧ missingIfListed.isPure ∧
    (evaluate missingIfListed (stateOf .unknown .nothing)).1 = .ok .unknown ∧
    (evaluate missingIfListed (stateOf .unknown .unknown)).1 = .error (.nameError "missing" 3) ∧
    validate [] "c = len\nx = None\ny = missing if c or [x.a] else 0\n" = .valid ∧
    validate [] "c = len\nx = len\ny = missing if c or [x.a] else 0\n" =
      .undefinedReference "missing" 3 := by
  refine ⟨stateOf_fades (.inr rfl),rfl,rfl,rfl,?_,?_⟩
  · decide +kernel
  · decide +kernel

end Excerpt.Execution
