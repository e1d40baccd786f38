import Excerpt.Execution.Statement
import Excerpt.Proofs.Permission

/-!
Blanks among the items of an expression. A blank is evaluated to nothing and binds nothing, so most
constructs do not notice whether it is there. Where the number of items decides something, a blank may
only be left out if the decision stays the same. Expressions that differ in such blanks have the same
names in them and are evaluated alike.
-/
namespace Excerpt.Program
open Excerpt.Execution

/-- Whether a comparison of the operands can be decided: there are two, and one is `None`. -/
def Decisive (operands : List Expr) : Prop :=
  ∃ left right, operands = [left,right] ∧ (isNone left ∨ isNone right)

mutual
/-- The second expression is the first without some of the blanks among its items. Where the expression
is live, no value depends on the blanks that are left out; elsewhere only the names in it count. -/
inductive Expr.Joins : Bool → Expr → Expr → Prop
  | same (live : Bool) (e : Expr) : Expr.Joins live e e
  | group {live : Bool} {items items' : List Expr} (parts : JoinsAll live items items') :
    Expr.Joins live (.group items) (.group items')
  | parens {live : Bool} {items items' : List Expr} (parts : JoinsAll live items items')
    (length : live → items'.length = items.length) : Expr.Joins live (.parens items) (.parens items')
  | sequence {live : Bool} {form : SequenceForm} {items items' : List Expr}
    (parts : JoinsAll live items items')
    (filled : live → form.isDisplay → items'.isEmpty = items.isEmpty) :
    Expr.Joins live (.sequence form items) (.sequence form items')
  | splat {live double : Bool} {items items' : List Expr} (parts : JoinsAll live items items') :
    Expr.Joins live (.splat double items) (.splat double items')
  | member {live : Bool} {object object' : Expr} {attr : String} (part : Expr.Joins live object object') :
    Expr.Joins live (.member object attr) (.member object' attr)
  | call {live : Bool} {function function' arguments arguments' : Expr}
    (first : Expr.Joins live function function') (second : Expr.Joins live arguments arguments') :
    Expr.Joins live (.call function arguments) (.call function' arguments')
  | subscript {live : Bool} {value value' : Expr} {indices indices' : List Expr}
    (first : Expr.Joins live value value') (parts : JoinsAll live indices indices') :
    Expr.Joins live (.subscript value indices) (.subscript value' indices')
  | keyword {live : Bool} {name : String} {value value' : Expr} (part : Expr.Joins live value value') :
    Expr.Joins live (.keyword name value) (.keyword name value')
  | walrus {live : Bool} {name : String} {value value' : Expr} (part : Expr.Joins live value value') :
    Expr.Joins live (.walrus name value) (.walrus name value')
  | aliased {live : Bool} {value value' target target' : Expr} (first : Expr.Joins live value value')
    (second : Expr.Joins live target target') :
    Expr.Joins live (.aliased value target) (.aliased value' target')
  | conditional {live : Bool} {body body' condition condition' alternative alternative' : Expr}
    (first : Expr.Joins live body body') (second : Expr.Joins live condition condition')
    (third : Expr.Joins live alternative alternative') :
    Expr.Joins live (.conditional body condition alternative)
      (.conditional body' condition' alternative')
  /-- With a blank more a conditional is not told from a group. -/
  | regrouped {items : List Expr} {body condition alternative : Expr}
    (parts : JoinsAll false items [body,condition,alternative]) :
    Expr.Joins false (.group items) (.conditional body condition alternative)
  /-- A group without a blank may be a conditional, and a conditional without one is a group. -/
  | ungrouped {items : List Expr} {body condition alternative : Expr}
    (parts : JoinsAll false [body,condition,alternative] items) :
    Expr.Joins false (.conditional body condition alternative) (.group items)
  | conjunction {live : Bool} {left left' right right' : Expr} (first : Expr.Joins live left left')
    (second : Expr.Joins live right right') :
    Expr.Joins live (.conjunction left right) (.conjunction left' right')
  | disjunction {live : Bool} {left left' right right' : Expr} (first : Expr.Joins live left left')
    (second : Expr.Joins live right right') :
    Expr.Joins live (.disjunction left right) (.disjunction left' right')
  | negation {live : Bool} {argument argument' : Expr} (part : Expr.Joins live argument argument') :
    Expr.Joins live (.negation argument) (.negation argument')
  | comparison {live : Bool} {operands operands' : List Expr} {comparators : List Comparator}
    (parts : JoinsAll live operands operands')
    (decided : live → operands'.length = operands.length ∨ ¬ Decisive operands ∧ ¬ Decisive operands') :
    Expr.Joins live (.comparison operands comparators) (.comparison operands' comparators)
  | binary {live : Bool} {left left' right right' : Expr} (first : Expr.Joins live left left')
    (second : Expr.Joins live right right') : Expr.Joins live (.binary left right) (.binary left' right')
  | lambda {live : Bool} {ps ps' : List Parameter} {body body' : Expr} (heads : ParametersJoin live ps ps')
    (inside : Expr.Joins false body body') : Expr.Joins live (.lambda ps body) (.lambda ps' body')
  | comprehension {live : Bool} {parts parts' : List Part} (inside : PartsJoin live parts parts') :
    Expr.Joins live (.comprehension parts) (.comprehension parts')
  | suspension {live : Bool} {place : Text.Position} {items items' : List Expr}
    (parts : JoinsAll live items items') :
    Expr.Joins live (.suspension place items) (.suspension place items')
  | assignment {live : Bool} {target target' : Expr} {hint hint' value value' : Option Expr}
    (first : Expr.Joins live target target') (second : JoinsOption live hint hint')
    (third : JoinsOption live value value') :
    Expr.Joins live (.assignment target hint value) (.assignment target' hint' value')
  | augmented {live : Bool} {target target' value value' : Expr} (first : Expr.Joins live target target')
    (second : Expr.Joins live value value') :
    Expr.Joins live (.augmented target value) (.augmented target' value')
/-- The second list is the first without some of its blanks. -/
inductive JoinsAll : Bool → List Expr → List Expr → Prop
  | nil {live : Bool} : JoinsAll live [] []
  | cons {live : Bool} {e e' : Expr} {es es' : List Expr} (first : Expr.Joins live e e')
    (rest : JoinsAll live es es') : JoinsAll live (e :: es) (e' :: es')
  | blank {live : Bool} {es es' : List Expr} (rest : JoinsAll live es es') :
    JoinsAll live (.blank :: es) es'
inductive JoinsOption : Bool → Option Expr → Option Expr → Prop
  | none {live : Bool} : JoinsOption live none none
  | some {live : Bool} {e e' : Expr} (part : Expr.Joins live e e') : JoinsOption live (some e) (some e')
inductive ParametersJoin : Bool → List Parameter → List Parameter → Prop
  | nil {live : Bool} : ParametersJoin live [] []
  | cons {live : Bool} {target target' hint hint' default default' : Option Expr} {ps ps' : List Parameter}
    (first : JoinsOption live target target') (second : JoinsOption live hint hint')
    (third : JoinsOption live default default') (rest : ParametersJoin live ps ps') :
    ParametersJoin live (.mk target hint default :: ps) (.mk target' hint' default' :: ps')
/-- The iterables of a comprehension are live with it, its elements are not. -/
inductive PartsJoin : Bool → List Part → List Part → Prop
  | nil {live : Bool} : PartsJoin live [] []
  | clause {live : Bool} {target target' : Expr} {iterables iterables' : List Expr} {ps ps' : List Part}
    (first : Expr.Joins live target target') (parts : JoinsAll live iterables iterables')
    (rest : PartsJoin live ps ps') :
    PartsJoin live (.clause target iterables :: ps) (.clause target' iterables' :: ps')
  | element {live : Bool} {e e' : Expr} {ps ps' : List Part} (first : Expr.Joins false e e')
    (rest : PartsJoin live ps ps') : PartsJoin live (.element e :: ps) (.element e' :: ps')
  | blank {live : Bool} {ps ps' : List Part} (rest : PartsJoin live ps ps') :
    PartsJoin live (.element .blank :: ps) ps'
end

theorem JoinsAll.length_le {live : Bool} {es es' : List Expr} (joins : JoinsAll live es es') :
    es'.length ≤ es.length := by
  induction es generalizing es' with
  | nil =>
    cases joins
    exact Nat.le_refl 0
  | cons e es ih =>
    cases joins with
    | cons first rest => exact Nat.succ_le_succ (ih rest)
    | blank rest => exact Nat.le_succ_of_le (ih rest)

theorem JoinsAll.exists_of_mem {live : Bool} {e' : Expr} {es es' : List Expr} (joins : JoinsAll live es es')
    (member : e' ∈ es') : ∃ e ∈ es, e.Joins live e' := by
  induction es generalizing es' with
  | nil =>
    cases joins
    cases member
  | cons e es ih =>
    cases joins with
    | cons first rest =>
      rcases List.mem_cons.1 member with rfl | later
      · exact ⟨e,.head es,first⟩
      · obtain ⟨f,among,joins⟩ := ih rest later
        exact ⟨f,.tail e among,joins⟩
    | blank rest =>
      obtain ⟨f,among,joins⟩ := ih rest member
      exact ⟨f,.tail _ among,joins⟩

/-- Without a blank less, item stands for item. -/
theorem JoinsAll.cons_inv {live : Bool} {e : Expr} {es es' : List Expr} (joins : JoinsAll live (e :: es) es')
    (length : es'.length = (e :: es).length) :
    ∃ f fs, es' = f :: fs ∧ e.Joins live f ∧ JoinsAll live es fs ∧ fs.length = es.length := by
  cases joins with
  | cons first rest => exact ⟨_,_,rfl,first,rest,Nat.succ.inj length⟩
  | blank rest =>
    have fewer := rest.length_le
    rw [length,List.length_cons] at fewer
    omega

/-- A function of the items that does not notice a blank does not notice the blanks that are left out. -/
theorem JoinsAll.congr {α : Type} {f : List Expr → α} {live : Bool} {es es' : List Expr}
    (joins : JoinsAll live es es')
    (cons : ∀ {e e' : Expr} {es es' : List Expr}, e.Joins live e' → f es' = f es →
      f (e' :: es') = f (e :: es))
    (blank : ∀ es : List Expr, f (.blank :: es) = f es) : f es' = f es := by
  induction es generalizing es' with
  | nil =>
    cases joins
    rfl
  | cons e es ih =>
    cases joins with
    | cons first rest => exact cons first (ih rest)
    | blank rest => rw [ih rest,blank]

mutual
/-- The names in an expression do not depend on its blanks. -/
theorem Expr.Joins.findings_eq : ∀ {live : Bool} {e e' : Expr}, e.Joins live e' → ∀ (hinted : Bool)
    (role : Role), e'.findings hinted role = e.findings hinted role
  | _,_,_,.same _ _,_,_ => rfl
  | _,_,_,.group parts,_,_ => by simp only [Expr.findings,parts.findings_eq]
  | _,_,_,.parens parts _,_,_ => by simp only [Expr.findings,parts.findings_eq]
  | _,_,_,.sequence parts _,_,_ => by simp only [Expr.findings,parts.findings_eq]
  | _,_,_,.splat parts,_,_ => by simp only [Expr.findings,parts.findings_eq]
  | _,_,_,.member part,_,_ => by simp only [Expr.findings,part.findings_eq]
  | _,_,_,.call first second,_,_ => by simp only [Expr.findings,first.findings_eq,second.findings_eq]
  | _,_,_,.subscript first parts,_,_ => by simp only [Expr.findings,first.findings_eq,parts.findings_eq]
  | _,_,_,.keyword part,_,_ => by simp only [Expr.findings,part.findings_eq]
  | _,_,_,.walrus part,_,_ => by simp only [Expr.findings,part.findings_eq]
  | _,_,_,.aliased first second,_,_ => by simp only [Expr.findings,first.findings_eq,second.findings_eq]
  | _,_,_,.conditional first second third,_,_ => by
    simp only [Expr.findings,first.findings_eq,second.findings_eq,third.findings_eq]
  | _,_,_,.regrouped parts,hinted,_ => by
    have same := parts.findings_eq hinted .read
    simpa only [Expr.findings,findingsAll,List.append_nil,List.append_assoc] using same
  | _,_,_,.ungrouped parts,hinted,_ => by
    have same := parts.findings_eq hinted .read
    simpa only [Expr.findings,findingsAll,List.append_nil,List.append_assoc] using same
  | _,_,_,.conjunction first second,_,_ => by
    simp only [Expr.findings,first.findings_eq,second.findings_eq]
  | _,_,_,.disjunction first second,_,_ => by
    simp only [Expr.findings,first.findings_eq,second.findings_eq]
  | _,_,_,.negation part,_,_ => by simp only [Expr.findings,part.findings_eq]
  | _,_,_,.comparison parts _,_,_ => by simp only [Expr.findings,parts.findings_eq]
  | _,_,_,.binary first second,_,_ => by simp only [Expr.findings,first.findings_eq,second.findings_eq]
  | _,_,_,.lambda heads inside,_,_ => by
    simp only [Expr.findings,heads.defaults_eq,heads.targets_eq,inside.findings_eq]
  | _,_,_,.comprehension inside,_,_ => by
    simp only [Expr.findings,inside.first_eq,inside.findings_eq]
  | _,_,_,.suspension parts,_,_ => by simp only [Expr.findings,parts.findings_eq]
  | _,_,_,.assignment first second third,_,_ => by
    simp only [Expr.findings,first.findings_eq,second.findings_eq,third.findings_eq]
  | _,_,_,.augmented first second,_,_ => by
    simp only [Expr.findings,first.findings_eq,second.findings_eq]
theorem JoinsAll.findings_eq : ∀ {live : Bool} {es es' : List Expr}, JoinsAll live es es' →
    ∀ (hinted : Bool) (role : Role), findingsAll hinted role es' = findingsAll hinted role es
  | _,_,_,.nil,_,_ => rfl
  | _,_,_,.cons first rest,_,_ => by simp only [findingsAll,first.findings_eq,rest.findings_eq]
  | _,_,_,.blank rest,_,_ => by simp only [findingsAll,Expr.findings,List.nil_append,rest.findings_eq]
theorem JoinsOption.findings_eq : ∀ {live : Bool} {e e' : Option Expr}, JoinsOption live e e' →
    ∀ hinted : Bool, findingsOf hinted e' = findingsOf hinted e
  | _,_,_,.none,_ => rfl
  | _,_,_,.some part,_ => by simp only [findingsOf,part.findings_eq]
theorem JoinsOption.bound_eq : ∀ {live : Bool} {e e' : Option Expr}, JoinsOption live e e' →
    boundFindings e' = boundFindings e
  | _,_,_,.none => rfl
  | _,_,_,.some part => by simp only [boundFindings,part.findings_eq]
theorem ParametersJoin.targets_eq : ∀ {live : Bool} {ps ps' : List Parameter}, ParametersJoin live ps ps' →
    targetFindings ps' = targetFindings ps
  | _,_,_,.nil => rfl
  | _,_,_,.cons first _ _ rest => by
    simp only [targetFindings,Parameter.targetFindings,first.bound_eq,rest.targets_eq]
theorem ParametersJoin.defaults_eq : ∀ {live : Bool} {ps ps' : List Parameter}, ParametersJoin live ps ps' →
    ∀ hinted : Bool, defaultFindings hinted ps' = defaultFindings hinted ps
  | _,_,_,.nil,_ => rfl
  | _,_,_,.cons _ _ third rest,_ => by
    simp only [defaultFindings,Parameter.defaultFindings,third.findings_eq,rest.defaults_eq]
theorem PartsJoin.first_eq : ∀ {live : Bool} {ps ps' : List Part}, PartsJoin live ps ps' →
    ∀ hinted : Bool, firstFindings hinted ps' = firstFindings hinted ps
  | _,_,_,.nil,_ => rfl
  | _,_,_,.clause _ parts _,_ => by simp only [firstFindings,parts.findings_eq]
  | _,_,_,.element _ rest,_ => by simp only [firstFindings,rest.first_eq]
  | _,_,_,.blank rest,_ => by simp only [firstFindings,rest.first_eq]
theorem PartsJoin.findings_eq : ∀ {live : Bool} {ps ps' : List Part}, PartsJoin live ps ps' →
    ∀ seen : Bool, partFindings seen ps' = partFindings seen ps
  | _,_,_,.nil,_ => rfl
  | _,_,_,.clause first parts rest,_ => by
    simp only [partFindings,first.findings_eq,parts.findings_eq,rest.findings_eq]
  | _,_,_,.element first rest,_ => by simp only [partFindings,first.findings_eq,rest.findings_eq]
  | _,_,_,.blank rest,_ => by
    simp only [partFindings,Expr.findings,List.nil_append,rest.findings_eq]
end

end Excerpt.Program

namespace Excerpt.Execution
open Excerpt.Program Exec

theorem isSplat_of_joins {live : Bool} {e e' : Expr} (joins : e.Joins live e') : isSplat e' = isSplat e := by
  cases joins <;> rfl

theorem isNone_of_joins {live : Bool} {e e' : Expr} (joins : e.Joins live e') : isNone e' = isNone e := by
  cases joins <;> rfl

theorem displayTruth_of_joins {live : Bool} {es es' : List Expr} (joins : JoinsAll live es es')
    (filled : es'.isEmpty = es.isEmpty) : displayTruth es' = displayTruth es := by
  have splats : es'.any isSplat = es.any isSplat := joins.congr (f := fun es => es.any isSplat)
    (fun first rest => by rw [List.any_cons,List.any_cons,isSplat_of_joins first,rest]) fun _ => rfl
  rw [displayTruth,displayTruth,splats,filled]

theorem comparisonTruth_eq_none {operands : List Expr} (other : ¬ Decisive operands) (values : List Value)
    (comparators : List Comparator) : comparisonTruth operands values comparators = none := by
  unfold comparisonTruth
  split
  · next left right _ _ comparator =>
    have plain : ¬ isNone right ∧ ¬ isNone left :=
      ⟨fun nothing => other ⟨left,right,rfl,.inr nothing⟩,fun nothing => other ⟨left,right,rfl,.inl nothing⟩⟩
    cases comparator <;> simp [plain]
  · rfl

/-- Operands that are as many as before decide as much. -/
theorem comparisonTruth_of_joins {live : Bool} {es es' : List Expr} (joins : JoinsAll live es es')
    (length : es'.length = es.length) (values : List Value) (comparators : List Comparator) :
    comparisonTruth es' values comparators = comparisonTruth es values comparators := by
  rcases es with _ | ⟨left,_ | ⟨right,_ | ⟨third,rest⟩⟩⟩
  · rw [List.eq_nil_of_length_eq_zero length]
  · obtain ⟨_,_,rfl,_,_,length⟩ := joins.cons_inv length
    rw [List.eq_nil_of_length_eq_zero length]
    rfl
  · obtain ⟨_,_,rfl,first,joins,length⟩ := joins.cons_inv length
    obtain ⟨_,_,rfl,second,_,length⟩ := joins.cons_inv length
    rw [List.eq_nil_of_length_eq_zero length]
    rcases values with _ | ⟨_,_ | ⟨_,_ | _⟩⟩
    · rfl
    · rfl
    · rcases comparators with _ | ⟨_,_ | _⟩
      · rfl
      · simp only [comparisonTruth,isNone_of_joins first,isNone_of_joins second]
      · rfl
    · rfl
  · obtain ⟨_,_,rfl,_,joins,length⟩ := joins.cons_inv length
    obtain ⟨_,_,rfl,_,joins,length⟩ := joins.cons_inv length
    obtain ⟨_,_,rfl,_⟩ := joins.cons_inv length
    rfl

mutual
/-- Evaluation of a live expression does not notice blanks that are left out. -/
theorem evaluate_joins : ∀ {e e' : Expr}, e.Joins true e' → evaluate e' = evaluate e
  | _,_,.same _ e => rfl
  | _,_,.group parts => by simp only [evaluate,evaluateEach_then parts]
  | _,_,.parens parts length => by simp only [evaluate,evaluateEach_joins parts (length rfl)]
  | _,_,@Expr.Joins.sequence _ form _ _ parts filled => by
    cases display : form.isDisplay with
    | false => simp only [evaluate,evaluateEach_then parts,display,Bool.false_eq_true,if_false]
    | true => simp only [evaluate,evaluateEach_then parts,displayTruth_of_joins parts (filled rfl display)]
  | _,_,.splat parts => by simp only [evaluate,evaluateEach_then parts]
  | _,_,.member part => by simp only [evaluate,evaluate_joins part]
  | _,_,.call first second => by simp only [evaluate,evaluate_joins first,evaluate_joins second]
  | _,_,.subscript first parts => by
    simp only [evaluate,evaluate_joins first,evaluateEach_then parts]
  | _,_,.keyword part => by simp only [evaluate,evaluate_joins part]
  | _,_,.walrus part => by simp only [evaluate,evaluate_joins part]
  | _,_,.aliased first second => by simp only [evaluate,evaluate_joins first,evaluate_joins second]
  | _,_,.conditional first second third => by
    simp only [evaluate,evaluate_joins first,evaluate_joins second,evaluate_joins third]
  | _,_,.conjunction first second => by simp only [evaluate,evaluate_joins first,evaluate_joins second]
  | _,_,.disjunction first second => by simp only [evaluate,evaluate_joins first,evaluate_joins second]
  | _,_,.negation part => by simp only [evaluate,evaluate_joins part]
  | _,_,.comparison parts decided => by
    simp only [evaluate]
    rcases decided rfl with length | ⟨other,other'⟩
    · simp only [evaluateEach_joins parts length,comparisonTruth_of_joins parts length]
    · simp only [comparisonTruth_eq_none other,comparisonTruth_eq_none other',evaluateEach_then parts]
  | _,_,.binary first second => by simp only [evaluate,evaluate_joins first,evaluate_joins second]
  | _,_,.lambda heads inside => by
    simp only [evaluate,evaluateDefaults_joins heads,lambdaScope,heads.targets_eq,inside.findings_eq]
  | _,_,.comprehension inside => by
    simp only [evaluate,evaluateIterables_joins inside,comprehensionScope,inside.findings_eq]
  | _,_,.suspension _ => rfl
  | _,_,.assignment first second third => by
    simp only [evaluate,evaluate_joins first,evaluateOption_joins second,evaluateOption_joins third]
  | _,_,.augmented first second => by simp only [evaluate,evaluate_joins first,evaluate_joins second]
/-- Items whose values are not used may lack blanks. -/
theorem evaluateEach_then : ∀ {es es' : List Expr}, JoinsAll true es es' → ∀ {β : Type} (next : Exec β),
    (evaluateEach es' >>= fun _ => next) = evaluateEach es >>= fun _ => next
  | _,_,.nil,_,_ => rfl
  | _,_,.cons first rest,_,next => by
    simp only [evaluateEach,bind_assoc,pure_bind,evaluate_joins first,evaluateEach_then rest]
  | _,_,.blank rest,_,next => by
    simp only [evaluateEach,evaluate,bind_assoc,pure_bind,evaluateEach_then rest]
theorem evaluateEach_joins : ∀ {es es' : List Expr}, JoinsAll true es es' → es'.length = es.length →
    evaluateEach es' = evaluateEach es
  | _,_,.nil,_ => rfl
  | _,_,.cons first rest,length => by
    simp only [evaluateEach,evaluate_joins first,evaluateEach_joins rest (Nat.succ.inj length)]
  | _,_,.blank rest,length => by
    have fewer := rest.length_le
    rw [length,List.length_cons] at fewer
    omega
theorem evaluateOption_joins : ∀ {e e' : Option Expr}, JoinsOption true e e' →
    evaluateOption e' = evaluateOption e
  | _,_,.none => rfl
  | _,_,.some part => by simp only [evaluateOption,evaluate_joins part]
theorem evaluateDefaults_joins : ∀ {ps ps' : List Parameter}, ParametersJoin true ps ps' →
    evaluateDefaults ps' = evaluateDefaults ps
  | _,_,.nil => rfl
  | _,_,.cons _ _ third rest => by
    simp only [evaluateDefaults,evaluateOption_joins third,evaluateDefaults_joins rest]
theorem evaluateIterables_joins : ∀ {ps ps' : List Part}, PartsJoin true ps ps' →
    evaluateIterables ps' = evaluateIterables ps
  | _,_,.nil => rfl
  | _,_,.clause _ parts _ => by simp only [evaluateIterables,evaluateIterable_joins parts]
  | _,_,.element _ rest => by simp only [evaluateIterables,evaluateIterables_joins rest]
  | _,_,.blank rest => by simp only [evaluateIterables,evaluateIterables_joins rest]
theorem evaluateIterable_joins : ∀ {es es' : List Expr}, JoinsAll true es es' →
    evaluateIterable es' = evaluateIterable es
  | _,_,.nil => rfl
  | _,_,.cons first rest => by
    simp only [evaluateIterable,evaluate_joins first,evaluateIterable_joins rest]
  | _,_,.blank rest => by
    rw [evaluateIterable_joins rest]
    rfl
end

mutual
/-- Assignment does not notice blanks that are left out. -/
theorem assign_joins {e e' : Expr} (joins : e.Joins true e') (value : Value) :
    assign value e' = assign value e := by
  have same := evaluate_joins joins
  cases joins with
  | same => rfl
  | parens parts length => simp only [assign,assignEach_joins parts]
  | sequence parts filled => simp only [assign,assignEach_joins parts,same]
  | splat parts => simp only [assign,assignEach_joins parts,same]
  | member part => simp only [assign,evaluate_joins part]
  | subscript first parts => simp only [assign,evaluate_joins first,evaluateEach_then parts]
  -- what is no target is evaluated
  | _ => simp only [assign,same]
theorem assignEach_joins {es es' : List Expr} (joins : JoinsAll true es es') :
    assignEach es' = assignEach es := by
  cases joins with
  | nil => rfl
  | cons first rest => simp only [assignEach,assign_joins first,assignEach_joins rest]
  | blank rest =>
    rw [assignEach_joins rest]
    rfl
end

mutual
theorem remove_joins {e e' : Expr} (joins : e.Joins true e') : remove e' = remove e := by
  have same := evaluate_joins joins
  cases joins with
  | same => rfl
  | parens parts length => simp only [remove,removeEach_joins parts]
  | sequence parts filled => simp only [remove,removeEach_joins parts,same]
  | splat parts => simp only [remove,removeEach_joins parts,same]
  | _ => simp only [remove,same]
theorem removeEach_joins {es es' : List Expr} (joins : JoinsAll true es es') :
    removeEach es' = removeEach es := by
  cases joins with
  | nil => rfl
  | cons first rest => simp only [removeEach,remove_joins first,removeEach_joins rest]
  | blank rest =>
    rw [removeEach_joins rest]
    rfl
end

mutual
theorem perform_joins {e e' : Expr} (joins : e.Joins true e') (lazy : Bool) :
    perform lazy e' = perform lazy e := by
  have same := evaluate_joins joins
  cases joins with
  | same => rfl
  | assignment first second third =>
    simp only [perform,performOption_joins third,evaluateOption_joins second,assign_joins first]
  | augmented first second =>
    simp only [perform,evaluate_joins first,evaluate_joins second,assign_joins first]
  | _ => simp only [perform,same]
theorem performOption_joins {e e' : Option Expr} (joins : JoinsOption true e e') (lazy : Bool) :
    performOption lazy e' = performOption lazy e := by
  cases joins with
  | none => rfl
  | some part => simp only [performOption,perform_joins part]
end

theorem performEach_joins {es es' : List Expr} (joins : JoinsAll true es es') (lazy : Bool) :
    performEach lazy es' = performEach lazy es :=
  joins.congr (fun first rest => by simp only [performEach,perform_joins first,rest]) fun _ => rfl

theorem bindTargets_joins {es es' : List Expr} (joins : JoinsAll true es es') :
    bindTargets es' = bindTargets es := by
  refine joins.congr (fun {e _ _ _} first rest => ?_) fun _ => rfl
  cases first with
  | same => cases e <;> simp only [bindTargets,rest]
  | assignment first second third => simp only [bindTargets,assign_joins first,rest]
  | _ => simp only [bindTargets,rest]

mutual
/-- A handler names the same exceptions, whether or not its expression is live. -/
theorem exceptionNames_joins : ∀ {live : Bool} {e e' : Expr}, e.Joins live e' →
    exceptionNames e' = exceptionNames e
  | _,_,_,.same _ _ => rfl
  | _,_,_,.parens parts _ => by simp only [exceptionNames,exceptionNamesAll_joins parts]
  | _,_,_,.sequence parts _ => by simp only [exceptionNames,exceptionNamesAll_joins parts]
  | _,_,_,.group _ | _,_,_,.splat _ | _,_,_,.member _ | _,_,_,.call _ _ | _,_,_,.subscript _ _
  | _,_,_,.keyword _ | _,_,_,.walrus _ | _,_,_,.aliased _ _ | _,_,_,.conditional _ _ _
  | _,_,_,.regrouped _ | _,_,_,.ungrouped _ | _,_,_,.conjunction _ _ | _,_,_,.disjunction _ _
  | _,_,_,.negation _ | _,_,_,.comparison _ _ | _,_,_,.binary _ _ | _,_,_,.lambda _ _
  | _,_,_,.comprehension _ | _,_,_,.suspension _ | _,_,_,.assignment _ _ _ | _,_,_,.augmented _ _ => rfl
theorem exceptionNamesAll_joins : ∀ {live : Bool} {es es' : List Expr}, JoinsAll live es es' →
    exceptionNames.exceptionNamesAll es' = exceptionNames.exceptionNamesAll es
  | _,_,_,.nil => rfl
  | _,_,_,.cons first rest => by
    simp only [exceptionNames.exceptionNamesAll,exceptionNames_joins first,exceptionNamesAll_joins rest]
  | _,_,_,.blank rest => by
    rw [exceptionNamesAll_joins rest]
    rfl
end

/-- What a handler catches is decided by its first item. -/
theorem catches_joins {live : Bool} {es es' : List Expr} (joins : JoinsOption live es.head? es'.head?) :
    catches es' = catches es := by
  funext r
  rcases es with _ | ⟨e,es⟩ <;> rcases es' with _ | ⟨e',es'⟩
  · rfl
  · cases joins
  · cases joins
  · cases joins with
    | some part =>
      have names := exceptionNames_joins part
      cases part with
      | same => cases e <;> rfl
      | aliased first _ => simp only [catches,exceptionNames_joins first]
      | _ => simp only [catches,names]

theorem bindAliases_of_other {e : Expr} (other : ∀ value target, e ≠ .aliased value target) (es : List Expr) :
    bindAliases (e :: es) = bindAliases es := by
  cases e with
  | aliased value target => exact absurd rfl (other value target)
  | _ => rfl

theorem evaluateBases_joins {es es' : List Expr} (joins : JoinsAll true es es') :
    evaluateBases es' = evaluateBases es := by
  refine joins.congr (fun first rest => ?_) fun _ => rfl
  have same := evaluate_joins first
  cases first <;> simp only [evaluateBases,same,rest]

theorem enterEach_joins {es es' : List Expr} (joins : JoinsAll true es es') :
    enterEach es' = enterEach es := by
  refine joins.congr (fun {e _ _ _} first rest => ?_) fun _ => rfl
  have same := evaluate_joins first
  cases first with
  | same => cases e <;> simp only [enterEach,rest]
  | aliased first second => simp only [enterEach,evaluate_joins first,assign_joins second,rest]
  | _ => simp only [enterEach,same,rest]

end Excerpt.Execution
