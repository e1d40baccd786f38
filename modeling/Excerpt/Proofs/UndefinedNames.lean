import Excerpt.Proofs.NamePlaces
import Excerpt.Proofs.PermittedRun
import Excerpt.Proofs.ScopeResolution

/-!
Undefined names and where they stand. A run complains about a name only if the source has it on that
line, and about a builtin only where the source deletes it. The lemmas follow the interpreter: how
each step fails and what it leaves for later is accounted for by the names of the syntax it runs.
-/
namespace Excerpt.Execution
open Excerpt.Names Excerpt.Program Exec

/-- Whether an error is accounted for by the names of a program: an undefined name is deleted
there, or it is no builtin and stands there. -/
def Raised.Accounted (p q : NameRef → Prop) : Raised → Prop
  | .nameError name line => q ⟨name,line⟩ ∨ p ⟨name,line⟩ ∧ isBuiltin name = false
  | .importError _ _ | .syntaxError _ _ | .other _ _ _ => True

/-- Every error of a step is accounted for, and so is every name of the scopes that it leaves for the
check at the end. -/
structure Traced (p q : NameRef → Prop) {α : Type} (step : Exec α) : Prop where
  raised : ∀ s r, (step s).1 = .error r → r.Accounted p q
  deferred : ∀ s, ∀ scope ∈ (step s).2.deferred, scope ∈ s.deferred ∨ scope.Each p

namespace Traced

variable {p q : NameRef → Prop} {α β : Type}

theorem pure (a : α) : Traced p q (Pure.pure a : Exec α) where
  raised := fun _ _ failed => nomatch failed
  deferred := fun _ _ => .inl

theorem raise {r : Raised} (accounted : r.Accounted p q) : Traced p q (Exec.raise r : Exec α) where
  raised := by
    intro s r failed
    cases failed
    exact accounted
  deferred := fun _ _ => .inl

theorem bind {step : Exec α} {next : α → Exec β} (first : Traced p q step)
    (rest : ∀ a, Traced p q (next a)) : Traced p q (step >>= next) where
  raised := by
    intro s r failed
    rw [bind_apply] at failed
    rcases ran : step s with ⟨_ | a,t⟩
    · rw [ran] at failed
      cases failed
      exact first.raised s r (by rw [ran])
    · rw [ran] at failed
      exact (rest a).raised t r failed
  deferred := by
    intro s scope kept
    have before := first.deferred s
    rw [bind_apply] at kept
    rcases ran : step s with ⟨_ | a,t⟩
    · rw [ran] at kept before
      exact before scope kept
    · rw [ran] at kept before
      exact ((rest a).deferred t scope kept).elim (before scope) .inr

/-- An error that is caught is accounted for as well. -/
theorem recover {step : Exec α} {next : Except Raised α → Exec β} (first : Traced p q step)
    (succeeded : ∀ a, Traced p q (next (.ok a)))
    (failed : ∀ r, r.Accounted p q → Traced p q (next (.error r))) :
    Traced p q (Exec.attempt step >>= next) := by
  have after (s : State) : Traced p q (next (step s).1) := by
    rcases ended : (step s).1 with r | a
    · exact failed r (first.raised s r ended)
    · exact succeeded a
  refine ⟨fun s r fault => (after s).raised _ r fault,fun s scope kept => ?_⟩
  exact ((after s).deferred _ scope kept).elim (first.deferred s scope) .inr

theorem perhaps {step : Exec α} (traced : Traced p q step) : Traced p q (Exec.perhaps step) := by
  apply recover traced
  · exact fun a => pure (some a)
  · intro r accounted
    dsimp only
    split
    · exact raise accounted
    · exact pure none

theorem inClass {step : Exec α} (traced : Traced p q step) : Traced p q (Exec.inClass step) where
  raised := fun _ r failed => traced.raised _ r failed
  deferred := fun s scope kept => traced.deferred {s with locals := some _} scope kept

/-- A step that cannot fail and leaves nothing for later. -/
theorem modify {change : State → State} (same : ∀ s, (change s).deferred = s.deferred) :
    Traced p q (modify change : Exec Unit) where
  raised := fun _ _ failed => nomatch failed
  deferred := fun s _ kept => .inl (same s ▸ kept)

theorem store (name : String) (value : Value) : Traced p q (Exec.store name value) :=
  modify fun s => by unfold State.bind; split <;> rfl

theorem storeAll (names : List String) : Traced p q (Exec.storeAll names) := by
  induction names with
  | nil => exact pure ()
  | cons n ns ih => exact bind (store n .unknown) fun _ => ih

/-- Only a name that is no builtin is looked up in vain. -/
theorem lookup {name : String} {line : Nat} (stands : p ⟨name,line⟩) :
    Traced p q (Exec.lookup name line) where
  raised := by
    intro s r failed
    rw [lookup_apply] at failed
    cases found : s.find? name with
    | some value =>
      rw [found] at failed
      cases failed
    | none =>
      rw [found] at failed
      cases failed
      refine .inr ⟨stands,?_⟩
      have fallback := (Option.or_eq_none_iff.1 found).2
      simpa using fallback
  deferred := by
    intro s scope kept
    rw [lookup_apply] at kept
    exact .inl kept

theorem unbind {name : String} {line : Nat} (deleted : q ⟨name,line⟩) :
    Traced p q (Exec.unbind name line) where
  raised := by
    intro s r failed
    rw [unbind_apply] at failed
    split at failed
    · cases failed
    · cases failed
      exact .inl deleted
  deferred := by
    intro s scope kept
    rw [unbind_apply] at kept
    split at kept
    · unfold State.erase at kept
      split at kept <;> exact .inl kept
    · exact .inl kept

theorem defer {scope : Scope} (each : scope.Each p) : Traced p q (Exec.defer scope) where
  raised := fun _ _ failed => nomatch failed
  deferred := by
    intro s other kept
    rcases List.mem_cons.1 kept with rfl | before
    · exact .inr each
    · exact .inl before

theorem lift {result : Except Raised α} (accounted : ∀ r, result = .error r → r.Accounted p q) :
    Traced p q (liftM result : Exec α) := by
  cases result with
  | ok a => exact pure a
  | error r => exact raise (accounted r rfl)

/-- What is known of modules decides what comes next. -/
theorem consult {next : Modules → Exec α} (rest : ∀ m, Traced p q (next m)) :
    Traced p q (get >>= fun s => next s.modules) :=
  ⟨fun s r failed => (rest s.modules).raised s r failed,
    fun s scope kept => (rest s.modules).deferred s scope kept⟩

theorem importModule (path : String) (level : Nat) (names : List String) :
    Traced p q (Execution.importModule path level names) := by
  refine @consult _ _ _ (fun m => do
    let modules ← liftM (m.importPath path level names)
    MonadState.modifyGet fun s => ((),{s with modules := modules})) fun m => ?_
  refine bind (lift fun r refused => ?_) fun _ => modify fun _ => rfl
  unfold Modules.importPath at refused
  split at refused <;> cases refused
  trivial

theorem requireUnknown (value : Value) (message : String → String) :
    Traced p q (Exec.requireUnknown value message) := by
  cases value with
  | unknown => exact pure ()
  | module path => exact raise trivial
  | nothing => exact raise trivial

theorem requireBase (value : Value) : Traced p q (Exec.requireBase value) := by
  cases value with
  | unknown => exact pure ()
  | module path => exact raise trivial
  | nothing => exact raise trivial

theorem combine (left right : Value) : Traced p q (Exec.combine left right) := by
  unfold Exec.combine
  split
  · exact pure _
  · exact raise trivial

theorem attributeOf (object : Value) (attr : String) : Traced p q (Exec.attributeOf object attr) := by
  cases object with
  | unknown => exact pure _
  | nothing => exact raise trivial
  | module path =>
    refine @consult _ _ _ (fun m => liftM (m.attribute? path attr)) fun m => lift ?_
    intro r refused
    unfold Modules.attribute? at refused
    split at refused <;> try cases refused
    split at refused <;> try cases refused
    split at refused <;> cases refused
    trivial

theorem setAttributeOf (object : Value) (attr : String) :
    Traced p q (Exec.setAttributeOf object attr) := by
  cases object with
  | unknown => exact pure ()
  | nothing => exact raise trivial
  | module path => exact modify fun _ => rfl

end Traced

section Interpreter

variable {p q : NameRef → Prop}

mutual
theorem evaluate_traced : ∀ {e : Expr}, e.Each p → Traced p q (evaluate e)
  | .name id line,each => by
    rw [evaluate]
    exact .bind (.lookup each) fun _ => .pure _
  | .none,_ | .truth _,_ | .integer _,_ | .blank,_ => .pure _
  | .group _,each | .sequence _ _,each | .splat _ _,each | .comparison _ _,each => by
    rw [evaluate]
    exact .bind (evaluateEach_traced each) fun _ => .pure _
  | .parens _,each => by
    rw [evaluate]
    refine .bind (evaluateEach_traced each) fun all => ?_
    split <;> exact .pure _
  | .member _ _,each => by
    rw [evaluate]
    exact .bind (evaluate_traced each) fun _ => .bind (.attributeOf _ _) fun _ => .pure _
  | .call _ _,each => by
    rw [evaluate]
    exact .bind (evaluate_traced each.1) fun _ => .bind (evaluate_traced each.2) fun _ =>
      .bind (.requireUnknown _ _) fun _ => .pure _
  | .subscript _ _,each => by
    rw [evaluate]
    exact .bind (evaluate_traced each.1) fun _ => .bind (evaluateEach_traced each.2) fun _ =>
      .bind (.requireUnknown _ _) fun _ => .pure _
  | .keyword _ _,each | .negation _,each => by
    rw [evaluate]
    exact .bind (evaluate_traced each) fun _ => .pure _
  | .walrus _ _,each => by
    rw [evaluate]
    exact .bind (evaluate_traced each) fun _ => .bind (.store _ _) fun _ => .pure _
  | .aliased _ _,each | .augmented _ _,each => by
    rw [evaluate]
    exact .bind (evaluate_traced each.1) fun _ => .bind (evaluate_traced each.2) fun _ => .pure _
  | .conditional _ _ _,each => by
    rw [evaluate]
    obtain ⟨body,condition,alternative⟩ := each
    have ranBody := evaluate_traced body
    have ranAlternative := evaluate_traced alternative
    refine .bind (evaluate_traced condition) fun decided => ?_
    split
    · exact .bind ranBody fun _ => .pure _
    · exact .bind ranAlternative fun _ => .pure _
    · exact .bind ranBody.perhaps fun _ => .bind ranAlternative.perhaps fun _ => .pure _
  | .conjunction _ _,each | .disjunction _ _,each => by
    rw [evaluate]
    have ranRight := evaluate_traced each.2
    refine .bind (evaluate_traced each.1) fun decided => ?_
    split
    · exact .pure _
    · exact ranRight
    · exact .bind ranRight.perhaps fun _ => .pure _
  | .binary _ _,each => by
    rw [evaluate]
    exact .bind (evaluate_traced each.1) fun _ => .bind (evaluate_traced each.2) fun _ =>
      .bind (.combine _ _) fun _ => .pure _
  | .lambda _ _,each => by
    rw [evaluate]
    have scope := each_lambdaScope each.1 each.2
    exact .bind (evaluateDefaults_traced each.1) fun _ => .bind (.defer scope) fun _ => .pure _
  | .comprehension _,each => by
    rw [evaluate]
    have scope := each_comprehensionScope each
    exact .bind (evaluateIterables_traced each) fun _ => .bind (.storeAll _) fun _ =>
      .bind (.defer scope) fun _ => .pure _
  | .suspension _ _,_ => by
    rw [evaluate]
    exact .raise trivial
  | .assignment _ _ _,each => by
    rw [evaluate]
    obtain ⟨target,hint,value⟩ := each
    exact .bind (evaluate_traced target) fun _ => .bind (evaluateOption_traced hint) fun _ =>
      .bind (evaluateOption_traced value) fun _ => .pure _
theorem evaluateEach_traced : ∀ {es : List Expr}, eachAll p es → Traced p q (evaluateEach es)
  | [],_ => .pure _
  | _ :: _,each => by
    rw [evaluateEach]
    exact .bind (evaluate_traced each.1) fun _ => .bind (evaluateEach_traced each.2) fun _ => .pure _
theorem evaluateOption_traced :
    ∀ {e? : Option Expr}, eachOption p e? → Traced p q (evaluateOption e?)
  | none,_ => .pure _
  | some _,each => by
    rw [evaluateOption]
    exact .bind (evaluate_traced each) fun _ => .pure _
theorem evaluateDefaults_traced :
    ∀ {ps : List Parameter}, eachParameter p ps → Traced p q (evaluateDefaults ps)
  | [],_ => .pure _
  | .mk _ _ _ :: _,each => by
    rw [evaluateDefaults]
    obtain ⟨_,_,default,rest⟩ := each
    exact .bind (evaluateOption_traced default) fun _ => evaluateDefaults_traced rest
theorem evaluateIterables_traced :
    ∀ {ps : List Part}, eachPart p ps → Traced p q (evaluateIterables ps)
  | [],_ => .pure _
  | .clause _ _ :: _,each => by
    rw [evaluateIterables]
    exact evaluateIterable_traced each.2.1
  | .element _ :: _,each => by
    rw [evaluateIterables]
    exact evaluateIterables_traced each.2
theorem evaluateIterable_traced :
    ∀ {es : List Expr}, eachAll p es → Traced p q (evaluateIterable es)
  | [],_ => .pure _
  | _ :: _,each => by
    rw [evaluateIterable]
    exact .bind (evaluate_traced each.1) fun _ => .bind (.requireUnknown _ _) fun _ =>
      evaluateIterable_traced each.2
end

mutual
theorem assign_traced {value : Value} : ∀ {e : Expr}, e.Each p → Traced p q (assign value e)
  | .name _ _,_ => by
    rw [assign]
    exact .store _ _
  | .member _ _,each => by
    rw [assign]
    exact .bind (evaluate_traced each) fun _ => .setAttributeOf _ _
  | .subscript _ _,each => by
    rw [assign]
    exact .bind (evaluate_traced each.1) fun _ => .bind (evaluateEach_traced each.2) fun _ =>
      .requireUnknown _ _
  | .parens _,each => by
    rw [assign]
    exact assignEach_traced each
  | .sequence form items,each => by
    rw [assign]
    split
    · exact assignEach_traced each
    · exact .bind (evaluate_traced (e := .sequence form items) each) fun _ => .pure _
  | .splat double items,each => by
    rw [assign]
    split
    · exact .bind (evaluate_traced (e := .splat double items) each) fun _ => .pure _
    · exact assignEach_traced each
  | .none,each | .truth _,each | .integer _,each | .blank,each | .group _,each | .call _ _,each
  | .keyword _ _,each | .walrus _ _,each | .aliased _ _,each | .conditional _ _ _,each
  | .conjunction _ _,each | .disjunction _ _,each | .negation _,each | .comparison _ _,each
  | .binary _ _,each | .lambda _ _,each | .comprehension _,each | .suspension _ _,each
  | .assignment _ _ _,each | .augmented _ _,each => by
    rw [assign]
    · exact .bind (evaluate_traced each) fun _ => .pure _
    all_goals simp
theorem assignEach_traced : ∀ {es : List Expr}, eachAll p es → Traced p q (assignEach es)
  | [],_ => .pure _
  | _ :: _,each => by
    rw [assignEach]
    exact .bind (assign_traced each.1) fun _ => assignEach_traced each.2
end

mutual
theorem remove_traced : ∀ {e : Expr}, e.Each p → e.EachRemoved q → Traced p q (remove e)
  | .name _ _,_,removed => by
    rw [remove]
    exact .unbind removed
  | .parens _,each,removed => by
    rw [remove]
    exact removeEach_traced each removed
  | .sequence form items,each,removed => by
    rw [remove]
    split
    · next isTarget => exact removeEach_traced each (removed isTarget)
    · exact .bind (evaluate_traced (e := .sequence form items) each) fun _ => .pure _
  | .splat double items,each,removed => by
    rw [remove]
    split
    · exact .bind (evaluate_traced (e := .splat double items) each) fun _ => .pure _
    · next isSingle => exact removeEach_traced each (removed (by simpa using isSingle))
  | .none,each,_ | .truth _,each,_ | .integer _,each,_ | .blank,each,_ | .group _,each,_
  | .member _ _,each,_ | .call _ _,each,_ | .subscript _ _,each,_ | .keyword _ _,each,_
  | .walrus _ _,each,_ | .aliased _ _,each,_ | .conditional _ _ _,each,_
  | .conjunction _ _,each,_ | .disjunction _ _,each,_ | .negation _,each,_
  | .comparison _ _,each,_ | .binary _ _,each,_ | .lambda _ _,each,_ | .comprehension _,each,_
  | .suspension _ _,each,_ | .assignment _ _ _,each,_ | .augmented _ _,each,_ => by
    rw [remove]
    · exact .bind (evaluate_traced each) fun _ => .pure _
    all_goals simp
theorem removeEach_traced :
    ∀ {es : List Expr}, eachAll p es → eachRemoved q es → Traced p q (removeEach es)
  | [],_,_ => .pure _
  | _ :: _,each,removed => by
    rw [removeEach]
    exact .bind (remove_traced each.1 removed.1) fun _ => removeEach_traced each.2 removed.2
end

mutual
theorem perform_traced {lazy : Bool} : ∀ {e : Expr}, e.Each p → Traced p q (perform lazy e)
  | .assignment _ _ _,each => by
    rw [perform]
    obtain ⟨target,hint,value⟩ := each
    have hinted := evaluateOption_traced (q := q) hint
    refine .bind (performOption_traced value) fun assigned => ?_
    cases assigned with
    | none =>
      dsimp only
      split
      · exact .bind hinted fun _ => .pure _
      · exact .pure _
    | some v =>
      dsimp only
      split
      · exact .bind hinted fun _ => .bind (assign_traced target) fun _ => .pure _
      · exact .bind (assign_traced target) fun _ => .pure _
  | .augmented _ _,each => by
    rw [perform]
    exact .bind (evaluate_traced each.1) fun _ => .bind (evaluate_traced each.2) fun _ =>
      .bind (.combine _ _) fun _ => .bind (assign_traced each.1) fun _ => .pure _
  | .name _ _,each | .none,each | .truth _,each | .integer _,each | .blank,each | .group _,each
  | .parens _,each | .sequence _ _,each | .splat _ _,each | .member _ _,each | .call _ _,each
  | .subscript _ _,each | .keyword _ _,each | .walrus _ _,each | .aliased _ _,each
  | .conditional _ _ _,each | .conjunction _ _,each | .disjunction _ _,each | .negation _,each
  | .comparison _ _,each | .binary _ _,each | .lambda _ _,each | .comprehension _,each
  | .suspension _ _,each => by
    rw [perform]
    · exact .bind (evaluate_traced each) fun _ => .pure _
    all_goals simp
theorem performOption_traced {lazy : Bool} :
    ∀ {e? : Option Expr}, eachOption p e? → Traced p q (performOption lazy e?)
  | none,_ => .pure _
  | some _,each => by
    rw [performOption]
    exact .bind (perform_traced each) fun _ => .pure _
end

theorem performEach_traced {lazy : Bool} {es : List Expr} (each : eachAll p es) :
    Traced p q (performEach lazy es) := by
  induction es with
  | nil => exact .pure _
  | cons e es ih => exact .bind (perform_traced each.1) fun _ => ih each.2

theorem importPlain_traced (names : List ImportedName) : Traced p q (importPlain names) := by
  induction names with
  | nil => exact .pure _
  | cons n ns ih =>
    rw [importPlain_cons]
    exact .bind (.importModule _ _ _) fun _ => .bind (.store _ _) fun _ => ih

theorem bindImported_traced (path : String) (names : List ImportedName) :
    Traced p q (bindImported path names) := by
  induction names with
  | nil => exact .pure _
  | cons n ns ih =>
    rw [bindImported]
    apply @Traced.consult _ _ _ fun m => do
      bindAttribute path n (m.attribute? path n.name)
      bindImported path ns
    intro m
    refine .bind ?_ fun _ => ih
    cases m.attribute? path n.name with
    | ok value => exact .store _ _
    | error _ => exact .raise trivial

theorem runImport_traced (s : ImportStatement) : Traced p q (runImport s) := by
  by_cases plain : s.kind = .plain
  · simp only [runImport,plain]
    exact importPlain_traced s.names
  · rw [runImport_from plain]
    exact .bind (.importModule _ _ _) fun _ => bindImported_traced s.path s.names

theorem decoratorValues_traced {ds : List Decoration} (each : ∀ d ∈ ds, eachAll p d.items) :
    Traced p q (decoratorValues ds) := by
  induction ds with
  | nil => exact .pure _
  | cons d ds ih =>
    obtain ⟨first,rest⟩ := List.forall_mem_cons.1 each
    rw [decoratorValues]
    split
    · next found =>
      rw [found] at first
      exact .bind (evaluate_traced first.1) fun _ => .bind (ih rest) fun _ => .pure _
    · exact ih rest

theorem applyDecorators_traced (values : List Value) : Traced p q (applyDecorators values) := by
  unfold applyDecorators
  induction values.reverse with
  | nil => exact .pure _
  | cons v vs ih => exact .bind (.requireUnknown _ _) fun _ => ih

theorem evaluateBases_traced {es : List Expr} (each : eachAll p es) :
    Traced p q (evaluateBases es) := by
  induction es with
  | nil => exact .pure _
  | cons e es ih =>
    rw [evaluateBases]
    refine .bind (evaluate_traced each.1) fun base => ?_
    have rest := ih each.2
    dsimp only
    split
    · split
      · exact .bind (.requireUnknown _ _) fun _ => rest
      · exact rest
    · exact rest
    · exact .bind (.requireBase _) fun _ => rest

theorem bindAliases_traced {es : List Expr} (each : eachAll p es) : Traced p q (bindAliases es) := by
  induction es with
  | nil => exact .pure _
  | cons e es ih =>
    have rest := ih each.2
    cases e
    case aliased => exact .bind (assign_traced each.1.2) fun _ => rest
    all_goals exact rest

theorem enterEach_traced {es : List Expr} (each : eachAll p es) : Traced p q (enterEach es) := by
  induction es with
  | nil => exact .pure _
  | cons e es ih =>
    have rest := ih each.2
    cases e
    case aliased =>
      exact .bind (evaluate_traced each.1.1) fun _ => .bind (.requireUnknown _ _) fun _ =>
        .bind (assign_traced each.1.2) fun _ => rest
    all_goals
      exact .bind (evaluate_traced each.1) fun _ => .bind (.requireUnknown _ _) fun _ => rest

theorem bindTargets_traced {es : List Expr} (each : eachAll p es) : Traced p q (bindTargets es) := by
  induction es with
  | nil => exact .pure _
  | cons e es ih =>
    have rest := ih each.2
    cases e
    case assignment => exact .recover (assign_traced each.1.1) (fun _ => rest) fun _ _ => rest
    all_goals exact rest

theorem bindNames_traced {s : Stmt} (each : s.Each p q) : Traced p q (bindNames s) := by
  cases s
  case evaluate items => exact bindTargets_traced each
  case importing statement =>
    rw [bindNames]
    split
    · exact .pure _
    · exact .storeAll _
  case define decorations definition => exact .store _ _
  all_goals exact .pure _

theorem decideBranch_traced {certain : Bool} {condition : Option Expr}
    (each : eachOption p condition) : Traced p q (decideBranch certain condition) := by
  cases condition with
  | none => exact .pure _
  | some c =>
    have decided := evaluate_traced (q := q) (e := c) each
    rw [decideBranch]
    split
    · exact .bind decided fun _ => .pure _
    · exact .bind decided.perhaps fun _ => .pure _

mutual
/-- Whatever a statement complains about is accounted for by its names. -/
theorem execute_traced {lazy : Bool} : ∀ {s : Stmt}, s.Each p q → Traced p q (execute lazy s)
  | .skip,_ | .globals _,_ | .nonlocals _,_ => .pure _
  | .evaluate _,each => by
    rw [execute]
    exact performEach_traced each
  | .importing _,_ => by
    rw [execute]
    exact runImport_traced _
  | .define _ _,each => by
    rw [execute]
    exact .bind (decoratorValues_traced each.1) fun decorators => .bind (define_traced each.2) fun _ =>
      .bind (applyDecorators_traced decorators) fun _ => .store _ _
  | .branch _,each => by
    rw [execute]
    exact executeBranches_traced each
  | .forLoop _ _ _ _,each => by
    rw [execute]
    obtain ⟨target,iterable,body,otherwise⟩ := each
    refine .bind (evaluate_traced iterable) fun source => .bind (.requireUnknown _ _) fun _ => ?_
    split
    · exact executeAll_traced otherwise
    · exact .bind (assign_traced target) fun _ => .bind (executeAll_traced body) fun _ =>
        executeMaybe_traced otherwise
    · exact .bind (assign_traced target).perhaps fun _ => .bind (executeMaybe_traced body) fun _ =>
        executeMaybe_traced otherwise
  | .whileLoop _ _ _,each => by
    rw [execute]
    obtain ⟨condition,body,otherwise⟩ := each
    refine .bind (evaluate_traced condition) fun decided => ?_
    split
    · exact executeAll_traced otherwise
    · exact .bind (executeAll_traced body) fun _ => executeMaybe_traced otherwise
    · exact .bind (executeMaybe_traced body) fun _ => executeMaybe_traced otherwise
  | .attempt _ _ _ _,each => by
    rw [execute]
    obtain ⟨body,handlers,otherwise,final⟩ := each
    have finish : Traced p q (executeAll lazy _) := executeAll_traced final
    -- The result is given back after the last clause, and with it the error that was not caught.
    refine .recover (executeAll_traced body) (fun _ => ?_) fun r accounted => ?_
    · exact .recover (executeAll_traced otherwise) (fun _ => .bind finish fun _ => .pure _)
        fun r accounted => .bind finish fun _ => .raise accounted
    · exact .recover (handle_traced accounted handlers) (fun _ => .bind finish fun _ => .pure _)
        fun r accounted => .bind finish fun _ => .raise accounted
  | .within _ _,each => by
    rw [execute]
    exact .bind (enterEach_traced each.1) fun _ => executeAll_traced each.2
  | .choose subjects _,each => by
    rw [execute]
    have subject : eachOption p subjects.head? :=
      eachOption_iff.2 fun e first => eachAll_iff.1 each.1 e (List.mem_of_mem_head? first)
    exact .bind (evaluateOption_traced subject) fun _ => executeCases_traced each.2
  | .delete _,each => by
    rw [execute]
    exact removeEach_traced each.1 each.2
  | .raising _ none,_ => by
    rw [execute]
    exact .raise trivial
  | .raising _ (some _),each => by
    rw [execute]
    exact .bind (evaluateEach_traced each) fun _ => .raise trivial
  | .result _ _,_ => by
    rw [execute]
    exact .raise trivial
  | .typeAlias (some _) _ _,_ => by
    rw [execute]
    exact .store _ _
  | .typeAlias none _ _,_ => .pure _
theorem executeAll_traced {lazy : Bool} :
    ∀ {ss : List Stmt}, eachStmt p q ss → Traced p q (executeAll lazy ss)
  | [],_ => .pure _
  | _ :: _,each => by
    rw [executeAll]
    exact .bind (execute_traced each.1) fun _ => executeAll_traced each.2
theorem executeMaybe_traced {lazy : Bool} :
    ∀ {ss : List Stmt}, eachStmt p q ss → Traced p q (executeMaybe lazy ss)
  | [],_ => .pure _
  | _ :: _,each => by
    rw [executeMaybe]
    have rest : Traced p q (executeMaybe lazy _) := executeMaybe_traced each.2
    refine .bind (execute_traced each.1).perhaps fun ran => ?_
    dsimp only
    split
    · exact .bind (bindNames_traced each.1) fun _ => rest
    · exact rest
theorem define_traced {lazy : Bool} :
    ∀ {d : Definition}, d.Each p q → Traced p q (define lazy d)
  | .classDef _ _ _,each => by
    rw [define]
    exact .bind (evaluateBases_traced each.1) fun _ => .inClass (executeAll_traced each.2)
  | .function _ _ _ _,each => by
    rw [define]
    obtain ⟨parameters,hint,body⟩ := each
    exact .bind (evaluateEach_traced (each_definitionTime parameters hint)) fun _ =>
      .defer (each_functionScope parameters body)
theorem executeBranches_traced {lazy certain : Bool} :
    ∀ {bs : List Branch}, eachBranch p q bs → Traced p q (executeBranches lazy certain bs)
  | [],_ => .pure _
  | .mk _ _ :: _,each => by
    obtain ⟨condition,body,rest⟩ := each
    rw [executeBranches_cons]
    refine .bind (decideBranch_traced condition) fun truth => ?_
    rcases truth with _ | _ | _
    · exact .bind (executeMaybe_traced body) fun _ => executeBranches_traced rest
    · exact executeBranches_traced rest
    · rw [enter]
      split
      · exact executeAll_traced body
      · exact executeMaybe_traced body
theorem handle_traced {lazy : Bool} {r : Raised} (accounted : r.Accounted p q) :
    ∀ {hs : List Handler}, eachHandler p q hs → Traced p q (handle lazy r hs)
  | [],_ => .raise accounted
  | .mk _ _ :: _,each => by
    rw [handle]
    obtain ⟨items,body,rest⟩ := each
    split
    · exact .bind (bindAliases_traced items) fun _ => executeAll_traced body
    · exact handle_traced accounted rest
theorem executeCases_traced {lazy : Bool} :
    ∀ {cs : List Case}, eachCase p q cs → Traced p q (executeCases lazy cs)
  | [],_ => .pure _
  | .mk _ _ _ :: _,each => by
    rw [executeCases]
    obtain ⟨_,condition,body,rest⟩ := each
    exact .bind (.storeAll _) fun _ => .bind (evaluateEach_traced condition).perhaps fun _ =>
      .bind (executeMaybe_traced body) fun _ => executeCases_traced rest
end

theorem mem_of_earliest {refs : List NameRef} {ref : NameRef} (first : earliest refs = some ref) :
    ref ∈ refs := by
  induction refs generalizing ref with
  | nil => cases first
  | cons r rs ih =>
    rw [earliest] at first
    split at first
    · next best found =>
      split at first
      · exact List.mem_cons_of_mem _ (ih (first ▸ found))
      · cases first
        exact List.mem_cons_self
    · cases first
      exact List.mem_cons_self

/-- What the check at the end complains about is looked up in one of the scopes, and no builtin. -/
theorem checkDeferred_accounted {s : State} {r : Raised} (each : ∀ scope ∈ s.deferred, scope.Each p)
    (failed : checkDeferred s = .error r) : r.Accounted p q := by
  unfold checkDeferred at failed
  split at failed
  · next ref first =>
    cases failed
    obtain ⟨scope,kept,vain⟩ := List.mem_flatMap.1 (mem_of_earliest first)
    refine .inr ⟨(each scope (List.mem_reverse.1 kept)).of_mem_unresolved vain,?_⟩
    rw [Scope.unresolved_eq_filter] at vain
    have absent := (List.mem_filter.1 vain).2
    simp only [Bool.not_or,Bool.and_eq_true,Bool.not_eq_true'] at absent
    exact absent.2
  · cases failed

theorem run_accounted {known : List String} {program : List Stmt} {r : Raised}
    (each : eachStmt p q program) (failed : run known program = .error r) : r.Accounted p q := by
  have traced : Traced p q (executeAll (isLazy program) program) := executeAll_traced each
  have raised := traced.raised (State.start known)
  have deferred := traced.deferred (State.start known)
  unfold run at failed
  split at failed
  · next ran =>
    rw [ran] at deferred
    refine checkDeferred_accounted (fun scope kept => ?_) failed
    exact (deferred scope kept).resolve_left List.not_mem_nil
  · next ran =>
    cases failed
    exact raised r (by rw [ran])

end Interpreter

end Excerpt.Execution

namespace Excerpt
open Excerpt.Names Excerpt.Syntax Excerpt.Program Excerpt.Execution

namespace Syntax.Tree

variable {root t : Tree} {name : String} {line : Nat}

/-- Whether an identifier of the tree is the name on the line, and a builtin only as the target of a
deletion. -/
def Shows (root : Tree) (name : String) (line : Nat) : Prop :=
  ∃ t ∈ root.preorder, t.is .identifier ∧ t.text = name ∧ t.line = line ∧
    (isBuiltin name → t ∈ root.deleted)

/-- Whether an identifier of the tree is a name on its line. -/
def Has (root : Tree) (ref : NameRef) : Prop :=
  ∃ t ∈ root.preorder, t.is .identifier ∧ t.text = ref.name ∧ t.line = ref.line

/-- Whether a name is deleted on its line. -/
def Deletes (root : Tree) (ref : NameRef) : Prop :=
  ∃ t ∈ root.deleted, t.text = ref.name ∧ t.line = ref.line

theorem mem_deleted : t ∈ root.deleted ↔
    ∃ u ∈ root.preorder, u.is .deleteStatement ∧ t ∈ removalsAll u.children := by
  simp [deleted,and_assoc]

theorem mem_preorder_of_deleted (gone : t ∈ root.deleted) : t ∈ root.preorder ∧ t.is .identifier := by
  obtain ⟨u,inside,_,target⟩ := mem_deleted.1 gone
  obtain ⟨below,name⟩ := mem_removalsAll target
  obtain ⟨c,child,under⟩ := mem_preorderAll.1 below
  exact ⟨preorder_trans inside (mem_preorder_of_child child under),name⟩

theorem sited_self (root : Tree) : root.Sited root.Has root.Deletes := by
  intro u inside
  refine ⟨fun name => ⟨u,inside,name,rfl,rfl⟩,fun deletion v target => ?_⟩
  exact ⟨v,mem_deleted.2 ⟨u,inside,deletion,target⟩,rfl,rfl⟩

theorem shows_of_accounted (accounted : (Raised.nameError name line).Accounted root.Has root.Deletes) :
    root.Shows name line := by
  rcases accounted with ⟨t,gone,text,row⟩ | ⟨⟨t,inside,identifier,text,row⟩,plain⟩
  · obtain ⟨inside,identifier⟩ := mem_preorder_of_deleted gone
    exact ⟨t,inside,identifier,text,row,fun _ => gone⟩
  · exact ⟨t,inside,identifier,text,row,fun builtin => by simp [plain] at builtin⟩

end Syntax.Tree

/-- Every complaint about an undefined name points at an identifier of the source on its line, and at a
builtin only where it is deleted. That holds of what ends a run, at the end or before, and of what any
statement or expression raises in any state, whether it is caught or not. -/
theorem undefined_name_shows (root : Tree) (name : String) (line : Nat) :
    (∀ known, run known (ofTree root) = .error (.nameError name line) → root.Shows name line) ∧
    ∀ t ∈ root.preorder, ∀ s : Execution.State,
      (∀ lazy, (execute lazy (stmtOf t) s).1 = .error (.nameError name line) →
        root.Shows name line) ∧
      ((evaluate (exprOf t) s).1 = .error (.nameError name line) → root.Shows name line) := by
  have sited := root.sited_self
  refine ⟨fun known failed => ?_,fun t inside s => ?_⟩
  · have each := each_bodyOf fun c member => sited.child member
    exact Tree.shows_of_accounted (run_accounted each failed)
  · have below : t.Sited root.Has root.Deletes := fun u under =>
      sited u (Tree.preorder_trans inside under)
    refine ⟨fun lazy failed => ?_,fun failed => ?_⟩
    · exact Tree.shows_of_accounted ((execute_traced (each_stmtOf below)).raised s _ failed)
    · exact Tree.shows_of_accounted ((evaluate_traced (each_exprOf below)).raised s _ failed)

/-- A name that a function looks up in vain, and a builtin whose deletion fails and is caught. -/
theorem undefined_name_shows_caught : ∃ root,
    readTree "def f():\n    return missing\ntry:\n    del print\nexcept NameError:\n    pass\n" =
      some root ∧
    run [] (ofTree root) = .error (.nameError "missing" 2) ∧ root.Shows "missing" 2 ∧
    ∃ t ∈ root.preorder, (execute false (stmtOf t) (.start [])).1 = .error (.nameError "print" 4) ∧
      root.Shows "print" 4 := by
  obtain ⟨root,read,checked⟩ := (Option.any_eq_true _ _).1 (show
    (readTree "def f():\n    return missing\ntry:\n    del print\nexcept NameError:\n    pass\n").any
      (fun root => decide (run [] (ofTree root) = .error (.nameError "missing" 2)) &&
        root.preorder.any fun t =>
          decide ((execute false (stmtOf t) (.start [])).1 = .error (.nameError "print" 4)))
      by decide +kernel)
  obtain ⟨ended,some⟩ := Bool.and_eq_true_iff.1 checked
  obtain ⟨t,inside,failed⟩ := List.any_eq_true.1 some
  have ended := of_decide_eq_true ended
  have failed := of_decide_eq_true failed
  refine ⟨root,read,ended,(undefined_name_shows root _ _).1 [] ended,t,inside,failed,?_⟩
  exact ((undefined_name_shows root _ _).2 t inside _).1 false failed

end Excerpt
