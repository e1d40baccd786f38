import Excerpt.Proofs.Permission

/-!
Every run keeps to its effects: each step of the interpreter is permitted by the effects that are
read off the syntax.
-/
namespace Excerpt.Execution
open Excerpt.Program Exec

namespace Permitted

variable {effects : List Effect}

theorem perhaps {α : Type} {step : Exec α} (permitted : Permitted effects step) :
    Permitted effects (Exec.perhaps step) := by
  apply recover permitted
  · exact fun a => pure (some a)
  · intro r fault
    dsimp only
    split
    · exact raise fault
    · exact pure none

theorem storeAll {names : List String} (covered : ∀ n ∈ names, .bind n ∈ effects) :
    Permitted effects (Exec.storeAll names) := by
  induction names with
  | nil => exact pure ()
  | cons n ns ih =>
    have split : Exec.storeAll (n :: ns) = Exec.store n .unknown >>= fun _ => Exec.storeAll ns := rfl
    rw [split]
    exact bind (store (covered n (by simp))) fun _ =>
      ih fun m member => covered m (by simp [member])

/-- A step that only gives back what was found out before. -/
theorem lift {α : Type} {result : Except Raised α}
    (fault : ∀ r, result = .error r → r.isSyntaxError → .halt ∈ effects) :
    Permitted effects (liftM result : Exec α) := by
  cases result with
  | ok a => exact pure a
  | error r => exact raise (fault r rfl)

theorem requireUnknown (value : Value) (message : String → String) :
    Permitted effects (Exec.requireUnknown value message) := by
  cases value with
  | unknown => exact pure ()
  | module path => exact raise (by simp [Raised.typeError,Raised.isSyntaxError])
  | nothing => exact raise (by simp [Raised.typeError,Raised.isSyntaxError])

theorem requireBase (value : Value) : Permitted effects (Exec.requireBase value) := by
  cases value with
  | unknown => exact pure ()
  | module path => exact raise (by simp [Raised.typeError,Raised.isSyntaxError])
  | nothing => exact raise (by simp [Raised.typeError,Raised.isSyntaxError])

theorem combine (left right : Value) : Permitted effects (Exec.combine left right) := by
  unfold Exec.combine
  split
  · exact pure _
  · exact raise (by simp [Raised.typeError,Raised.isSyntaxError])

theorem attributeOf (object : Value) (attr : String) :
    Permitted effects (Exec.attributeOf object attr) := by
  cases object with
  | unknown => exact pure _
  | nothing => exact raise (by simp [lacksAttribute,Raised.attributeError,Raised.isSyntaxError])
  | module path =>
    refine @consult _ _ (fun m => liftM (m.attribute? path attr)) fun m => lift ?_
    intro r refused syntactic
    unfold Modules.attribute? at refused
    split at refused <;> try cases refused
    split at refused <;> try cases refused
    split at refused <;> cases refused
    cases syntactic

theorem setAttributeOf {object : Value} {attr : String} (covered : .touch ∈ effects) :
    Permitted effects (Exec.setAttributeOf object attr) := by
  cases object with
  | unknown => exact pure ()
  | nothing => exact raise (by simp [lacksAttribute,Raised.attributeError,Raised.isSyntaxError])
  | module path => exact setAttribute covered

end Permitted

mutual
theorem evaluate_permitted {effects : List Effect} : ∀ e : Expr, e.effects ⊆ effects →
    Permitted effects (evaluate e)
  | .name id line,covered => by
    rw [evaluate]
    exact .bind (.lookup (covered (by simp [Expr.effects]))) fun _ => .pure _
  | .none,_ => .pure _
  | .truth _,_ => .pure _
  | .integer _,_ => .pure _
  | .blank,_ => .pure _
  | .group items,covered => by
    rw [evaluate]
    exact .bind (evaluateEach_permitted items covered) fun _ => .pure _
  | .parens items,covered => by
    rw [evaluate]
    refine .bind (evaluateEach_permitted items covered) fun all => ?_
    split <;> exact .pure _
  | .sequence form items,covered => by
    rw [evaluate]
    exact .bind (evaluateEach_permitted items covered) fun _ => .pure _
  | .splat _ items,covered => by
    rw [evaluate]
    exact .bind (evaluateEach_permitted items covered) fun _ => .pure _
  | .member object attr,covered => by
    rw [evaluate]
    exact .bind (evaluate_permitted object covered) fun _ => .bind (.attributeOf _ _) fun _ => .pure _
  | .call function arguments,covered => by
    rw [evaluate]
    have both := List.append_subset.1 covered
    exact .bind (evaluate_permitted function both.1) fun _ =>
      .bind (evaluate_permitted arguments both.2) fun _ =>
        .bind (.requireUnknown _ _) fun _ => .pure _
  | .subscript value indices,covered => by
    rw [evaluate]
    have both := List.append_subset.1 covered
    exact .bind (evaluate_permitted value both.1) fun _ =>
      .bind (evaluateEach_permitted indices both.2) fun _ =>
        .bind (.requireUnknown _ _) fun _ => .pure _
  | .keyword _ value,covered => by
    rw [evaluate]
    exact .bind (evaluate_permitted value covered) fun _ => .pure _
  | .walrus name value,covered => by
    rw [evaluate]
    have both := List.append_subset.1 covered
    exact .bind (evaluate_permitted value both.1) fun _ =>
      .bind (.store (both.2 (by simp))) fun _ => .pure _
  | .aliased value target,covered => by
    rw [evaluate]
    have both := List.append_subset.1 covered
    exact .bind (evaluate_permitted value both.1) fun _ =>
      .bind (evaluate_permitted target both.2) fun _ => .pure _
  | .conditional body condition alternative,covered => by
    rw [evaluate]
    have outer := List.append_subset.1 covered
    have inner := List.append_subset.1 outer.1
    have runBody := evaluate_permitted body inner.2
    have runAlternative := evaluate_permitted alternative outer.2
    refine .bind (evaluate_permitted condition inner.1) fun decided => ?_
    split
    · exact .bind runBody fun _ => .pure _
    · exact .bind runAlternative fun _ => .pure _
    · exact .bind runBody.perhaps fun _ => .bind runAlternative.perhaps fun _ => .pure _
  | .conjunction left right,covered => by
    rw [evaluate]
    have both := List.append_subset.1 covered
    refine .bind (evaluate_permitted left both.1) fun decided => ?_
    split
    · exact .pure _
    · exact evaluate_permitted right both.2
    · exact .bind (evaluate_permitted right both.2).perhaps fun _ => .pure _
  | .disjunction left right,covered => by
    rw [evaluate]
    have both := List.append_subset.1 covered
    refine .bind (evaluate_permitted left both.1) fun decided => ?_
    split
    · exact .pure _
    · exact evaluate_permitted right both.2
    · exact .bind (evaluate_permitted right both.2).perhaps fun _ => .pure _
  | .negation argument,covered => by
    rw [evaluate]
    exact .bind (evaluate_permitted argument covered) fun _ => .pure _
  | .comparison operands comparators,covered => by
    rw [evaluate]
    exact .bind (evaluateEach_permitted operands covered) fun _ => .pure _
  | .binary left right,covered => by
    rw [evaluate]
    have both := List.append_subset.1 covered
    exact .bind (evaluate_permitted left both.1) fun _ =>
      .bind (evaluate_permitted right both.2) fun _ => .bind (.combine _ _) fun _ => .pure _
  | .lambda parameters body,covered => by
    rw [evaluate]
    have both := List.append_subset.1 covered
    exact .bind (evaluateDefaults_permitted parameters both.1) fun _ =>
      .bind (.defer (both.2 (by simp))) fun _ => .pure _
  | .comprehension parts,covered => by
    rw [evaluate]
    have outer := List.append_subset.1 covered
    have inner := List.append_subset.1 outer.1
    exact .bind (evaluateIterables_permitted parts inner.1) fun _ =>
      .bind (.storeAll fun n member => inner.2 (List.mem_map_of_mem member)) fun _ =>
        .bind (.defer (outer.2 (by simp))) fun _ => .pure _
  | .suspension place _,covered => by
    rw [evaluate]
    exact .raise fun _ => covered (by simp [Expr.effects])
  | .assignment target hint value,covered => by
    rw [evaluate]
    have outer := List.append_subset.1 covered
    have inner := List.append_subset.1 outer.1
    exact .bind (evaluate_permitted target inner.1) fun _ =>
      .bind (evaluateOption_permitted hint inner.2) fun _ =>
        .bind (evaluateOption_permitted value outer.2) fun _ => .pure _
  | .augmented target value,covered => by
    rw [evaluate]
    have both := List.append_subset.1 covered
    exact .bind (evaluate_permitted target both.1) fun _ =>
      .bind (evaluate_permitted value both.2) fun _ => .pure _
theorem evaluateEach_permitted {effects : List Effect} : ∀ items : List Expr,
    effectsAll items ⊆ effects → Permitted effects (evaluateEach items)
  | [],_ => .pure _
  | e :: es,covered => by
    rw [evaluateEach]
    have both := List.append_subset.1 covered
    exact .bind (evaluate_permitted e both.1) fun _ =>
      .bind (evaluateEach_permitted es both.2) fun _ => .pure _
theorem evaluateOption_permitted {effects : List Effect} : ∀ item : Option Expr,
    effectsOf item ⊆ effects → Permitted effects (evaluateOption item)
  | none,_ => .pure _
  | some e,covered => by
    rw [evaluateOption]
    exact .bind (evaluate_permitted e covered) fun _ => .pure _
theorem evaluateDefaults_permitted {effects : List Effect} : ∀ parameters : List Parameter,
    defaultEffects parameters ⊆ effects → Permitted effects (evaluateDefaults parameters)
  | [],_ => .pure _
  | .mk _ _ default :: ps,covered => by
    rw [evaluateDefaults]
    have both := List.append_subset.1 covered
    exact .bind (evaluateOption_permitted default both.1) fun _ =>
      evaluateDefaults_permitted ps both.2
theorem evaluateIterables_permitted {effects : List Effect} : ∀ parts : List Part,
    iterableEffects parts ⊆ effects → Permitted effects (evaluateIterables parts)
  | [],_ => .pure _
  | .clause _ iterables :: _,covered => by
    rw [evaluateIterables]
    exact evaluateIterable_permitted iterables covered
  | .element _ :: ps,covered => by
    rw [evaluateIterables]
    exact evaluateIterables_permitted ps covered
theorem evaluateIterable_permitted {effects : List Effect} : ∀ iterables : List Expr,
    effectsAll iterables ⊆ effects → Permitted effects (evaluateIterable iterables)
  | [],_ => .pure _
  | e :: es,covered => by
    rw [evaluateIterable]
    have both := List.append_subset.1 covered
    exact .bind (evaluate_permitted e both.1) fun _ =>
      .bind (.requireUnknown _ _) fun _ => evaluateIterable_permitted es both.2
end

mutual
theorem assign_permitted {effects : List Effect} (value : Value) : ∀ target : Expr,
    target.targetEffects ⊆ effects → Permitted effects (assign value target)
  | .name id _,covered => by
    rw [assign]
    exact .store (covered (by simp [Expr.targetEffects]))
  | .member object attr,covered => by
    rw [assign]
    have both := List.append_subset.1 covered
    exact .bind (evaluate_permitted object both.1) fun _ => .setAttributeOf (both.2 (by simp))
  | .subscript container indices,covered => by
    rw [assign]
    have both := List.append_subset.1 covered
    exact .bind (evaluate_permitted container both.1) fun _ =>
      .bind (evaluateEach_permitted indices both.2) fun _ => .requireUnknown _ _
  | .parens items,covered => by
    rw [assign]
    exact assignEach_permitted items covered
  | .sequence form items,covered => by
    rw [assign]
    rw [Expr.targetEffects] at covered
    split
    · rename_i isTarget
      exact assignEach_permitted items (by simpa [isTarget] using covered)
    · rename_i isNoTarget
      exact .bind (evaluate_permitted _ (by simpa [isNoTarget,Expr.effects] using covered)) fun _ => .pure _
  | .splat double items,covered => by
    rw [assign]
    rw [Expr.targetEffects] at covered
    split
    · rename_i isDouble
      exact .bind (evaluate_permitted _ (by simpa [isDouble,Expr.effects] using covered)) fun _ => .pure _
    · rename_i isSingle
      exact assignEach_permitted items (by simpa [isSingle] using covered)
  | .none,covered | .truth _,covered | .integer _,covered | .blank,covered | .group _,covered
  | .call _ _,covered | .keyword _ _,covered | .walrus _ _,covered | .aliased _ _,covered
  | .conditional _ _ _,covered | .conjunction _ _,covered | .disjunction _ _,covered
  | .negation _,covered | .comparison _ _,covered | .binary _ _,covered | .lambda _ _,covered
  | .comprehension _,covered | .suspension _ _,covered | .assignment _ _ _,covered
  | .augmented _ _,covered => .bind (evaluate_permitted _ covered) fun _ => .pure _
theorem assignEach_permitted {effects : List Effect} : ∀ targets : List Expr,
    targetEffectsAll targets ⊆ effects → Permitted effects (assignEach targets)
  | [],_ => .pure _
  | e :: es,covered => by
    rw [assignEach]
    have both := List.append_subset.1 covered
    exact .bind (assign_permitted .unknown e both.1) fun _ => assignEach_permitted es both.2
end

mutual
theorem remove_permitted {effects : List Effect} : ∀ target : Expr,
    target.removalEffects ⊆ effects → Permitted effects (remove target)
  | .name id _,covered => by
    rw [remove]
    exact .unbind (covered (by simp [Expr.removalEffects]))
  | .parens items,covered => by
    rw [remove]
    exact removeEach_permitted items covered
  | .sequence form items,covered => by
    rw [remove]
    rw [Expr.removalEffects] at covered
    split
    · rename_i isTarget
      exact removeEach_permitted items (by simpa [isTarget] using covered)
    · rename_i isNoTarget
      exact .bind (evaluate_permitted _ (by simpa [isNoTarget,Expr.effects] using covered)) fun _ => .pure _
  | .splat double items,covered => by
    rw [remove]
    rw [Expr.removalEffects] at covered
    split
    · rename_i isDouble
      exact .bind (evaluate_permitted _ (by simpa [isDouble,Expr.effects] using covered)) fun _ => .pure _
    · rename_i isSingle
      exact removeEach_permitted items (by simpa [isSingle] using covered)
  | .none,covered | .truth _,covered | .integer _,covered | .blank,covered | .group _,covered
  | .member _ _,covered | .call _ _,covered | .subscript _ _,covered | .keyword _ _,covered
  | .walrus _ _,covered | .aliased _ _,covered | .conditional _ _ _,covered
  | .conjunction _ _,covered | .disjunction _ _,covered | .negation _,covered
  | .comparison _ _,covered | .binary _ _,covered | .lambda _ _,covered
  | .comprehension _,covered | .suspension _ _,covered | .assignment _ _ _,covered
  | .augmented _ _,covered => .bind (evaluate_permitted _ covered) fun _ => .pure _
theorem removeEach_permitted {effects : List Effect} : ∀ targets : List Expr,
    removalEffectsAll targets ⊆ effects → Permitted effects (removeEach targets)
  | [],_ => .pure _
  | e :: es,covered => by
    rw [removeEach]
    have both := List.append_subset.1 covered
    exact .bind (remove_permitted e both.1) fun _ => removeEach_permitted es both.2
end

mutual
theorem perform_permitted {effects : List Effect} (lazy : Bool) : ∀ e : Expr,
    e.performEffects lazy ⊆ effects → Permitted effects (perform lazy e)
  | .assignment target hint value,covered => by
    rw [perform]
    rw [Expr.performEffects] at covered
    have outer := List.append_subset.1 covered
    have inner := List.append_subset.1 outer.1
    refine .bind (performOption_permitted lazy value inner.1) fun assigned => ?_
    have finish : Permitted effects (match assigned with
        | some v => do
          assign v target
          return v
        | none => return .unknown : Exec Value) := by
      split
      · exact .bind (assign_permitted _ target outer.2) fun _ => .pure _
      · exact .pure _
    dsimp only
    split
    · rename_i eager
      have strict : lazy = false := by simpa using eager
      have hinted : effectsOf hint ⊆ effects := by simpa [strict] using inner.2
      exact .bind (evaluateOption_permitted hint hinted) fun _ => finish
    · exact finish
  | .augmented target operand,covered => by
    rw [perform]
    have outer := List.append_subset.1 covered
    have inner := List.append_subset.1 outer.1
    exact .bind (evaluate_permitted target inner.1) fun _ =>
      .bind (evaluate_permitted operand inner.2) fun _ => .bind (.combine _ _) fun _ =>
        .bind (assign_permitted .unknown target outer.2) fun _ => .pure _
  | .name _ _,covered | .none,covered | .truth _,covered | .integer _,covered | .blank,covered
  | .group _,covered | .parens _,covered | .sequence _ _,covered | .splat _ _,covered
  | .member _ _,covered | .call _ _,covered | .subscript _ _,covered | .keyword _ _,covered
  | .walrus _ _,covered | .aliased _ _,covered | .conditional _ _ _,covered
  | .conjunction _ _,covered | .disjunction _ _,covered | .negation _,covered
  | .comparison _ _,covered | .binary _ _,covered | .lambda _ _,covered
  | .comprehension _,covered | .suspension _ _,covered =>
    .bind (evaluate_permitted _ covered) fun _ => .pure _
theorem performOption_permitted {effects : List Effect} (lazy : Bool) : ∀ item : Option Expr,
    performEffectsOf lazy item ⊆ effects → Permitted effects (performOption lazy item)
  | none,_ => .pure _
  | some e,covered => by
    rw [performOption]
    exact .bind (perform_permitted lazy e covered) fun _ => .pure _
end

theorem performEach_permitted {effects : List Effect} (lazy : Bool) (items : List Expr)
    (covered : items.flatMap (·.performEffects lazy) ⊆ effects) :
    Permitted effects (performEach lazy items) := by
  induction items with
  | nil => exact .pure _
  | cons e es ih =>
    have both := List.append_subset.1 covered
    exact .bind (perform_permitted lazy e both.1) fun _ => ih both.2

theorem importPlain_permitted {effects : List Effect} (touched : .touch ∈ effects)
    (names : List ImportedName) (covered : ∀ n ∈ names, .bind n.bound ∈ effects) :
    Permitted effects (importPlain names) := by
  induction names with
  | nil => exact .pure _
  | cons n ns ih =>
    rw [importPlain_cons]
    exact .bind (.importing touched) fun _ => .bind (.store (covered n (by simp))) fun _ =>
      ih fun m member => covered m (by simp [member])

theorem bindAttribute_permitted {effects : List Effect} {path : String} {n : ImportedName}
    (bound : .bind n.bound ∈ effects) (found : Except Raised Value) :
    Permitted effects (bindAttribute path n found) := by
  cases found with
  | ok value => exact .store bound
  | error _ => exact .raise (by simp [Raised.isSyntaxError])

theorem bindImported_permitted {effects : List Effect} (path : String)
    (names : List ImportedName) (covered : ∀ n ∈ names, .bind n.bound ∈ effects) :
    Permitted effects (bindImported path names) := by
  induction names with
  | nil => exact .pure _
  | cons n ns ih =>
    rw [bindImported]
    apply @Permitted.consult _ _ fun m => do
      bindAttribute path n (m.attribute? path n.name)
      bindImported path ns
    intro m
    exact .bind (bindAttribute_permitted (covered n (by simp)) _) fun _ =>
      ih fun m member => covered m (by simp [member])

theorem runImport_permitted {effects : List Effect} (s : ImportStatement)
    (covered : Effect.touch :: s.boundNames.map .bind ⊆ effects) :
    Permitted effects (runImport s) := by
  have touched : .touch ∈ effects := covered (by simp)
  have bound (n : ImportedName) (member : n ∈ s.names) : .bind n.bound ∈ effects :=
    covered (List.mem_cons_of_mem _ (List.mem_map_of_mem (List.mem_map_of_mem member)))
  by_cases plain : s.kind = .plain
  · simp only [runImport,plain]
    exact importPlain_permitted touched s.names bound
  · rw [runImport_from plain]
    exact .bind (.importing touched) fun _ => bindImported_permitted s.path s.names bound

theorem decoratorValues_permitted {effects : List Effect} (decorations : List Decoration)
    (covered : decorations.flatMap (effectsAll ·.items) ⊆ effects) :
    Permitted effects (decoratorValues decorations) := by
  induction decorations with
  | nil => exact .pure _
  | cons d ds ih =>
    have both := List.append_subset.1 covered
    rw [decoratorValues]
    split
    · rename_i e _ found
      have here : effectsAll d.items ⊆ effects := both.1
      rw [found] at here
      exact .bind (evaluate_permitted e (List.append_subset.1 here).1) fun _ =>
        .bind (ih both.2) fun _ => .pure _
    · exact ih both.2

theorem applyDecorators_permitted {effects : List Effect} (values : List Value) :
    Permitted effects (applyDecorators values) := by
  unfold applyDecorators
  induction values.reverse with
  | nil => exact .pure _
  | cons v vs ih => exact .bind (.requireUnknown _ _) fun _ => ih

theorem evaluateBases_permitted {effects : List Effect} (bases : List Expr)
    (covered : effectsAll bases ⊆ effects) : Permitted effects (evaluateBases bases) := by
  induction bases with
  | nil => exact .pure _
  | cons e es ih =>
    have both := List.append_subset.1 covered
    rw [evaluateBases]
    refine .bind (evaluate_permitted e both.1) fun base => ?_
    have rest := ih both.2
    dsimp only
    split
    · split
      · exact .bind (.requireUnknown _ _) fun _ => rest
      · exact rest
    · exact rest
    · exact .bind (.requireBase _) fun _ => rest

theorem bindAliases_permitted {effects : List Effect} (items : List Expr)
    (covered : items.flatMap Expr.aliasEffects ⊆ effects) : Permitted effects (bindAliases items) := by
  induction items with
  | nil => exact .pure _
  | cons e es ih =>
    have both := List.append_subset.1 covered
    cases e
    case aliased value target =>
      exact .bind (assign_permitted .unknown target both.1) fun _ => ih both.2
    all_goals exact ih both.2

theorem enterEach_permitted {effects : List Effect} (items : List Expr)
    (covered : items.flatMap Expr.entryEffects ⊆ effects) : Permitted effects (enterEach items) := by
  induction items with
  | nil => exact .pure _
  | cons e es ih =>
    have both := List.append_subset.1 covered
    cases e
    case aliased value target =>
      have parts := List.append_subset.1 both.1
      exact .bind (evaluate_permitted value parts.1) fun _ => .bind (.requireUnknown _ _) fun _ =>
        .bind (assign_permitted .unknown target parts.2) fun _ => ih both.2
    all_goals
      exact .bind (evaluate_permitted _ both.1) fun _ => .bind (.requireUnknown _ _) fun _ =>
        ih both.2

theorem bindTargets_permitted {effects : List Effect} (lazy : Bool) (items : List Expr)
    (covered : items.flatMap (·.performEffects lazy) ⊆ effects) :
    Permitted effects (bindTargets items) := by
  induction items with
  | nil => exact .pure _
  | cons e es ih =>
    have both := List.append_subset.1 covered
    cases e
    case assignment target hint value =>
      have here : (Expr.assignment target hint value).performEffects lazy ⊆ effects := both.1
      rw [Expr.performEffects] at here
      have assigned := assign_permitted .unknown target (List.append_subset.1 here).2
      exact .recover assigned (fun _ => ih both.2) fun _ _ => ih both.2
    all_goals exact ih both.2

theorem bindNames_permitted {effects : List Effect} (lazy : Bool) (s : Stmt)
    (covered : s.effects lazy ⊆ effects) : Permitted effects (bindNames s) := by
  cases s
  case evaluate items => exact bindTargets_permitted lazy items covered
  case importing statement =>
    rw [bindNames]
    split
    · exact .pure _
    · exact .storeAll fun n member =>
        covered (List.mem_cons_of_mem _ (List.mem_map_of_mem member))
  case define decorations definition => exact .store (covered (by simp [Stmt.effects]))
  all_goals exact .pure _

/-- How a conditional goes on when it is known what a condition amounts to. -/
def enter (lazy certain : Bool) (body : List Stmt) (rest : List Branch) : Option Bool → Exec Unit
  | some false => executeBranches lazy certain rest
  | some true => if certain then executeAll lazy body else executeMaybe lazy body
  | none => do
    executeMaybe lazy body
    executeBranches lazy false rest

/-- What the condition of a branch amounts to. It cannot fail if it may not be reached. -/
def decideBranch (certain : Bool) : Option Expr → Exec (Option Bool)
  | none => pure (some true)
  | some c =>
    if certain then do return (← evaluate c).truth
    else do return (← perhaps (evaluate c)).bind Appraisal.truth

theorem executeBranches_cons (lazy certain : Bool) (condition : Option Expr) (body : List Stmt)
    (rest : List Branch) : executeBranches lazy certain (.mk condition body :: rest) =
      decideBranch certain condition >>= enter lazy certain body rest := by
  cases condition with
  | none =>
    rw [executeBranches]
    rfl
  | some c =>
    rw [executeBranches,decideBranch]
    cases certain <;> exact (bind_assoc _ _ _).symm

mutual
/-- Every statement keeps to its effects. -/
theorem execute_permitted {effects : List Effect} (lazy : Bool) : ∀ s : Stmt,
    s.effects lazy ⊆ effects → Permitted effects (execute lazy s)
  | .skip,_ | .globals _,_ | .nonlocals _,_ => .pure _
  | .evaluate items,covered => by
    rw [execute]
    exact performEach_permitted lazy items covered
  | .importing s,covered => by
    rw [execute]
    exact runImport_permitted s covered
  | .define decorations definition,covered => by
    rw [execute]
    have outer := List.append_subset.1 covered
    have inner := List.append_subset.1 outer.1
    exact .bind (decoratorValues_permitted decorations inner.1) fun decorators =>
      .bind (define_permitted lazy definition inner.2) fun _ =>
        .bind (applyDecorators_permitted decorators) fun _ => .store (outer.2 (by simp))
  | .branch branches,covered => by
    rw [execute]
    exact executeBranches_permitted lazy true branches covered
  | .forLoop target iterable body otherwise,covered => by
    rw [execute]
    have all := List.append_subset.1 covered
    have parts := List.append_subset.1 all.1
    have header := List.append_subset.1 parts.1
    refine .bind (evaluate_permitted iterable header.1) fun source =>
      .bind (.requireUnknown _ _) fun _ => ?_
    have assigned := assign_permitted .unknown target header.2
    split
    · exact executeAll_permitted lazy otherwise all.2
    · exact .bind assigned fun _ => .bind (executeAll_permitted lazy body parts.2) fun _ =>
        executeMaybe_permitted lazy otherwise all.2
    · exact .bind assigned.perhaps fun _ => .bind (executeMaybe_permitted lazy body parts.2) fun _ =>
        executeMaybe_permitted lazy otherwise all.2
  | .whileLoop condition body otherwise,covered => by
    rw [execute]
    have all := List.append_subset.1 covered
    have parts := List.append_subset.1 all.1
    refine .bind (evaluate_permitted condition parts.1) fun decided => ?_
    split
    · exact executeAll_permitted lazy otherwise all.2
    · exact .bind (executeAll_permitted lazy body parts.2) fun _ =>
        executeMaybe_permitted lazy otherwise all.2
    · exact .bind (executeMaybe_permitted lazy body parts.2) fun _ =>
        executeMaybe_permitted lazy otherwise all.2
  | .attempt body handlers otherwise final,covered => by
    rw [execute]
    have all := List.append_subset.1 covered
    have parts := List.append_subset.1 all.1
    have attempted := List.append_subset.1 parts.1
    have finish := executeAll_permitted lazy final all.2
    -- The clause that is last runs whatever came before it, and the result is given back after it.
    refine .recover (executeAll_permitted lazy body attempted.1) ?_ ?_
    · exact fun _ => .recover (executeAll_permitted lazy otherwise parts.2)
        (fun _ => .bind finish fun _ => .pure _)
        fun r fault => .bind finish fun _ => .lift fun q same => by cases same; exact fault
    · exact fun r fault => .recover (handle_permitted lazy r fault handlers attempted.2)
        (fun _ => .bind finish fun _ => .pure _)
        fun r fault => .bind finish fun _ => .lift fun q same => by cases same; exact fault
  | .within items body,covered => by
    rw [execute]
    have both := List.append_subset.1 covered
    exact .bind (enterEach_permitted items both.1) fun _ => executeAll_permitted lazy body both.2
  | .choose subjects cases,covered => by
    rw [execute]
    have both := List.append_subset.1 covered
    have subject : effectsOf subjects.head? ⊆ effects := by
      cases subjects with
      | nil => simp [effectsOf]
      | cons e es => exact (List.append_subset.1 both.1).1
    exact .bind (evaluateOption_permitted _ subject) fun _ => executeCases_permitted lazy cases both.2
  | .delete targets,covered => by
    rw [execute]
    exact removeEach_permitted targets covered
  | .raising items none,_ => by
    rw [execute]
    exact .raise (by simp [Raised.isSyntaxError])
  | .raising items (some _),covered => by
    rw [execute]
    exact .bind (evaluateEach_permitted items covered) fun _ =>
      .raise (by simp [Raised.isSyntaxError])
  | .result place _,covered => by
    rw [execute]
    exact .raise fun _ => covered (by simp [Stmt.effects])
  | .typeAlias (some _) _ _,covered => by
    rw [execute]
    exact .store (covered (by simp [Stmt.effects]))
  | .typeAlias none _ _,_ => .pure _
theorem executeAll_permitted {effects : List Effect} (lazy : Bool) : ∀ body : List Stmt,
    bodyEffects lazy body ⊆ effects → Permitted effects (executeAll lazy body)
  | [],_ => .pure _
  | s :: ss,covered => by
    rw [executeAll]
    have both := List.append_subset.1 covered
    exact .bind (execute_permitted lazy s both.1) fun _ => executeAll_permitted lazy ss both.2
theorem executeMaybe_permitted {effects : List Effect} (lazy : Bool) : ∀ body : List Stmt,
    bodyEffects lazy body ⊆ effects → Permitted effects (executeMaybe lazy body)
  | [],_ => .pure _
  | s :: ss,covered => by
    rw [executeMaybe]
    have both := List.append_subset.1 covered
    have rest := executeMaybe_permitted lazy ss both.2
    refine .bind (execute_permitted lazy s both.1).perhaps fun ran => ?_
    dsimp only
    split
    · exact .bind (bindNames_permitted lazy s both.1) fun _ => rest
    · exact rest
theorem define_permitted {effects : List Effect} (lazy : Bool) : ∀ definition : Definition,
    definition.effects lazy ⊆ effects → Permitted effects (define lazy definition)
  | .classDef _ bases body,covered => by
    rw [define]
    have both := List.append_subset.1 covered
    refine .bind (evaluateBases_permitted bases both.1) fun _ => ?_
    refine .inClass (executeAll_permitted lazy body (List.Subset.refl _)) fun e member outlives => ?_
    exact both.2 (List.mem_filter.2 ⟨member,outlives⟩)
  | .function _ parameters hint body,covered => by
    rw [define]
    have both := List.append_subset.1 covered
    exact .bind (evaluateEach_permitted _ both.1) fun _ => .defer (both.2 (by simp))
theorem executeBranches_permitted {effects : List Effect} (lazy certain : Bool) :
    ∀ branches : List Branch, branchEffects lazy branches ⊆ effects →
      Permitted effects (executeBranches lazy certain branches)
  | [],_ => .pure _
  | .mk condition body :: rest,covered => by
    have all := List.append_subset.1 covered
    have parts := List.append_subset.1 all.1
    have decided : Permitted effects (decideBranch certain condition) := by
      cases condition with
      | none => exact .pure _
      | some c =>
        have decided := evaluate_permitted c parts.1
        rw [decideBranch]
        split
        · exact .bind decided fun _ => .pure _
        · exact .bind decided.perhaps fun _ => .pure _
    rw [executeBranches_cons]
    refine .bind decided fun truth => ?_
    rcases truth with _ | _ | _
    · exact .bind (executeMaybe_permitted lazy body parts.2) fun _ =>
        executeBranches_permitted lazy false rest all.2
    · exact executeBranches_permitted lazy certain rest all.2
    · rw [enter]
      split
      · exact executeAll_permitted lazy body parts.2
      · exact executeMaybe_permitted lazy body parts.2
theorem handle_permitted {effects : List Effect} (lazy : Bool) (r : Raised)
    (fault : r.isSyntaxError → .halt ∈ effects) : ∀ handlers : List Handler,
      handlerEffects lazy handlers ⊆ effects → Permitted effects (handle lazy r handlers)
  | [],_ => .raise fault
  | .mk items body :: hs,covered => by
    rw [handle]
    have all := List.append_subset.1 covered
    have parts := List.append_subset.1 all.1
    split
    · exact .bind (bindAliases_permitted items parts.1) fun _ =>
        executeAll_permitted lazy body parts.2
    · exact handle_permitted lazy r fault hs all.2
theorem executeCases_permitted {effects : List Effect} (lazy : Bool) : ∀ cases : List Case,
    caseEffects lazy cases ⊆ effects → Permitted effects (executeCases lazy cases)
  | [],_ => .pure _
  | .mk patterns condition body :: cs,covered => by
    rw [executeCases]
    have all := List.append_subset.1 covered
    have parts := List.append_subset.1 all.1
    have header := List.append_subset.1 parts.1
    exact .bind (.storeAll fun n member => header.1 (List.mem_map_of_mem member)) fun _ =>
      .bind (evaluateEach_permitted condition header.2).perhaps fun _ =>
        .bind (executeMaybe_permitted lazy body parts.2) fun _ => executeCases_permitted lazy cs all.2
end

end Excerpt.Execution
