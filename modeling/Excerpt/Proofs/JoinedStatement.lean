import Excerpt.Execution.Run
import Excerpt.Proofs.JoinedExpression
import Excerpt.Proofs.PermittedRun

/-!
Blanks and skipped statements in a program. Programs that differ in those that nothing depends on look
up the same names and run alike.
-/
namespace Excerpt.Program
open Excerpt.Execution

mutual
/-- The second statement is the first without some of the blanks and skipped statements in it. Where it
is live, a run does not depend on those that are left out; elsewhere only the names in it count. -/
inductive Stmt.Joins : Bool → Stmt → Stmt → Prop
  | same (live : Bool) (s : Stmt) : Stmt.Joins live s s
  | evaluate {live : Bool} {items items' : List Expr} (parts : JoinsAll live items items') :
    Stmt.Joins live (.evaluate items) (.evaluate items')
  | define {live : Bool} {ds ds' : List Decoration} {d d' : Definition}
    (names : ∀ hinted, ds'.flatMap (·.findings hinted) = ds.flatMap (·.findings hinted))
    (values : live → decoratorValues ds' = decoratorValues ds) (definition : Definition.Joins live d d') :
    Stmt.Joins live (.define ds d) (.define ds' d')
  | branch {live : Bool} {bs bs' : List Branch} (branches : BranchesJoin live bs bs') :
    Stmt.Joins live (.branch bs) (.branch bs')
  | forLoop {live : Bool} {target target' iterable iterable' : Expr}
    {body body' otherwise otherwise' : List Stmt} (first : target.Joins live target')
    (second : iterable.Joins live iterable') (runs : BodyJoins live body body')
    (ends : BodyJoins live otherwise otherwise') :
    Stmt.Joins live (.forLoop target iterable body otherwise) (.forLoop target' iterable' body' otherwise')
  | whileLoop {live : Bool} {condition condition' : Expr} {body body' otherwise otherwise' : List Stmt}
    (first : condition.Joins live condition') (runs : BodyJoins live body body')
    (ends : BodyJoins live otherwise otherwise') :
    Stmt.Joins live (.whileLoop condition body otherwise) (.whileLoop condition' body' otherwise')
  | attempt {live : Bool} {body body' otherwise otherwise' final final' : List Stmt}
    {hs hs' : List Handler} (runs : BodyJoins live body body') (handlers : HandlersJoin live hs hs')
    (ends : BodyJoins live otherwise otherwise') (last : BodyJoins live final final') :
    Stmt.Joins live (.attempt body hs otherwise final) (.attempt body' hs' otherwise' final')
  | within {live : Bool} {items items' : List Expr} {body body' : List Stmt}
    (parts : JoinsAll live items items') (runs : BodyJoins live body body') :
    Stmt.Joins live (.within items body) (.within items' body')
  | choose {live : Bool} {subjects subjects' : List Expr} {cs cs' : List Case}
    (parts : JoinsAll live subjects subjects') (length : live → subjects'.length = subjects.length)
    (choices : CasesJoin live cs cs') : Stmt.Joins live (.choose subjects cs) (.choose subjects' cs')
  | delete {live : Bool} {targets targets' : List Expr} (parts : JoinsAll live targets targets') :
    Stmt.Joins live (.delete targets) (.delete targets')
  | raising {live : Bool} {items items' : List Expr} {thrown thrown' : Option Thrown}
    (parts : JoinsAll live items items') (throws : live → thrown' = thrown) :
    Stmt.Joins live (.raising items thrown) (.raising items' thrown')
  | result {live : Bool} {place : Text.Position} {items items' : List Expr}
    (parts : JoinsAll live items items') : Stmt.Joins live (.result place items) (.result place items')
  | typeAlias {live : Bool} {name : Option String} {target target' value value' : Option Expr}
    (first : JoinsOption false target target') (second : JoinsOption false value value') :
    Stmt.Joins live (.typeAlias name target value) (.typeAlias name target' value')
inductive BodyJoins : Bool → List Stmt → List Stmt → Prop
  | nil {live : Bool} : BodyJoins live [] []
  | cons {live : Bool} {s s' : Stmt} {ss ss' : List Stmt} (first : Stmt.Joins live s s')
    (rest : BodyJoins live ss ss') : BodyJoins live (s :: ss) (s' :: ss')
  | skip {live : Bool} {ss ss' : List Stmt} (rest : BodyJoins live ss ss') :
    BodyJoins live (.skip :: ss) ss'
inductive Definition.Joins : Bool → Definition → Definition → Prop
  | classDef {live : Bool} {name : String} {bases bases' : List Expr} {body body' : List Stmt}
    (parts : JoinsAll live bases bases') (runs : BodyJoins live body body') :
    Definition.Joins live (.classDef name bases body) (.classDef name bases' body')
  | function {live : Bool} {name : String} {ps ps' : List Parameter} {hint hint' : Option Expr}
    {body body' : List Stmt} (heads : ParametersJoin live ps ps') (result : JoinsOption live hint hint')
    (inside : BodyJoins false body body') :
    Definition.Joins live (.function name ps hint body) (.function name ps' hint' body')
inductive BranchesJoin : Bool → List Branch → List Branch → Prop
  | nil {live : Bool} : BranchesJoin live [] []
  | cons {live : Bool} {condition condition' : Option Expr} {body body' : List Stmt} {bs bs' : List Branch}
    (first : JoinsOption live condition condition') (runs : BodyJoins live body body')
    (rest : BranchesJoin live bs bs') :
    BranchesJoin live (.mk condition body :: bs) (.mk condition' body' :: bs')
inductive HandlersJoin : Bool → List Handler → List Handler → Prop
  | nil {live : Bool} : HandlersJoin live [] []
  | cons {live : Bool} {items items' : List Expr} {body body' : List Stmt} {hs hs' : List Handler}
    (parts : JoinsAll false items items') (caught : live → catches items' = catches items)
    (aliases : live → bindAliases items' = bindAliases items)
    (runs : BodyJoins live body body') (rest : HandlersJoin live hs hs') :
    HandlersJoin live (.mk items body :: hs) (.mk items' body' :: hs')
inductive CasesJoin : Bool → List Case → List Case → Prop
  | nil {live : Bool} : CasesJoin live [] []
  | cons {live : Bool} {patterns : List PatternName} {condition condition' : List Expr}
    {body body' : List Stmt} {cs cs' : List Case} (parts : JoinsAll live condition condition')
    (runs : BodyJoins live body body') (rest : CasesJoin live cs cs') :
    CasesJoin live (.mk patterns condition body :: cs) (.mk patterns condition' body' :: cs')
end

theorem Definition.Joins.name_eq {live : Bool} {d d' : Definition} (joins : d.Joins live d') :
    d'.name = d.name := by
  cases joins <;> rfl

theorem JoinsAll.append {live : Bool} {es es' fs fs' : List Expr} (front : JoinsAll live es es')
    (back : JoinsAll live fs fs') : JoinsAll live (es ++ fs) (es' ++ fs') := by
  induction es generalizing es' with
  | nil =>
    cases front
    exact back
  | cons e es ih =>
    cases front with
    | cons first rest => exact .cons first (ih rest)
    | blank rest => exact .blank (ih rest)

theorem JoinsOption.toList {live : Bool} {e e' : Option Expr} (joins : JoinsOption live e e') :
    JoinsAll live e.toList e'.toList := by
  cases joins with
  | none => exact .nil
  | some part => exact .cons part .nil

/-- What is evaluated with a definition lacks only blanks. -/
theorem ParametersJoin.definitionTime {live : Bool} {ps ps' : List Parameter} {hint hint' : Option Expr}
    (heads : ParametersJoin live ps ps') (result : JoinsOption live hint hint') (lazy : Bool) :
    JoinsAll live (definitionTime lazy ps hint) (definitionTime lazy ps' hint') := by
  have eager {e e' : Option Expr} (joins : JoinsOption live e e') :
      JoinsAll live (if lazy then [] else e.toList) (if lazy then [] else e'.toList) := by
    cases lazy with
    | false => exact joins.toList
    | true => exact .nil
  refine .append ?_ (eager result)
  induction ps generalizing ps' with
  | nil =>
    cases heads
    exact .nil
  | cons p ps ih =>
    cases heads with
    | cons first second third rest =>
      exact .append (.append (eager second) third.toList) (ih rest)

mutual
/-- The names in a statement do not depend on its blanks. -/
theorem Stmt.Joins.findings_eq : ∀ {live : Bool} {s s' : Stmt}, s.Joins live s' → ∀ lazy hinted : Bool,
    s'.findings lazy hinted = s.findings lazy hinted
  | _,_,_,.same _ _,_,_ => rfl
  | _,_,_,.evaluate parts,_,_ => by simp only [Stmt.findings,parts.findings_eq]
  | _,_,_,.define names _ definition,_,_ => by
    simp only [Stmt.findings,names,definition.findings_eq]
  | _,_,_,.branch branches,_,_ => by simp only [Stmt.findings,branches.findings_eq]
  | _,_,_,.forLoop first second runs ends,_,_ => by
    simp only [Stmt.findings,first.findings_eq,second.findings_eq,runs.findings_eq,ends.findings_eq]
  | _,_,_,.whileLoop first runs ends,_,_ => by
    simp only [Stmt.findings,first.findings_eq,runs.findings_eq,ends.findings_eq]
  | _,_,_,.attempt runs handlers ends last,_,_ => by
    simp only [Stmt.findings,runs.findings_eq,handlers.findings_eq,ends.findings_eq,last.findings_eq]
  | _,_,_,.within parts runs,_,_ => by simp only [Stmt.findings,parts.findings_eq,runs.findings_eq]
  | _,_,_,.choose parts _ choices,_,_ => by
    simp only [Stmt.findings,parts.findings_eq,choices.findings_eq]
  | _,_,_,.delete parts,_,_ => by simp only [Stmt.findings,parts.findings_eq]
  | _,_,_,.raising parts _,_,_ => by simp only [Stmt.findings,parts.findings_eq]
  | _,_,_,.result parts,_,_ => by simp only [Stmt.findings,parts.findings_eq]
  | _,_,_,.typeAlias .none second,_,_ => by simp only [Stmt.findings,second.findings_eq]
  | _,_,_,.typeAlias (.some part) second,_,_ => by
    simp only [Stmt.findings,part.findings_eq,second.findings_eq]
theorem BodyJoins.findings_eq : ∀ {live : Bool} {ss ss' : List Stmt}, BodyJoins live ss ss' →
    ∀ lazy hinted : Bool, bodyFindings lazy hinted ss' = bodyFindings lazy hinted ss
  | _,_,_,.nil,_,_ => rfl
  | _,_,_,.cons first rest,_,_ => by simp only [bodyFindings,first.findings_eq,rest.findings_eq]
  | _,_,_,.skip rest,_,_ => by
    simp only [bodyFindings,Stmt.findings,List.nil_append,rest.findings_eq]
theorem Definition.Joins.findings_eq : ∀ {live : Bool} {d d' : Definition}, d.Joins live d' →
    ∀ lazy hinted : Bool, d'.findings lazy hinted = d.findings lazy hinted
  | _,_,_,.classDef parts runs,_,_ => by
    simp only [Definition.findings,parts.findings_eq,runs.findings_eq]
  | _,_,_,.function heads result inside,lazy,_ => by
    simp only [Definition.findings,(heads.definitionTime result lazy).findings_eq,heads.targets_eq,
      inside.findings_eq]
theorem BranchesJoin.findings_eq : ∀ {live : Bool} {bs bs' : List Branch}, BranchesJoin live bs bs' →
    ∀ lazy hinted : Bool, branchFindings lazy hinted bs' = branchFindings lazy hinted bs
  | _,_,_,.nil,_,_ => rfl
  | _,_,_,.cons first runs rest,_,_ => by
    simp only [branchFindings,first.findings_eq,runs.findings_eq,rest.findings_eq]
theorem HandlersJoin.findings_eq : ∀ {live : Bool} {hs hs' : List Handler}, HandlersJoin live hs hs' →
    ∀ lazy hinted : Bool, handlerFindings lazy hinted hs' = handlerFindings lazy hinted hs
  | _,_,_,.nil,_,_ => rfl
  | _,_,_,.cons parts _ _ runs rest,_,_ => by
    simp only [handlerFindings,parts.findings_eq,runs.findings_eq,rest.findings_eq]
theorem CasesJoin.findings_eq : ∀ {live : Bool} {cs cs' : List Case}, CasesJoin live cs cs' →
    ∀ lazy hinted : Bool, caseFindings lazy hinted cs' = caseFindings lazy hinted cs
  | _,_,_,.nil,_,_ => rfl
  | _,_,_,.cons parts runs rest,_,_ => by
    simp only [caseFindings,parts.findings_eq,runs.findings_eq,rest.findings_eq]
end

end Excerpt.Program

namespace Excerpt.Execution
open Excerpt.Program Exec

theorem bindNames_joins {s s' : Stmt} (joins : s.Joins true s') : bindNames s' = bindNames s := by
  cases joins with
  | evaluate parts => exact bindTargets_joins parts
  | define names values definition => simp only [bindNames,definition.name_eq]
  | _ => rfl

theorem decideBranch_joins {e e' : Option Expr} (joins : JoinsOption true e e') (certain : Bool) :
    decideBranch certain e' = decideBranch certain e := by
  cases joins with
  | none => rfl
  | some part => simp only [decideBranch,evaluate_joins part]

theorem perhaps_then {α : Type} (step : Exec α) (next : Exec Unit) :
    (perhaps step >>= fun _ => next) = perhaps (step >>= fun _ => pure ()) >>= fun _ => next := by
  funext s
  rw [perhaps,perhaps,bind_assoc,bind_assoc,attempt_bind_apply,attempt_bind_apply,bind_apply step]
  rcases step s with ⟨r | a,after⟩
  · dsimp only
    cases r.isSyntaxError <;> rfl
  · rfl

/-- What may not be evaluated at all may lack blanks if its values are not used. -/
theorem perhaps_joins {es es' : List Expr} (joins : JoinsAll true es es') (next : Exec Unit) :
    (perhaps (evaluateEach es') >>= fun _ => next) = perhaps (evaluateEach es) >>= fun _ => next := by
  rw [perhaps_then,evaluateEach_then joins,← perhaps_then]

/-- The values of decorators depend on the first item of each. -/
theorem decoratorValues_joins {α : Type} {f f' : α → Decoration} {ts : List α}
    (each : ∀ t ∈ ts, JoinsOption true (f t).items.head? (f' t).items.head?) :
    decoratorValues (ts.map f') = decoratorValues (ts.map f) := by
  induction ts with
  | nil => rfl
  | cons t ts ih =>
    have first := each t (.head ts)
    have same := ih fun u member => each u (.tail t member)
    simp only [List.map_cons,decoratorValues,same]
    generalize (f t).items = items,(f' t).items = items' at first ⊢
    rcases items with _ | ⟨e,es⟩ <;> rcases items' with _ | ⟨e',es'⟩
    · rfl
    · cases first
    · cases first
    · cases first with
      | some part => simp only [evaluate_joins part]

theorem evaluateHead_joins {es es' : List Expr} (joins : JoinsAll true es es')
    (length : es'.length = es.length) : evaluateOption es'.head? = evaluateOption es.head? := by
  cases es with
  | nil => rw [List.eq_nil_of_length_eq_zero length]
  | cons e es =>
    obtain ⟨_,_,rfl,first,_⟩ := joins.cons_inv length
    exact evaluateOption_joins (.some first)

mutual
/-- A run does not notice blanks and skipped statements that are left out. -/
theorem execute_joins : ∀ {s s' : Stmt}, s.Joins true s' → ∀ lazy : Bool, execute lazy s' = execute lazy s
  | _,_,.same _ _,_ => rfl
  | _,_,.evaluate parts,_ => by simp only [execute,performEach_joins parts]
  | _,_,.define _ values definition,_ => by
    simp only [execute,values rfl,define_joins definition,definition.name_eq]
  | _,_,.branch branches,_ => by simp only [execute,executeBranches_joins branches]
  | _,_,.forLoop first second runs ends,_ => by
    simp only [execute,evaluate_joins second,assign_joins first,executeAll_joins runs,executeAll_joins ends,
      executeMaybe_joins runs,executeMaybe_joins ends]
  | _,_,.whileLoop first runs ends,_ => by
    simp only [execute,evaluate_joins first,executeAll_joins runs,executeAll_joins ends,
      executeMaybe_joins runs,executeMaybe_joins ends]
  | _,_,.attempt runs handlers ends last,_ => by
    simp only [execute,executeAll_joins runs,handle_joins handlers,executeAll_joins ends,
      executeAll_joins last]
  | _,_,.within parts runs,_ => by simp only [execute,enterEach_joins parts,executeAll_joins runs]
  | _,_,.choose parts length choices,_ => by
    simp only [execute,evaluateHead_joins parts (length rfl),executeCases_joins choices]
  | _,_,.delete parts,_ => by simp only [execute,removeEach_joins parts]
  | _,_,.raising parts throws,_ => by simp only [execute,throws rfl,evaluateEach_then parts]
  | _,_,.result _,_ => rfl
  | _,_,.typeAlias _ _,_ => rfl
termination_by s => sizeOf s
theorem executeAll_joins : ∀ {ss ss' : List Stmt}, BodyJoins true ss ss' → ∀ lazy : Bool,
    executeAll lazy ss' = executeAll lazy ss
  | _,_,.nil,_ => rfl
  | _,_,.cons first rest,_ => by simp only [executeAll,execute_joins first,executeAll_joins rest]
  | _,_,.skip rest,_ => by
    rw [executeAll_joins rest]
    rfl
termination_by ss => sizeOf ss
theorem executeMaybe_joins : ∀ {ss ss' : List Stmt}, BodyJoins true ss ss' → ∀ lazy : Bool,
    executeMaybe lazy ss' = executeMaybe lazy ss
  | _,_,.nil,_ => rfl
  | _,_,.cons first rest,_ => by
    simp only [executeMaybe,execute_joins first,bindNames_joins first,executeMaybe_joins rest]
  | _,_,.skip rest,_ => by
    rw [executeMaybe_joins rest]
    rfl
termination_by ss => sizeOf ss
theorem define_joins : ∀ {d d' : Definition}, d.Joins true d' → ∀ lazy : Bool,
    define lazy d' = define lazy d
  | _,_,.classDef parts runs,_ => by simp only [define,evaluateBases_joins parts,executeAll_joins runs]
  | _,_,.function heads result inside,lazy => by
    simp only [define,evaluateEach_then (heads.definitionTime result lazy),functionScope,heads.targets_eq,
      inside.findings_eq]
termination_by d => sizeOf d
theorem executeBranches_joins : ∀ {bs bs' : List Branch}, BranchesJoin true bs bs' →
    ∀ lazy certain : Bool, executeBranches lazy certain bs' = executeBranches lazy certain bs
  | _,_,.nil,_,_ => rfl
  | _,_,.cons first runs rest,_,_ => by
    rw [executeBranches_cons,executeBranches_cons,decideBranch_joins first]
    congr 1
    funext truth
    rcases truth with _ | _ | _ <;>
      simp only [enter,executeAll_joins runs,executeMaybe_joins runs,executeBranches_joins rest]
termination_by bs => sizeOf bs
theorem handle_joins : ∀ {hs hs' : List Handler}, HandlersJoin true hs hs' → ∀ (lazy : Bool) (r : Raised),
    handle lazy r hs' = handle lazy r hs
  | _,_,.nil,_,_ => rfl
  | _,_,.cons _ caught aliases runs rest,_,_ => by
    simp only [handle,caught rfl,aliases rfl,executeAll_joins runs,handle_joins rest]
termination_by hs => sizeOf hs
theorem executeCases_joins : ∀ {cs cs' : List Case}, CasesJoin true cs cs' → ∀ lazy : Bool,
    executeCases lazy cs' = executeCases lazy cs
  | _,_,.nil,_ => rfl
  | _,_,.cons parts runs rest,_ => by
    simp only [executeCases,executeMaybe_joins runs,executeCases_joins rest,perhaps_joins parts]
termination_by cs => sizeOf cs
end

theorem isLazy_joins {live : Bool} {ss ss' : List Stmt} (joins : BodyJoins live ss ss') :
    isLazy ss' = isLazy ss := by
  induction ss generalizing ss' with
  | nil =>
    cases joins
    rfl
  | cons s ss ih =>
    cases joins with
    | cons first rest =>
      have same := ih rest
      simp only [isLazy,List.any_cons] at same ⊢
      rw [same]
      cases first <;> rfl
    | skip rest => exact ih rest

/-- A live program runs as it does without its blanks. -/
theorem run_joins {ss ss' : List Stmt} (joins : BodyJoins true ss ss') (known : List String) :
    run known ss' = run known ss := by
  simp only [run,isLazy_joins joins,executeAll_joins joins]

end Excerpt.Execution
