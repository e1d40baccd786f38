import Excerpt.Execution.Run
import Excerpt.Proofs.PermittedRun

/-!
Annotations of a program. With lazy annotations a program runs as it does without any: neither a run
nor a scan of its functions and classes looks at them.
-/
namespace Excerpt.Program

mutual
/-- An assignment without annotations, with all assignments on its right side; any other expression as
it is. -/
def Expr.unhinted : Expr → Expr
  | .assignment target _ value => .assignment target none (unhintedOf value)
  | e => e
def unhintedOf : Option Expr → Option Expr
  | none => none
  | some e => some e.unhinted
end

def Parameter.unhinted : Parameter → Parameter
  | .mk target _ default => .mk target none default

mutual
/-- A statement without the annotations of its assignments and functions. -/
def Stmt.unhinted : Stmt → Stmt
  | .evaluate items => .evaluate (items.map Expr.unhinted)
  | .define decorations definition => .define decorations definition.unhinted
  | .branch branches => .branch (unhintedBranches branches)
  | .forLoop target iterable body otherwise =>
    .forLoop target iterable (unhintedBody body) (unhintedBody otherwise)
  | .whileLoop condition body otherwise =>
    .whileLoop condition (unhintedBody body) (unhintedBody otherwise)
  | .attempt body handlers otherwise final =>
    .attempt (unhintedBody body) (unhintedHandlers handlers) (unhintedBody otherwise)
      (unhintedBody final)
  | .within items body => .within items (unhintedBody body)
  | .choose subjects cases => .choose subjects (unhintedCases cases)
  | s => s
def unhintedBody : List Stmt → List Stmt
  | [] => []
  | s :: ss => s.unhinted :: unhintedBody ss
def Definition.unhinted : Definition → Definition
  | .classDef name bases body => .classDef name bases (unhintedBody body)
  | .function name parameters _ body =>
    .function name (parameters.map Parameter.unhinted) none (unhintedBody body)
def unhintedBranches : List Branch → List Branch
  | [] => []
  | .mk condition body :: bs => .mk condition (unhintedBody body) :: unhintedBranches bs
def unhintedHandlers : List Handler → List Handler
  | [] => []
  | .mk items body :: hs => .mk items (unhintedBody body) :: unhintedHandlers hs
def unhintedCases : List Case → List Case
  | [] => []
  | .mk patterns condition body :: cs =>
    .mk patterns condition (unhintedBody body) :: unhintedCases cs
end

mutual
/-- Where annotations do not count, a scan does not find them. -/
theorem Expr.findings_unhinted :
    ∀ e : Expr, e.unhinted.findings false .read = e.findings false .read
  | .assignment target hint value => by
    simp only [Expr.unhinted,Expr.findings,findingsOf_unhinted value,Bool.false_eq_true,if_false]
  | .name _ _ | .none | .truth _ | .integer _ | .blank | .group _ | .parens _ | .sequence _ _
  | .splat _ _ | .member _ _ | .call _ _ | .subscript _ _ | .keyword _ _ | .walrus _ _
  | .aliased _ _ | .conditional _ _ _ | .conjunction _ _ | .disjunction _ _ | .negation _
  | .comparison _ _ | .binary _ _ | .lambda _ _ | .comprehension _ | .suspension _ _
  | .augmented _ _ => rfl
theorem findingsOf_unhinted :
    ∀ e? : Option Expr, findingsOf false (unhintedOf e?) = findingsOf false e?
  | none => rfl
  | some e => e.findings_unhinted
end

theorem findingsAll_unhinted (items : List Expr) :
    findingsAll false .read (items.map Expr.unhinted) = findingsAll false .read items := by
  induction items with
  | nil => rfl
  | cons e es ih => simp only [List.map_cons,findingsAll,e.findings_unhinted,ih]

theorem targetFindings_unhinted (ps : List Parameter) :
    targetFindings (ps.map Parameter.unhinted) = targetFindings ps := by
  induction ps with
  | nil => rfl
  | cons p ps ih =>
    obtain ⟨target,hint,default⟩ := p
    simp only [List.map_cons,targetFindings,Parameter.unhinted,Parameter.targetFindings,ih]

/-- Lazy annotations are not evaluated with a definition. -/
theorem definitionTime_unhinted (ps : List Parameter) (hint : Option Expr) :
    definitionTime true (ps.map Parameter.unhinted) none = definitionTime true ps hint := by
  simp only [definitionTime,if_true,List.append_nil,List.flatMap_map]
  congr 1
  funext p
  cases p
  rfl

@[simp] theorem Definition.name_unhinted (d : Definition) : d.unhinted.name = d.name := by
  cases d <;> rfl

mutual
theorem Stmt.findings_unhinted :
    ∀ s : Stmt, s.unhinted.findings true false = s.findings true false
  | .evaluate items => findingsAll_unhinted items
  | .define decorations definition => by
    simp only [Stmt.unhinted,Stmt.findings,definition.findings_unhinted]
  | .branch branches => branchFindings_unhinted branches
  | .forLoop target iterable body otherwise => by
    simp only [Stmt.unhinted,Stmt.findings,bodyFindings_unhinted]
  | .whileLoop condition body otherwise => by
    simp only [Stmt.unhinted,Stmt.findings,bodyFindings_unhinted]
  | .attempt body handlers otherwise final => by
    simp only [Stmt.unhinted,Stmt.findings,bodyFindings_unhinted,handlerFindings_unhinted]
  | .within items body => by simp only [Stmt.unhinted,Stmt.findings,bodyFindings_unhinted]
  | .choose subjects cases => by simp only [Stmt.unhinted,Stmt.findings,caseFindings_unhinted]
  | .skip | .importing _ | .delete _ | .raising _ _ | .result _ _ | .globals _ | .nonlocals _
  | .typeAlias _ _ _ => rfl
theorem bodyFindings_unhinted :
    ∀ ss : List Stmt, bodyFindings true false (unhintedBody ss) = bodyFindings true false ss
  | [] => rfl
  | s :: ss => by simp only [unhintedBody,bodyFindings,s.findings_unhinted,bodyFindings_unhinted ss]
theorem Definition.findings_unhinted :
    ∀ d : Definition, d.unhinted.findings true false = d.findings true false
  | .classDef name bases body => by
    simp only [Definition.unhinted,Definition.findings,Bool.not_true,bodyFindings_unhinted body]
  | .function name parameters hint body => by
    simp only [Definition.unhinted,Definition.findings,definitionTime_unhinted parameters hint,
      targetFindings_unhinted,bodyFindings_unhinted body]
theorem branchFindings_unhinted :
    ∀ bs : List Branch, branchFindings true false (unhintedBranches bs) = branchFindings true false bs
  | [] => rfl
  | .mk condition body :: bs => by
    simp only [unhintedBranches,branchFindings,bodyFindings_unhinted body,branchFindings_unhinted bs]
theorem handlerFindings_unhinted :
    ∀ hs : List Handler,
      handlerFindings true false (unhintedHandlers hs) = handlerFindings true false hs
  | [] => rfl
  | .mk items body :: hs => by
    simp only [unhintedHandlers,handlerFindings,bodyFindings_unhinted body,handlerFindings_unhinted hs]
theorem caseFindings_unhinted :
    ∀ cs : List Case, caseFindings true false (unhintedCases cs) = caseFindings true false cs
  | [] => rfl
  | .mk patterns condition body :: cs => by
    simp only [unhintedCases,caseFindings,bodyFindings_unhinted body,caseFindings_unhinted cs]
end

end Excerpt.Program

namespace Excerpt.Execution
open Excerpt.Program Exec

mutual
/-- An assignment with lazy annotations does not evaluate them. -/
theorem perform_unhinted : ∀ e : Expr, perform true e.unhinted = perform true e
  | .assignment target hint value => by
    simp only [Expr.unhinted,perform,performOption_unhinted value,Bool.not_true,Bool.false_eq_true,
      if_false]
  | .name _ _ | .none | .truth _ | .integer _ | .blank | .group _ | .parens _ | .sequence _ _
  | .splat _ _ | .member _ _ | .call _ _ | .subscript _ _ | .keyword _ _ | .walrus _ _
  | .aliased _ _ | .conditional _ _ _ | .conjunction _ _ | .disjunction _ _ | .negation _
  | .comparison _ _ | .binary _ _ | .lambda _ _ | .comprehension _ | .suspension _ _
  | .augmented _ _ => rfl
theorem performOption_unhinted :
    ∀ e? : Option Expr, performOption true (unhintedOf e?) = performOption true e?
  | none => rfl
  | some e => by simp only [unhintedOf,performOption,perform_unhinted e]
end

theorem performEach_unhinted (items : List Expr) :
    performEach true (items.map Expr.unhinted) = performEach true items := by
  induction items with
  | nil => rfl
  | cons e es ih => simp only [List.map_cons,performEach,perform_unhinted,ih]

theorem bindTargets_unhinted (items : List Expr) :
    bindTargets (items.map Expr.unhinted) = bindTargets items := by
  induction items with
  | nil => rfl
  | cons e es ih =>
    rw [List.map_cons]
    cases e <;> simp only [Expr.unhinted,bindTargets,ih]

theorem bindNames_unhinted (s : Stmt) : bindNames s.unhinted = bindNames s := by
  cases s with
  | evaluate items => exact bindTargets_unhinted items
  | define decorations definition =>
    simp only [Stmt.unhinted,bindNames,Definition.name_unhinted]
  | _ => rfl

theorem functionScope_unhinted (ps : List Parameter) (body : List Stmt) :
    functionScope true (ps.map Parameter.unhinted) (unhintedBody body) = functionScope true ps body := by
  simp only [functionScope,targetFindings_unhinted,bodyFindings_unhinted]

mutual
/-- With lazy annotations a statement runs as it does without any. -/
theorem execute_unhinted : ∀ s : Stmt, execute true s.unhinted = execute true s
  | .evaluate items => by simp only [Stmt.unhinted,execute,performEach_unhinted]
  | .define decorations definition => by
    simp only [Stmt.unhinted,execute,define_unhinted definition,Definition.name_unhinted]
  | .branch branches => by simp only [Stmt.unhinted,execute,executeBranches_unhinted true branches]
  | .forLoop target iterable body otherwise => by
    simp only [Stmt.unhinted,execute,executeAll_unhinted,executeMaybe_unhinted]
  | .whileLoop condition body otherwise => by
    simp only [Stmt.unhinted,execute,executeAll_unhinted,executeMaybe_unhinted]
  | .attempt body handlers otherwise final => by
    simp only [Stmt.unhinted,execute,executeAll_unhinted,handle_unhinted]
  | .within items body => by simp only [Stmt.unhinted,execute,executeAll_unhinted body]
  | .choose subjects cases => by simp only [Stmt.unhinted,execute,executeCases_unhinted cases]
  | .skip | .importing _ | .delete _ | .raising _ _ | .result _ _ | .globals _ | .nonlocals _
  | .typeAlias _ _ _ => rfl
theorem executeAll_unhinted :
    ∀ ss : List Stmt, executeAll true (unhintedBody ss) = executeAll true ss
  | [] => rfl
  | s :: ss => by simp only [unhintedBody,executeAll,execute_unhinted s,executeAll_unhinted ss]
theorem executeMaybe_unhinted :
    ∀ ss : List Stmt, executeMaybe true (unhintedBody ss) = executeMaybe true ss
  | [] => rfl
  | s :: ss => by
    simp only [unhintedBody,executeMaybe,execute_unhinted s,bindNames_unhinted s,
      executeMaybe_unhinted ss]
theorem define_unhinted : ∀ d : Definition, define true d.unhinted = define true d
  | .classDef name bases body => by simp only [Definition.unhinted,define,executeAll_unhinted body]
  | .function name parameters hint body => by
    simp only [Definition.unhinted,define,definitionTime_unhinted parameters hint,
      functionScope_unhinted]
theorem executeBranches_unhinted (certain : Bool) :
    ∀ bs : List Branch,
      executeBranches true certain (unhintedBranches bs) = executeBranches true certain bs
  | [] => rfl
  | .mk condition body :: bs => by
    rw [unhintedBranches,executeBranches_cons,executeBranches_cons]
    congr 1
    funext truth
    rcases truth with _ | _ | _ <;>
      simp only [enter,executeAll_unhinted body,executeMaybe_unhinted body,
        executeBranches_unhinted _ bs]
theorem handle_unhinted (r : Raised) :
    ∀ hs : List Handler, handle true r (unhintedHandlers hs) = handle true r hs
  | [] => rfl
  | .mk items body :: hs => by
    simp only [unhintedHandlers,handle,executeAll_unhinted body,handle_unhinted r hs]
theorem executeCases_unhinted :
    ∀ cs : List Case, executeCases true (unhintedCases cs) = executeCases true cs
  | [] => rfl
  | .mk patterns condition body :: cs => by
    simp only [unhintedCases,executeCases,executeMaybe_unhinted body,executeCases_unhinted cs]
end

theorem isLazy_unhinted (program : List Stmt) : isLazy (unhintedBody program) = isLazy program := by
  induction program with
  | nil => rfl
  | cons s ss ih =>
    simp only [isLazy,unhintedBody,List.any_cons] at ih ⊢
    rw [ih]
    cases s <;> rfl

/-- A program that makes its annotations lazy runs as it does without them. -/
theorem run_unhinted (known : List String) {program : List Stmt} (lazy : isLazy program) :
    run known (unhintedBody program) = run known program := by
  simp only [run,isLazy_unhinted,lazy,executeAll_unhinted]

end Excerpt.Execution
