import Excerpt.Proofs.Agreement
import Excerpt.Proofs.BlockGrammar
import Excerpt.Proofs.StatementNames
import Excerpt.Proofs.ValidFunctions
import Excerpt.Extraction

/-!
What running a class depends on. Of the names of the module, only those that are in use in the
class matter: to the run of the class itself, and to the check of the scopes that it defers. So
no import is missed that is left out because it binds none of them.
-/
namespace Excerpt
open Excerpt.Syntax Excerpt.Program Excerpt.Execution

/-- The classes of a text; a text that is refused has none. -/
def classesOf (text : String) : List Tree :=
  match Source.read text with
  | .error _ => []
  | .ok source => source.classNodes

/-- The classes of a source that was read stand where statements stand. -/
theorem Source.placed_of_mem_classNodes {text : String} {source : Source} {k : Tree}
    (read : Source.read text = .ok source) (member : k ∈ source.classNodes) :
    k.isNamed ∧ k.fits .statement := by
  obtain ⟨among,named⟩ := List.mem_filter.1 (List.mem_filter.1 member).1
  exact ⟨named,(placed_of_readTree (Source.readTree_of_read read)).2 k among⟩

theorem name_definitionOf {symbol : Symbol} (isClass : symbol = .named .classDefinition)
    (cs : List Tree) (body : List Stmt) : (definitionOf symbol cs body).name =
      ((cs.find? (·.field == some .name)).map Tree.text).getD "" := by
  simp [definitionOf,isClass,Definition.name]

/-- Decorators stand above the first definition. -/
theorem name_decorated {c : Tree} (isClass : c.is .classDefinition) :
    ∀ {cs : List Tree}, cs.find? (·.field == some .definition) = some c →
      (decorated cs).name = (c.childText .name).getD ""
  | .node l ds :: cs,found => by
    rw [List.find?_cons] at found
    rw [decorated]
    split at found
    · next role =>
      cases found
      rw [if_pos (by simpa using role)]
      exact name_definitionOf (beq_iff_eq.1 isClass) ds _
    · next other =>
      rw [if_neg (by simpa using other)]
      exact name_decorated isClass found

/-- A class, below decorators or not, is a definition of its name. -/
theorem stmtOf_of_isClass {k : Tree} (isClass : k.definition.is .classDefinition) :
    ∃ decorations definition, stmtOf k = .define decorations definition ∧
      definition.name = className k := by
  obtain ⟨l,cs⟩ := k
  by_cases below : (Syntax.Tree.node l cs).is .decoratedDefinition
  · have symbol : l.symbol = .named .decoratedDefinition := beq_iff_eq.1 below
    rw [Tree.definition,if_pos below] at isClass
    cases found : (Syntax.Tree.node l cs).child? .definition with
    | none =>
      rw [found,Option.getD_none] at isClass
      simp [Tree.is,symbol] at isClass
    | some c =>
      rw [found,Option.getD_some] at isClass
      refine ⟨decorationsOf cs,decorated cs,by simp [stmtOf,symbol],?_⟩
      have name : (decorated cs).name = (c.childText .name).getD "" := name_decorated isClass found
      rw [name,className,Tree.definition,if_pos below,found,Option.getD_some]
  · rw [Tree.definition,if_neg below] at isClass
    have symbol : l.symbol = .named .classDefinition := beq_iff_eq.1 isClass
    refine ⟨[],definitionOf l.symbol cs (bodyOfRole .body cs),by simp [stmtOf,symbol],?_⟩
    rw [name_definitionOf symbol,className,Tree.definition,if_neg below]
    rfl

namespace Execution
open Exec

/-- In the module, a definition that succeeds binds its name to a value that is not known. -/
theorem valueAt_of_define {lazy : Bool} {decorations : List Decoration} {d : Definition}
    {s t : State} (outside : s.locals = none)
    (ran : execute lazy (.define decorations d) s = (.ok (),t)) :
    valueAt d.name t.globals = some .unknown := by
  have place := ((execute_permitted lazy (.define decorations d) (List.Subset.refl _)).follows s).place
  rw [ran,outside] at place
  rw [execute] at ran
  obtain ⟨_,_,_,ran⟩ := ok_of_bind ran
  obtain ⟨_,_,_,ran⟩ := ok_of_bind ran
  obtain ⟨_,before,_,stored⟩ := ok_of_bind ran
  obtain rfl : before.bind d.name .unknown = t := (Prod.mk.inj stored).2
  unfold State.bind at place ⊢
  split at place
  · cases place
  · simp [valueAt_setAt]

/-- Two runs of a class that end in the same way. The scopes in `before` were deferred earlier. -/
structure RunsAlike (k : Tree) (before : List Scope) (one other : Except Raised Unit × State) :
    Prop where
  result : one.1 = other.1
  modules : one.2.modules = other.2.modules
  deferred : one.2.deferred = other.2.deferred
  globals : one.1 = .ok () → ∀ n, n ∈ usage k ∨ n = className k →
    valueAt n one.2.globals = valueAt n other.2.globals
  /-- The check of what the class defers depends on no other names of the module, either. -/
  scopes : ∃ new, one.2.deferred = new ++ before ∧ ∀ scope ∈ new, ∀ p q : String → Bool,
    (∀ n ∈ usage k, p n = q n) → scope.unresolved p [] = scope.unresolved q []

/-- A class that stands where statements stand reads no names but those in use in it. -/
theorem runsAlike_of_agree {k : Tree} (named : k.isNamed) (placed : k.fits .statement)
    (isClass : k.definition.is .classDefinition) (lazy : Bool) {s t : State}
    (outside : s.locals = none) (agree : Agree (· ∈ usage k) s t) :
    RunsAlike k s.deferred (execute lazy (stmtOf k) s) (execute lazy (stmtOf k) t) := by
  have permitted := execute_permitted lazy (stmtOf k) (List.Subset.refl _)
  have counted : (stmtOf k).names ⊆ usage k := fun n shown =>
    Text.mem_nameSet.2 (stmtOf_counted k named placed shown)
  have within := ((stmtOf k).effects_within lazy).mono counted
  obtain ⟨same,after⟩ := permitted.agree (fun n read => within (.read n) read)
    (fun _ n dropped => within (.drop n) dropped) agree
  refine ⟨same,after.modules,after.deferred,fun succeeded n known => ?_,?_⟩
  · rcases known with used | rfl
    · exact after.globals n used
    · obtain ⟨decorations,d,is,name⟩ := stmtOf_of_isClass isClass
      have module : t.locals = none := agree.locals ▸ outside
      rw [← name]
      rw [is] at succeeded same ⊢
      rw [valueAt_of_define outside (Prod.ext succeeded rfl),
        valueAt_of_define module (Prod.ext (same.symm.trans succeeded) rfl)]
  · obtain ⟨new,grown,covered⟩ := (permitted.follows s).deferred
    refine ⟨new,grown,fun scope member p q sameNames => ?_⟩
    have mentioned := (within _ (covered scope member)).1
    exact Scope.unresolved_congr (fun n shown => sameNames n (mentioned shown)) []

/-- A name that an import binds which is left out is not in use. -/
theorem not_mem_usage_of_leftOut {k : Tree} {imports : List ImportStatement} {i : ImportStatement}
    (among : i ∈ imports) (leftOut : i ∉ selectImports imports (usage k)) {n : String}
    (bound : n ∈ i.boundNames) : n ∉ usage k := fun used =>
  leftOut (List.mem_filter.2 ⟨among,List.any_eq_true.2 ⟨n,bound,List.contains_iff_mem.2 used⟩⟩)

/-- Extraction drops no import that a class reads. States of the module that agree on the names in
use in a class cannot be told apart by running it, nor by checking what it defers; and whatever the
imports that are left out bind, or fail to bind, makes no difference. -/
theorem class_reads_only_usage {text : String} {source : Source} {k : Tree}
    (read : Source.read text = .ok source) (isClass : k ∈ source.classNodes) (lazy : Bool)
    {s : State} (outside : s.locals = none) :
    (∀ t : State, t.locals = none → s.modules = t.modules → s.deferred = t.deferred →
      (∀ n ∈ usage k, valueAt n s.globals = valueAt n t.globals) →
      RunsAlike k s.deferred (execute lazy (stmtOf k) s) (execute lazy (stmtOf k) t)) ∧
    ∀ globals : Namespace,
      (∀ n, (∀ i ∈ source.imports, n ∈ i.boundNames → i ∈ selectImports source.imports (usage k)) →
        valueAt n s.globals = valueAt n globals) →
      RunsAlike k s.deferred (execute lazy (stmtOf k) s)
        (execute lazy (stmtOf k) {s with globals := globals}) := by
  obtain ⟨named,placed⟩ := Source.placed_of_mem_classNodes read isClass
  have alike {t : State} (agree : Agree (· ∈ usage k) s t) :=
    runsAlike_of_agree named placed (List.mem_filter.1 isClass).2 lazy outside agree
  refine ⟨fun t module modules deferred agree => ?_,fun globals kept => ?_⟩
  · exact alike ⟨modules,outside.trans module.symm,deferred,agree⟩
  · refine alike ⟨rfl,rfl,rfl,fun n used => kept n fun i among bound => ?_⟩
    exact Classical.not_not.1 fun leftOut => not_mem_usage_of_leftOut among leftOut bound used

/-- A decorated class uses one of two imports. It runs alike whatever the name of the other one is
bound to, and without it. -/
theorem class_reads_only_usage_decorated : ∃ source k,
    Source.read "import os\nimport re\n@re.x\nclass A(re.B):\n    y = re.z\n    def f(self): return re\n" =
      .ok source ∧ k ∈ source.classNodes ∧ usage k = ["re","self","y"] ∧
    RunsAlike k []
      (execute false (stmtOf k) ⟨.empty [],[("os",.unknown),("re",.unknown)],none,[]⟩)
      (execute false (stmtOf k) ⟨.empty [],[("os",.nothing),("re",.unknown)],none,[]⟩) ∧
    RunsAlike k []
      (execute false (stmtOf k) ⟨.empty [],[("os",.unknown),("re",.unknown)],none,[]⟩)
      (execute false (stmtOf k) ⟨.empty [],[("re",.unknown)],none,[]⟩) := by
  have computed : (match Source.read
      "import os\nimport re\n@re.x\nclass A(re.B):\n    y = re.z\n    def f(self): return re\n" with
    | .error _ => false
    | .ok source =>
      match source.classNodes with
      | k :: _ => decide (usage k = ["re","self","y"]) && source.imports.any fun i =>
          i.boundNames.contains "os" && !(selectImports source.imports (usage k)).contains i
      | [] => false) = true := by decide +kernel
  split at computed
  · cases computed
  · next source read =>
    split at computed
    · next k rest classes =>
      simp only [Bool.and_eq_true,decide_eq_true_eq,List.any_eq_true,List.contains_iff_mem,
        Bool.not_eq_true',Bool.eq_false_iff,ne_eq] at computed
      obtain ⟨used,i,among,bound,leftOut⟩ := computed
      have isClass : k ∈ source.classNodes := classes ▸ List.mem_cons_self
      have alike := class_reads_only_usage read isClass false
        (s := ⟨.empty [],[("os",.unknown),("re",.unknown)],none,[]⟩) rfl
      refine ⟨source,k,read,isClass,used,alike.1 _ rfl rfl rfl ?_,alike.2 _ ?_⟩
      · rw [used]
        decide
      · intro n kept
        have other : "os" ≠ n := fun same => leftOut (kept i among (same ▸ bound))
        simp [valueAt,other]
    · cases computed

end Execution

end Excerpt
