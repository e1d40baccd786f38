import Excerpt.Proofs.Deletion
import Excerpt.Proofs.FromImport
import Excerpt.Proofs.StatementOrder
import Excerpt.Proofs.UncertainBlock

/-!
What a block binds that may not run. A statement of it that fails is made up for: its names are bound
without its values. That reaches all names of imports and definitions, but of an assignment only those of
the outermost target, and only up to the first part of it that fails too.
-/
namespace Excerpt.Program

mutual
/-- The names in a target. -/
def Expr.targetNames : Expr → List String
  | .name id _ => [id]
  | .parens items => targetNamesAll items
  | .sequence form items => if form.isTarget then targetNamesAll items else []
  | .splat double items => if double then [] else targetNamesAll items
  | _ => []
def targetNamesAll : List Expr → List String
  | [] => []
  | e :: es => e.targetNames ++ targetNamesAll es
end

mutual
/-- Targets that consist of names: whatever the state, anything can be assigned to them. -/
def Expr.isSure : Expr → Bool
  | .name _ _ | .blank => true
  | .parens items => sureAll items
  | .sequence form items => form.isTarget && sureAll items
  | .splat double items => !double && sureAll items
  | _ => false
def sureAll : List Expr → Bool
  | [] => true
  | e :: es => e.isSure && sureAll es
end

mutual
/-- The names in a target in front of the first part to which an assignment may fail. -/
def Expr.sureNames : Expr → List String
  | .name id _ => [id]
  | .parens items => sureNamesAll items
  | .sequence form items => if form.isTarget then sureNamesAll items else []
  | .splat double items => if double then [] else sureNamesAll items
  | _ => []
def sureNamesAll : List Expr → List String
  | [] => []
  | e :: es => e.sureNames ++ if e.isSure then sureNamesAll es else []
end

mutual
/-- The names in all targets of an assignment, which may be a chain of them. A hint without a value assigns
nothing. -/
def Expr.assignedNames : Expr → List String
  | .assignment target _ value => assignedFrom target.targetNames value
  | _ => []
def assignedFrom (own : List String) : Option Expr → List String
  | none => []
  | some value => own ++ value.assignedNames
end

/-- The names that an assignment binds even if it fails. -/
def Expr.recoveredNames : Expr → List String
  | .assignment target _ (some _) => target.sureNames
  | _ => []

/-- Whether an expression is no assignment, or a single one to names. -/
def Expr.isDirect : Expr → Bool
  | .assignment _ _ (some (.assignment _ _ _)) => false
  | .assignment target _ (some _) => target.isSure
  | _ => true

namespace Stmt

/-- The names that a statement binds as an assignment, import or definition. -/
def ownNames : Stmt → List String
  | .evaluate items => items.flatMap Expr.assignedNames
  | .importing statement => statement.boundNames
  | .define _ definition => [definition.name]
  | _ => []

/-- Those of its names that a statement binds even if it fails. -/
def recoveredNames : Stmt → List String
  | .evaluate items => items.flatMap Expr.recoveredNames
  | .importing statement => statement.boundNames
  | .define _ definition => [definition.name]
  | _ => []

/-- Whether the assignments of a statement are single ones to names. -/
def isDirect : Stmt → Bool
  | .evaluate items => items.all Expr.isDirect
  | _ => true

end Stmt

mutual
/-- The sure names of a target are names of the target, and all of them if it consists of names. -/
theorem Expr.sureNames_spec : ∀ e : Expr,
    e.sureNames ⊆ e.targetNames ∧ (e.isSure → e.sureNames = e.targetNames)
  | .name _ _ | .blank => ⟨List.Subset.refl _,fun _ => rfl⟩
  | .parens items => sureNamesAll_spec items
  | .sequence form items => by
    obtain ⟨among,whole⟩ := sureNamesAll_spec items
    rw [Expr.sureNames,Expr.targetNames,Expr.isSure,Bool.and_eq_true]
    split
    · exact ⟨among,fun sure => whole sure.2⟩
    · exact ⟨List.Subset.refl _,fun _ => rfl⟩
  | .splat double items => by
    obtain ⟨among,whole⟩ := sureNamesAll_spec items
    rw [Expr.sureNames,Expr.targetNames,Expr.isSure,Bool.and_eq_true]
    split
    · exact ⟨List.Subset.refl _,fun _ => rfl⟩
    · exact ⟨among,fun sure => whole sure.2⟩
  | .none | .truth _ | .integer _ | .group _ | .member _ _ | .call _ _ | .subscript _ _ | .keyword _ _
  | .walrus _ _ | .aliased _ _ | .conditional _ _ _ | .conjunction _ _ | .disjunction _ _ | .negation _
  | .comparison _ _ | .binary _ _ | .lambda _ _ | .comprehension _ | .suspension _ _
  | .assignment _ _ _ | .augmented _ _ => ⟨List.Subset.refl _,fun _ => rfl⟩
theorem sureNamesAll_spec : ∀ es : List Expr,
    sureNamesAll es ⊆ targetNamesAll es ∧ (sureAll es → sureNamesAll es = targetNamesAll es)
  | [] => ⟨List.Subset.refl _,fun _ => rfl⟩
  | e :: es => by
    obtain ⟨first,same⟩ := e.sureNames_spec
    obtain ⟨rest,whole⟩ := sureNamesAll_spec es
    rw [sureNamesAll,targetNamesAll,sureAll,Bool.and_eq_true]
    refine ⟨List.append_subset.2 ⟨List.subset_append_of_subset_left _ first,?_⟩,fun sure => ?_⟩
    · split
      · exact List.subset_append_of_subset_right _ rest
      · exact List.nil_subset _
    · rw [if_pos sure.1,same sure.1,whole sure.2]
end

theorem Expr.recoveredNames_subset (e : Expr) : e.recoveredNames ⊆ e.assignedNames := by
  cases e with
  | assignment target hint value =>
    cases value with
    | none => exact List.nil_subset _
    | some value => exact List.subset_append_of_subset_left _ target.sureNames_spec.1
  | _ => exact List.nil_subset _

theorem Expr.recoveredNames_of_isDirect {e : Expr} (direct : e.isDirect) :
    e.recoveredNames = e.assignedNames := by
  cases e with
  | assignment target hint value =>
    cases value with
    | none => rfl
    | some value =>
      have single : target.isSure ∧ value.assignedNames = [] := by
        cases value with
        | assignment => cases direct
        | _ => exact ⟨direct,rfl⟩
      rw [Expr.recoveredNames,Expr.assignedNames,assignedFrom,single.2,List.append_nil]
      exact target.sureNames_spec.2 single.1
  | _ => rfl

theorem Stmt.recoveredNames_subset (stmt : Stmt) : stmt.recoveredNames ⊆ stmt.ownNames := by
  cases stmt with
  | evaluate items =>
    intro n recovered
    obtain ⟨e,member,here⟩ := List.mem_flatMap.1 recovered
    exact List.mem_flatMap.2 ⟨e,member,e.recoveredNames_subset here⟩
  | _ => exact List.Subset.refl _

theorem Stmt.recoveredNames_of_isDirect {stmt : Stmt} (direct : stmt.isDirect) :
    stmt.ownNames ⊆ stmt.recoveredNames := by
  cases stmt with
  | evaluate items =>
    intro n named
    obtain ⟨e,member,here⟩ := List.mem_flatMap.1 named
    refine List.mem_flatMap.2 ⟨e,member,?_⟩
    rwa [Expr.recoveredNames_of_isDirect (List.all_eq_true.1 direct e member)]
  | _ => exact List.Subset.refl _

end Excerpt.Program

namespace Excerpt.Execution
open Excerpt.Names Excerpt.Program Excerpt.Syntax Exec

section Targets

variable {n : String}

mutual
/-- An assignment that succeeds binds all names of its target. -/
theorem assign_binds (value : Value) : ∀ (target : Expr) {s t : State},
    assign value target s = (.ok (),t) → n ∈ target.targetNames → t.Has n
  | .name id line,s,t,ran,named => by
    obtain rfl := List.mem_singleton.1 named
    cases ran
    exact s.has_bind n value
  | .parens items,_,_,ran,named => assignEach_binds items ran named
  | .sequence form items,_,_,ran,named => by
    rw [Expr.targetNames] at named
    split at named
    · next target =>
      rw [assign,if_pos target] at ran
      exact assignEach_binds items ran named
    · cases named
  | .splat double items,_,_,ran,named => by
    rw [Expr.targetNames] at named
    split at named
    · cases named
    · next single =>
      rw [assign,if_neg single] at ran
      exact assignEach_binds items ran named
theorem assignEach_binds : ∀ (targets : List Expr) {s t : State},
    assignEach targets s = (.ok (),t) → n ∈ targetNamesAll targets → t.Has n
  | e :: es,s,t,ran,named => by
    rw [assignEach] at ran
    obtain ⟨_,m,first,rest⟩ := ok_of_bind ran
    rcases List.mem_append.1 named with here | later
    · exact (assignEach_permitted es (List.Subset.refl _)).stays_after ((dropsAll_target es).notMem n)
        rest (assign_binds .unknown e first here)
    · exact assignEach_binds es rest later
end

/-- Of a target that is not sure from its first part on nothing is claimed. -/
theorem of_unsure {e : Expr} {succeeds binds : Prop} (unsure : e.isSure = false) (none : e.sureNames = []) :
    (e.isSure → succeeds) ∧ (n ∈ e.sureNames → binds) := by simp [unsure,none]

mutual
/-- Whether it succeeds or not, an assignment binds the sure names of its target. -/
theorem assign_binds_sure (value : Value) : ∀ (target : Expr) (s : State),
    (target.isSure → (assign value target s).1 = .ok ()) ∧
      (n ∈ target.sureNames → (assign value target s).2.Has n)
  | .name id line,s => by
    refine ⟨fun _ => rfl,fun named => ?_⟩
    obtain rfl := List.mem_singleton.1 named
    exact s.has_bind n value
  | .blank,_ => ⟨fun _ => rfl,nofun⟩
  | .parens items,s => assignEach_binds_sure items s
  | .sequence form items,s => by
    rw [Expr.isSure,Expr.sureNames,Bool.and_eq_true]
    cases target : form.isTarget with
    | false => exact ⟨nofun,nofun⟩
    | true =>
      rw [assign,target]
      exact (assignEach_binds_sure items s).imp (fun succeeds sure => succeeds sure.2) id
  | .splat double items,s => by
    rw [Expr.isSure,Expr.sureNames,Bool.and_eq_true]
    cases double with
    | true => exact ⟨nofun,nofun⟩
    | false => exact (assignEach_binds_sure items s).imp (fun succeeds sure => succeeds sure.2) id
  | .none,_ | .truth _,_ | .integer _,_ | .group _,_ | .member _ _,_ | .call _ _,_ | .subscript _ _,_
  | .keyword _ _,_ | .walrus _ _,_ | .aliased _ _,_ | .conditional _ _ _,_ | .conjunction _ _,_
  | .disjunction _ _,_ | .negation _,_ | .comparison _ _,_ | .binary _ _,_ | .lambda _ _,_
  | .comprehension _,_ | .suspension _ _,_ | .assignment _ _ _,_ | .augmented _ _,_ => of_unsure rfl rfl
theorem assignEach_binds_sure : ∀ (targets : List Expr) (s : State),
    (sureAll targets → (assignEach targets s).1 = .ok ()) ∧
      (n ∈ sureNamesAll targets → (assignEach targets s).2.Has n)
  | [],_ => ⟨fun _ => rfl,nofun⟩
  | e :: es,s => by
    obtain ⟨succeeds,early⟩ := assign_binds_sure .unknown e s
    rw [assignEach,bind_apply,sureAll,sureNamesAll,Bool.and_eq_true,List.mem_append]
    rcases ran : assign .unknown e s with ⟨r | _,m⟩ <;> rw [ran] at succeeds early
    · -- The assignment stops at a part that is not sure.
      have doubtful : ¬ e.isSure := fun sure => nomatch succeeds sure
      rw [if_neg doubtful]
      exact ⟨fun sure => absurd sure.1 doubtful,fun named => early (named.resolve_right nofun)⟩
    · obtain ⟨rest,late⟩ := assignEach_binds_sure es m
      refine ⟨fun sure => rest sure.2,fun named => ?_⟩
      rcases named with here | later
      · exact (assignEach_permitted es (List.Subset.refl _)).stays ((dropsAll_target es).notMem n)
          (early here)
      · split at later
        · exact late later
        · cases later
end

end Targets

section Statements

variable {n : String} {lazy : Bool}

/-- Before a target is assigned to, its hint may be evaluated. -/
theorem ok_of_hint {hint : Option Expr} {next : Exec Value} {s t : State} {v : Value}
    (ran : (if !lazy then evaluateOption hint >>= fun _ => next else next) s = (.ok v,t)) :
    ∃ m, (s.Has n → m.Has n) ∧ next m = (.ok v,t) := by
  cases lazy with
  | true => exact ⟨s,id,ran⟩
  | false =>
    obtain ⟨_,m,hinted,rest⟩ := ok_of_bind ran
    have permitted := evaluateOption_permitted hint (List.Subset.refl _)
    exact ⟨m,permitted.stays_after ((dropsOption hint).notMem n) hinted,rest⟩

mutual
/-- A chain of assignments that succeeds binds all names of all targets. -/
theorem perform_binds : ∀ (e : Expr) (s t : State) (v : Value), perform lazy e s = (.ok v,t) →
    n ∈ e.assignedNames → t.Has n
  | .assignment target hint value => by
    intro s t v ran named
    rw [perform] at ran
    obtain ⟨assigned,m,first,ran⟩ := ok_of_bind ran
    have early := performOption_binds value _ s m assigned first named
    cases assigned with
    | none =>
      obtain ⟨_,kept,last⟩ := ok_of_hint ran
      cases last
      exact kept (early.resolve_left (by simp))
    | some w =>
      obtain ⟨m',kept,last⟩ := ok_of_hint ran
      obtain ⟨_,_,stored,last⟩ := ok_of_bind last
      cases last
      rcases early with ⟨own,_⟩ | bound
      · exact assign_binds v target stored own
      · exact (assign_permitted v target (List.Subset.refl _)).stays_after (target.drops_target.notMem n)
          stored (kept bound)
  | .name _ _ | .none | .truth _ | .integer _ | .blank | .group _ | .parens _ | .sequence _ _
  | .splat _ _ | .member _ _ | .call _ _ | .subscript _ _ | .keyword _ _ | .walrus _ _ | .aliased _ _
  | .conditional _ _ _ | .conjunction _ _ | .disjunction _ _ | .negation _ | .comparison _ _
  | .binary _ _ | .lambda _ _ | .comprehension _ | .suspension _ _ | .augmented _ _ =>
    fun _ _ _ _ named => absurd named List.not_mem_nil
/-- The value of an assignment leaves the names of the target to be bound. -/
theorem performOption_binds : ∀ (e? : Option Expr) (own : List String) (s t : State) (v : Option Value),
    performOption lazy e? s = (.ok v,t) → n ∈ assignedFrom own e? → n ∈ own ∧ v.isSome ∨ t.Has n
  | none => fun _ _ _ _ _ named => absurd named List.not_mem_nil
  | some e => by
    intro own s t v ran named
    rw [performOption] at ran
    obtain ⟨w,m,first,last⟩ := ok_of_bind ran
    cases last
    rcases List.mem_append.1 named with here | later
    · exact .inl ⟨here,rfl⟩
    · exact .inr (perform_binds e s _ w first later)
end

/-- An expression statement drops no name. -/
theorem drop_notMem_performEffects (lazy : Bool) (items : List Expr) :
    .drop n ∉ items.flatMap (·.performEffects lazy) :=
  DropsOnly.notMem (.flatMap fun e _ => e.drops_perform lazy) n

theorem performEach_binds {items : List Expr} {s t : State}
    (ran : performEach lazy items s = (.ok (),t)) (named : n ∈ items.flatMap Expr.assignedNames) :
    t.Has n := by
  induction items generalizing s with
  | nil => cases named
  | cons e es ih =>
    rw [performEach] at ran
    obtain ⟨v,m,first,rest⟩ := ok_of_bind ran
    rw [List.flatMap_cons,List.mem_append] at named
    rcases named with here | later
    · exact (performEach_permitted lazy es (List.Subset.refl _)).stays_after
        (drop_notMem_performEffects lazy es) rest (perform_binds e s m v first here)
    · exact ih rest later

/-- What an import of the given names can do. -/
def importEffects (names : List ImportedName) : List Effect :=
  .touch :: names.map fun i => .bind i.bound

theorem bind_mem_importEffects {names : List ImportedName} (i : ImportedName) (member : i ∈ names) :
    .bind i.bound ∈ importEffects names := by
  simp only [importEffects,List.mem_cons,List.mem_map]
  exact .inr ⟨i,member,rfl⟩

theorem importPlain_binds {names : List ImportedName} {s t : State}
    (ran : importPlain names s = (.ok (),t)) (named : n ∈ names.map ImportedName.bound) : t.Has n := by
  induction names generalizing s with
  | nil => cases named
  | cons i is ih =>
    rw [importPlain_cons] at ran
    obtain ⟨_,m,_,rest⟩ := ok_of_bind ran
    obtain ⟨_,_,stored,rest⟩ := ok_of_bind rest
    cases stored
    rcases List.mem_cons.1 named with rfl | later
    · have permitted : Permitted (importEffects is) (importPlain is) :=
        importPlain_permitted (by simp [importEffects]) is bind_mem_importEffects
      exact permitted.stays_after (by simp [importEffects]) rest (m.has_bind i.bound _)
    · exact ih rest later

theorem bindImported_binds {path : String} {names : List ImportedName} {s t : State}
    (ran : bindImported path names s = (.ok (),t)) (named : n ∈ names.map ImportedName.bound) : t.Has n := by
  induction names generalizing s with
  | nil => cases named
  | cons i is ih =>
    obtain ⟨_,m,bound,rest⟩ := @ok_of_bind _ _
      (bindAttribute path i (s.modules.attribute? path i.name)) (fun _ => bindImported path is) s t () ran
    rcases List.mem_cons.1 named with rfl | later
    · have has : m.Has i.bound := by
        cases answer : s.modules.attribute? path i.name with
        | error r =>
          rw [answer] at bound
          cases bound
        | ok value =>
          rw [answer] at bound
          cases bound
          exact s.has_bind i.bound value
      exact (bindImported_permitted path is bind_mem_importEffects).stays_after
        (by simp [importEffects]) rest has
    · exact ih rest later

theorem runImport_binds {statement : ImportStatement} {s t : State}
    (ran : runImport statement s = (.ok (),t)) (named : n ∈ statement.boundNames) : t.Has n := by
  by_cases plain : statement.kind = .plain
  · simp only [runImport,plain] at ran
    exact importPlain_binds ran named
  · rw [runImport_from plain] at ran
    obtain ⟨_,m,_,rest⟩ := ok_of_bind ran
    exact bindImported_binds rest named

/-- A statement that succeeds binds all its names. -/
theorem execute_binds {stmt : Stmt} {s t : State} (ran : execute lazy stmt s = (.ok (),t))
    (named : n ∈ stmt.ownNames) : t.Has n := by
  cases stmt with
  | evaluate items =>
    rw [execute] at ran
    exact performEach_binds ran named
  | importing statement =>
    rw [execute] at ran
    exact runImport_binds ran named
  | define decorations definition =>
    obtain rfl := List.mem_singleton.1 named
    rw [execute] at ran
    obtain ⟨_,_,_,ran⟩ := ok_of_bind ran
    obtain ⟨_,_,_,ran⟩ := ok_of_bind ran
    obtain ⟨_,m,_,ran⟩ := ok_of_bind ran
    cases ran
    exact m.has_bind definition.name .unknown
  | _ => cases named

theorem bindTargets_binds {items : List Expr} (named : n ∈ items.flatMap Expr.recoveredNames) (s : State) :
    (bindTargets items s).2.Has n := by
  induction items generalizing s with
  | nil => cases named
  | cons e es ih =>
    rw [List.flatMap_cons,List.mem_append] at named
    cases e with
    | assignment target hint value =>
      rw [bindTargets,attempt_bind_apply]
      rcases named with here | later
      · have sure : n ∈ target.sureNames := by
          cases value with
          | none => cases here
          | some value => exact here
        exact (bindTargets_permitted false es (List.Subset.refl _)).stays
          (drop_notMem_performEffects false es) ((assign_binds_sure .unknown target s).2 sure)
      · exact ih later _
    | _ => exact ih (named.resolve_left List.not_mem_nil) s

theorem storeAll_binds {names : List String} (named : n ∈ names) (s : State) :
    (storeAll names s).2.Has n := by
  induction names generalizing s with
  | nil => cases named
  | cons m ms ih =>
    change (storeAll ms (s.bind m .unknown)).2.Has n
    rcases List.mem_cons.1 named with rfl | later
    · have permitted : Permitted (ms.map .bind) (storeAll ms) :=
        .storeAll fun m member => List.mem_map_of_mem member
      exact permitted.stays (by simp) (s.has_bind n .unknown)
    · exact ih later _

/-- Where a statement failed, the names that it binds all the same are bound afterwards. Future imports are
not made up for. -/
theorem bindNames_binds {stmt : Stmt} (named : n ∈ stmt.recoveredNames)
    (present : ∀ statement, stmt = .importing statement → statement.kind ≠ .future) (s : State) :
    (bindNames stmt s).2.Has n := by
  cases stmt with
  | evaluate items => exact bindTargets_binds named s
  | importing statement =>
    rw [bindNames,if_neg (present statement rfl)]
    exact storeAll_binds named s
  | define decorations definition =>
    obtain rfl := List.mem_singleton.1 named
    exact s.has_bind definition.name .unknown
  | _ => cases named

end Statements

/-- A statement that may not run succeeds, or fails and is made up for. -/
theorem executeMaybe_single {lazy : Bool} {stmt : Stmt} {s t : State}
    (ran : executeMaybe lazy [stmt] s = (.ok (),t)) : execute lazy stmt s = (.ok (),t) ∨
      (execute lazy stmt s).1 ≠ .ok () ∧ t = (bindNames stmt (execute lazy stmt s).2).2 := by
  rw [executeMaybe] at ran
  obtain ⟨result,m,tried,rest⟩ := ok_of_bind ran
  unfold perhaps at tried
  rw [attempt_bind_apply] at tried
  rcases outcome : execute lazy stmt s with ⟨r | u,m'⟩ <;> rw [outcome] at tried
  · right
    dsimp only at tried
    split at tried
    · cases tried
    · cases tried
      obtain ⟨_,m,bound,last⟩ := ok_of_bind rest
      rw [executeMaybe] at last
      cases last
      exact ⟨nofun,by rw [bound]⟩
  · left
    cases tried
    rw [executeMaybe] at rest
    cases rest
    rfl

theorem executeMaybe_append (lazy : Bool) (before after : List Stmt) :
    executeMaybe lazy (before ++ after) = executeMaybe lazy before >>= fun _ => executeMaybe lazy after := by
  induction before with
  | nil => simp only [List.nil_append,executeMaybe,pure_bind]
  | cons stmt before ih =>
    simp only [List.cons_append,executeMaybe,ih,bind_assoc]
    congr 1
    funext result
    split <;> simp only [bind_assoc]

/-- A future import imports from the one module that is meant for it. -/
theorem future_of_stmtOf {t : Tree} {statement : ImportStatement} (read : stmtOf t = .importing statement)
    (future : statement.kind = .future) : statement.path = "__future__" ∧ statement.level = 0 := by
  obtain ⟨l,cs⟩ := t
  unfold stmtOf at read
  split at read
  all_goals cases read
  · cases future
  · cases future
  · exact ⟨rfl,rfl⟩

/-- A future import does not fail. -/
theorem runImport_future {known : List String} {calls : List Call} {statement : ImportStatement} {s : State}
    (future : statement.kind = .future) (path : statement.path = "__future__")
    (absolute : statement.level = 0) (reached : s.modules = Modules.after known calls) :
    (runImport statement s).1 = .ok () := by
  have named : statement.kind ≠ .plain := by simp [future]
  rw [Modules.runImport_after named absolute reached,List.find?_eq_none.2]
  · rfl
  · intro i _ lacking
    obtain ⟨demoted,_⟩ := Bool.and_eq_true_iff.1 lacking
    have unreal := (Modules.demoted_spec demoted).2.2.1
    have standard : Modules.isReal known "__future__" = true := by
      have listed : standardModules.contains (firstSegment "__future__") = true := by decide +kernel
      rw [Modules.isReal,listed,Bool.true_or]
    rw [path,standard] at unreal
    cases unreal

/-- A block that may not run binds its names all the same. If it comes to its end, then every name of an
import, a function or a class that stands directly in it is bound afterwards, unless the block deletes it,
and so is every name in the target of an assignment that is not a chain of several and whose target
consists of names, whichever statements failed and wherever. Of other assignments the names are bound
if they succeeded. If they failed, this holds of the names of the outermost target only, up to the first
part of it to which an assignment may fail. -/
theorem uncertain_block_binds {lazy : Bool} {block : Tree} {s t : State} {known : List String}
    {calls : List Call} (reached : s.modules = Modules.after known calls)
    (ran : executeMaybe lazy (bodyOf block.children) s = (.ok (),t)) {n : String}
    (kept : ∀ u ∈ block.deleted, u.text ≠ n) :
    (∀ stmt ∈ bodyOf block.children, stmt.isDirect → n ∈ stmt.ownNames → t.Has n) ∧
    (∀ stmt ∈ bodyOf block.children, n ∈ stmt.recoveredNames → t.Has n) ∧
    ∀ before stmt after m, bodyOf block.children = before ++ stmt :: after →
      executeMaybe lazy before s = (.ok (),m) → (execute lazy stmt m).1 = .ok () → n ∈ stmt.ownNames →
        t.Has n := by
  have undropped := drop_notMem_bodyEffects lazy kept
  -- What a statement of the block leaves bound is bound at the end.
  have reaches {before after : List Stmt} {stmt : Stmt}
      (split : bodyOf block.children = before ++ stmt :: after) :
      ∃ m m', executeMaybe lazy before s = (.ok (),m) ∧ executeMaybe lazy [stmt] m = (.ok (),m') ∧
        (m'.Has n → t.Has n) := by
    rw [split,executeMaybe_append] at ran
    rw [split,bodyEffects_append,bodyEffects,List.mem_append,List.mem_append,not_or,not_or] at undropped
    obtain ⟨_,m,first,rest⟩ := ok_of_bind ran
    rw [← List.singleton_append,executeMaybe_append] at rest
    obtain ⟨_,m',own,rest⟩ := ok_of_bind rest
    exact ⟨m,m',first,own,
      (executeMaybe_permitted lazy after (List.Subset.refl _)).stays_after undropped.2.2 rest⟩
  have recovered (stmt : Stmt) (member : stmt ∈ bodyOf block.children) (named : n ∈ stmt.recoveredNames) :
      t.Has n := by
    obtain ⟨before,after,split⟩ := List.append_of_mem member
    obtain ⟨m,m',first,own,later⟩ := reaches split
    refine later ?_
    rcases executeMaybe_single own with succeeded | ⟨failed,rfl⟩
    · exact execute_binds succeeded (stmt.recoveredNames_subset named)
    · refine bindNames_binds named (fun statement same future => failed ?_) _
      obtain ⟨u,_,rfl⟩ : ∃ u ∈ block.children.filter Tree.isNamed, stmtOf u = stmt := by
        rw [bodyOf_eq_map] at member
        exact List.mem_map.1 member
      obtain ⟨path,absolute⟩ := future_of_stmtOf same future
      obtain ⟨made,modules⟩ := (executeMaybe_permitted lazy before (List.Subset.refl _)).calls s
      have arrived : m.modules = Modules.after known (calls ++ made) := by
        rw [first,reached] at modules
        rw [Modules.after,List.foldl_append]
        exact modules
      rw [same,execute]
      exact runImport_future future path absolute arrived
  refine ⟨fun stmt member direct named => ?_,recovered,
    fun before stmt after m split first succeeded named => ?_⟩
  · exact recovered stmt member (Stmt.recoveredNames_of_isDirect direct named)
  · obtain ⟨m₁,m',reached,own,later⟩ := reaches split
    obtain rfl : m₁ = m := by
      rw [reached] at first
      cases first
      rfl
    rcases executeMaybe_single own with ended | ⟨failed,_⟩
    · exact later (execute_binds ended named)
    · exact absurd succeeded failed

/-- An import from a missing package, an unpacking of a missing name and a function with a missing
decorator: all their names are bound, although each of the statements fails. -/
theorem uncertain_block_binds_failed : ∃ (root block : Tree) (t : State),
    readTree
      "if c:\n    from .missing import a as b\n    x, (y, *z) = missing\n    @missing\n    def f(): pass\n" =
      some root ∧ block ∈ root.preorder ∧
    executeMaybe false (bodyOf block.children) (State.start []) = (.ok (),t) ∧
    ∀ stmt ∈ bodyOf block.children, ∀ n ∈ stmt.ownNames, n ∈ ["b","x","y","z","f"] ∧ t.Has n := by
  have computed : (readTree
      "if c:\n    from .missing import a as b\n    x, (y, *z) = missing\n    @missing\n    def f(): pass\n").any
      fun root => root.preorder.any fun block => block.is .block && block.field == some .consequence &&
        block.deleted.isEmpty && (executeMaybe false (bodyOf block.children) (State.start [])).1.isOk &&
        (bodyOf block.children).all (·.isDirect) &&
        decide ((bodyOf block.children).flatMap (·.ownNames) = ["b","x","y","z","f"]) := by decide +kernel
  obtain ⟨root,read,found⟩ := (Option.any_eq_true _ _).1 computed
  obtain ⟨block,inside,checked⟩ := List.any_eq_true.1 found
  simp only [Bool.and_eq_true,List.isEmpty_iff,List.all_eq_true,decide_eq_true_eq] at checked
  obtain ⟨⟨⟨⟨_,undeleted⟩,ended⟩,direct⟩,names⟩ := checked
  rcases ran : executeMaybe false (bodyOf block.children) (State.start []) with ⟨r | _,t⟩
  · rw [ran] at ended
    cases ended
  refine ⟨root,block,t,read,inside,ran,fun stmt member n named => ⟨?_,?_⟩⟩
  · rw [← names]
    exact List.mem_flatMap.2 ⟨stmt,member,named⟩
  · have binds := @uncertain_block_binds false block (State.start []) t [] [] rfl ran n
      (by simp [undeleted])
    exact binds.1 stmt member (direct stmt member) named

/-- A failed assignment is not made up for in full: the inner target of a chain stays unbound, and so does
what stands behind a part of a target that fails. -/
theorem failed_assignment_misses_names :
    validate [] "c = len\nif c:\n    a = b = missing\na\n" = .valid ∧
      validate [] "c = len\nif c:\n    a = b = missing\nb\n" = .undefinedReference "b" 4 ∧
      validate [] "c = len\nif c:\n    missing.attr, y = 1, 2\ny\n" = .undefinedReference "y" 4 := by
  decide +kernel

end Excerpt.Execution
