import Excerpt.Proofs.ValidFunctions

/-!
Class bodies keep to themselves. What the body of a class binds or deletes stays in the namespace of
the class, whether the body succeeds or fails. Outside of it, all that is left are scopes for the
check at the end and what became known of modules, which is never taken back.
-/
namespace Excerpt.Execution
open Excerpt.Program Exec

namespace Modules

/-- Every module that was known is known afterwards, and as real as it was. -/
def Keeps (before after : Modules) : Prop :=
  ∀ path entry, before.entry? path = some entry →
    ∃ later, after.entry? path = some later ∧ later.real = entry.real

theorem Keeps.refl (m : Modules) : m.Keeps m := fun _ entry found => ⟨entry,found,rfl⟩

theorem Keeps.trans {m n o : Modules} (first : m.Keeps n) (second : n.Keeps o) : m.Keeps o := by
  intro path entry found
  obtain ⟨middle,there,asReal⟩ := first path entry found
  obtain ⟨later,still,asBefore⟩ := second path middle there
  exact ⟨later,still,asBefore.trans asReal⟩

theorem lookup_insert (m : Modules) (path other : String) (entry : ModuleEntry) :
    Modules.entry? (m.insert path entry) other = if path = other then some entry else m.entry? other :=
  valueAt_setAt path other entry m.entries

theorem keeps_insert {m : Modules} {path : String} (new : m.contains path = false)
    (entry : ModuleEntry) : m.Keeps (m.insert path entry) := by
  intro other known found
  have different : path ≠ other := by
    rintro rfl
    simp [contains,found] at new
  exact ⟨known,by rw [lookup_insert,if_neg different,found],rfl⟩

theorem keeps_adjust (m : Modules) (path : String)
    (change : List (String × Value) → List (String × Value)) : m.Keeps (m.adjust path change) := by
  unfold adjust
  split
  · next entry here =>
    intro other known found
    by_cases same : path = other
    · subst same
      obtain rfl : entry = known := Option.some.inj (here.symm.trans found)
      exact ⟨{entry with attributes := change entry.attributes},by rw [lookup_insert,if_pos rfl],rfl⟩
    · exact ⟨known,by rw [lookup_insert,if_neg same,found],rfl⟩
  · exact .refl m

theorem keeps_ensure (real : Bool) (lineage : List (String × String)) (m : Modules) :
    m.Keeps (ensure real lineage m) := by
  induction lineage generalizing m with
  | nil => exact .refl m
  | cons link parents ih =>
    obtain ⟨path,leaf⟩ := link
    rw [ensure]
    split
    · exact .refl m
    · next absent =>
      have grown := (keeps_insert (by simpa using absent) ⟨real,[]⟩).trans (ih (m.insert path ⟨real,[]⟩))
      cases parents with
      | nil => exact grown
      | cons parent _ => exact grown.trans (keeps_adjust _ parent.1 _)

theorem keeps_importPath {m n : Modules} {path : String} {level : Nat} {names : List String}
    (imported : m.importPath path level names = .ok n) : m.Keeps n := by
  unfold importPath at imported
  split at imported
  · cases imported
  · cases imported
    have grown := keeps_ensure (m.resolves path) (pathLineage path) m
    split
    · exact grown
    · exact grown.trans (keeps_adjust _ path _)

end Modules

/-- No step forgets a module, or changes its mind on whether the module is real. -/
theorem Permitted.keeps {effects : List Effect} {α : Type} {step : Exec α}
    (permitted : Permitted effects step) (s : State) : s.modules.Keeps (step s).2.modules := by
  induction permitted generalizing s with
  | pure a => exact .refl _
  | raise fault => exact .refl _
  | @bind _ _ _ step next _ _ first rest =>
    have before := first s
    rw [bind_apply]
    rcases ran : step s with ⟨_ | a,t⟩
    · rw [ran] at before
      exact before
    · rw [ran] at before
      exact before.trans (rest a t)
  | lookup covered =>
    rw [lookup_apply]
    exact .refl _
  | @store _ name value covered =>
    change s.modules.Keeps (s.bind name value).modules
    cases found : s.locals <;> simpa [State.bind,found] using Modules.Keeps.refl _
  | @unbind _ name line covered =>
    rw [unbind_apply]
    split
    · cases found : s.locals <;> simpa [State.erase,found] using Modules.Keeps.refl _
    · exact .refl _
  | defer covered => exact .refl _
  | @recover _ _ _ step next _ _ _ first succeeded failed =>
    have before := first s
    rw [attempt_bind_apply]
    rcases ran : (step s).1 with r | a
    · exact before.trans (failed r (Permitted.fault ‹_› s r ran) _)
    · exact before.trans (succeeded a _)
  | inClass _ _ inside => exact inside ⟨s.modules,s.globals,some _,s.deferred⟩
  | consult _ rest => exact rest s.modules s
  | importing covered =>
    rw [importModule_apply]
    split
    · next imported => exact Modules.keeps_importPath imported
    · exact .refl _
  | @setAttribute _ path attr covered => exact Modules.keeps_adjust s.modules path _

/-- What a class leaves behind. It starts in the state `start`, and its body in the state `entered`,
when its bases have been evaluated. -/
structure Contained (lazy : Bool) (body : List Stmt) (start entered left : State) : Prop where
  globals : left.globals = entered.globals
  locals : left.locals = entered.locals
  /-- Scopes are only added, behind those that were deferred before. -/
  deferred : ∃ ofBases ofBody, entered.deferred.reverse = start.deferred.reverse ++ ofBases ∧
    left.deferred.reverse = entered.deferred.reverse ++ ofBody ∧
    ∀ scope ∈ ofBody, .defer scope ∈ bodyEffects lazy body
  modulesOfBases : start.modules.Keeps entered.modules
  modulesOfBody : entered.modules.Keeps left.modules
  /-- The body adds no names to the module but those that its functions declare global and bind. -/
  names : ∀ n ∈ moduleNames left.globals left.deferred.reverse,
    n ∈ moduleNames entered.globals entered.deferred.reverse ∨
      ∃ f, .defer f ∈ bodyEffects lazy body ∧ f.kind = .function ∧
        ∃ around scope, f.Inside around scope ∧ n ∈ scope.globals ∧ n ∈ scope.bindings

/-- Deferred scopes in the order of the source: a step adds its own behind those that are there. -/
theorem Follows.deferred_reverse {effects : List Effect} {s t : State} (follows : Follows effects s t) :
    ∃ new, t.deferred.reverse = s.deferred.reverse ++ new ∧
      ∀ scope ∈ new, .defer scope ∈ effects := by
  obtain ⟨new,grown,covered⟩ := follows.deferred
  refine ⟨new.reverse,by rw [grown,List.reverse_append],fun scope member => ?_⟩
  exact covered scope (List.mem_reverse.1 member)

/-- The body of a class is run in the state that its bases leave, and the namespace that it runs in is
gone afterwards. -/
theorem define_class_state (lazy : Bool) (name : String) (bases : List Expr) (body : List Stmt)
    (s : State) :
    (define lazy (.classDef name bases body) s).2 = (evaluateBases bases s).2 ∨
      ∃ env, (define lazy (.classDef name bases body) s).2 =
        {(executeAll lazy body {(evaluateBases bases s).2 with locals := some env}).2 with
          locals := (evaluateBases bases s).2.locals} := by
  rw [define,bind_apply]
  rcases evaluateBases bases s with ⟨_ | _,entered⟩
  · exact .inl rfl
  · exact .inr ⟨_,rfl⟩

theorem contained_define (lazy : Bool) (name : String) (bases : List Expr) (body : List Stmt)
    (s : State) :
    Contained lazy body s (evaluateBases bases s).2 (define lazy (.classDef name bases body) s).2 := by
  have permitted := evaluateBases_permitted bases (List.Subset.refl _)
  obtain ⟨ofBases,before,_⟩ := (permitted.follows s).deferred_reverse
  rcases define_class_state lazy name bases body s with failed | ⟨env,left⟩
  · rw [failed]
    exact ⟨rfl,rfl,⟨ofBases,[],before,by simp,by simp⟩,permitted.keeps s,.refl _,fun _ => .inl⟩
  · rw [left]
    have inside := executeAll_permitted lazy body (List.Subset.refl _)
    have follows := inside.follows {(evaluateBases bases s).2 with locals := some env}
    have kept := inside.keeps {(evaluateBases bases s).2 with locals := some env}
    have globals := follows.globals rfl
    obtain ⟨ofBody,after,covered⟩ := follows.deferred_reverse
    refine ⟨globals,rfl,⟨ofBases,ofBody,before,after,covered⟩,permitted.keeps s,kept,?_⟩
    intro n present
    dsimp only at present
    rw [globals,after,moduleNames,List.flatMap_append,← List.append_assoc,List.mem_append] at present
    refine present.imp_right fun stored => ?_
    obtain ⟨f,member,stored⟩ := List.mem_flatMap.1 stored
    exact ⟨f,covered f member,function_of_mem_globalStores (covered f member) stored⟩

/-- Class bodies do not leak, whether they succeed or fail. What a class leaves behind is what its
bases made of the names of the module, with further scopes and modules; and bodies that defer the
same scopes give the module the same names, whatever they bind. -/
theorem class_body_contained (lazy : Bool) (name : String) (bases : List Expr) (body : List Stmt)
    (s : State) :
    Contained lazy body s (evaluateBases bases s).2 (define lazy (.classDef name bases body) s).2 ∧
      ∀ other : List Stmt, (define lazy (.classDef name bases other) s).2.deferred =
          (define lazy (.classDef name bases body) s).2.deferred →
        moduleNames (define lazy (.classDef name bases other) s).2.globals
            (define lazy (.classDef name bases other) s).2.deferred.reverse =
          moduleNames (define lazy (.classDef name bases body) s).2.globals
            (define lazy (.classDef name bases body) s).2.deferred.reverse := by
  have contained := contained_define lazy name bases body s
  refine ⟨contained,fun other same => ?_⟩
  have globals := (contained_define lazy name bases other s).globals
  rw [same,globals,contained.globals]

end Excerpt.Execution
