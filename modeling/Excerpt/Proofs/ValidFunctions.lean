import Excerpt.Proofs.Mention
import Excerpt.Proofs.PermittedRun
import Excerpt.Validation

/-!
What a valid verdict says about functions. The module is run, functions are not; still every name
that a function of a valid source looks up is bound somewhere.
-/
namespace Excerpt.Execution
open Excerpt.Names Excerpt.Program Exec

theorem ok_of_bind {α β : Type} {step : Exec α} {next : α → Exec β} {s t : State} {b : β}
    (ran : (step >>= next) s = (.ok b,t)) :
    ∃ a m, step s = (.ok a,m) ∧ next a m = (.ok b,t) := by
  rw [bind_apply] at ran
  rcases first : step s with ⟨r | a,m⟩ <;> rw [first] at ran
  · cases ran
  · exact ⟨a,m,rfl,ran⟩

theorem ok_of_inClass {α : Type} {step : Exec α} {s t : State} {a : α}
    (ran : inClass step s = (.ok a,t)) :
    ∃ before after, step before = (.ok a,after) ∧ after.deferred = t.deferred := by
  obtain ⟨result,after⟩ := Prod.mk.inj ran
  exact ⟨_,_,Prod.ext result rfl,by rw [← after]⟩

/-- A step that is put together from permitted ones forgets no scope. -/
theorem Permitted.deferred_subset {effects : List Effect} {α : Type} {step : Exec α}
    (permitted : Permitted effects step) {s t : State} {a : Except Raised α}
    (ran : step s = (a,t)) : s.deferred ⊆ t.deferred := by
  obtain ⟨new,grown,_⟩ := (permitted.follows s).deferred
  rw [ran] at grown
  rw [grown]
  exact List.subset_append_right new s.deferred

theorem executeAll_deferred_subset {lazy : Bool} {program : List Stmt} {s t : State}
    {a : Except Raised Unit} (ran : executeAll lazy program s = (a,t)) : s.deferred ⊆ t.deferred :=
  (executeAll_permitted lazy program (List.Subset.refl _)).deferred_subset ran

/-- A run that succeeds runs each of its statements, and none forgets what was kept before. -/
theorem execute_of_executeAll {lazy : Bool} {program : List Stmt} {stmt : Stmt} {s t : State}
    (ran : executeAll lazy program s = (.ok (),t)) (member : stmt ∈ program) :
    ∃ before after, execute lazy stmt before = (.ok (),after) ∧ after.deferred ⊆ t.deferred := by
  induction program generalizing s with
  | nil => cases member
  | cons first rest ih =>
    rw [executeAll] at ran
    obtain ⟨_,m,own,later⟩ := ok_of_bind ran
    rcases List.mem_cons.1 member with rfl | member
    · exact ⟨s,m,own,executeAll_deferred_subset later⟩
    · exact ih later member

theorem define_of_execute {lazy : Bool} {ds : List Decoration} {d : Definition} {s t : State}
    (ran : execute lazy (.define ds d) s = (.ok (),t)) :
    ∃ before after, define lazy d before = (.ok (),after) ∧ after.deferred ⊆ t.deferred := by
  rw [execute] at ran
  obtain ⟨values,m,_,rest⟩ := ok_of_bind ran
  obtain ⟨_,m',defined,rest⟩ := ok_of_bind rest
  have decorated : Permitted [.bind d.name]
      (do applyDecorators values; store d.name .unknown : Exec Unit) :=
    .bind (applyDecorators_permitted values) fun _ => .store (by simp)
  exact ⟨m,m',defined,decorated.deferred_subset rest⟩

/-- The functions that are defined directly by statements, or directly in the body of a class that
is. -/
inductive DirectFunction : List Stmt → List Parameter → List Stmt → Prop
  | function {program : List Stmt} {decorations : List Decoration} {name : String}
      {parameters : List Parameter} {hint : Option Expr} {body : List Stmt}
      (member : .define decorations (.function name parameters hint body) ∈ program) :
      DirectFunction program parameters body
  | method {program : List Stmt} {decorations : List Decoration} {name : String}
      {bases : List Expr} {classBody : List Stmt} {parameters : List Parameter} {body : List Stmt}
      (member : .define decorations (.classDef name bases classBody) ∈ program)
      (inside : DirectFunction classBody parameters body) : DirectFunction program parameters body

/-- A run that succeeds keeps the scopes of all direct functions. -/
theorem DirectFunction.deferred {lazy : Bool} {program body : List Stmt}
    {parameters : List Parameter} (direct : DirectFunction program parameters body) {s t : State}
    (ran : executeAll lazy program s = (.ok (),t)) :
    functionScope lazy parameters body ∈ t.deferred := by
  induction direct generalizing s t with
  | function member =>
    obtain ⟨_,_,executed,kept⟩ := execute_of_executeAll ran member
    obtain ⟨_,m,defined,passed⟩ := define_of_execute executed
    rw [define] at defined
    obtain ⟨_,_,_,put⟩ := ok_of_bind defined
    cases put
    exact kept (passed List.mem_cons_self)
  | method member _ ih =>
    obtain ⟨_,_,executed,kept⟩ := execute_of_executeAll ran member
    obtain ⟨_,m,defined,passed⟩ := define_of_execute executed
    rw [define] at defined
    obtain ⟨_,entered,_,inside⟩ := ok_of_bind defined
    obtain ⟨_,left,ran,same⟩ := ok_of_inClass inside
    exact kept (passed (same ▸ ih ran))

theorem earliest_eq_none {refs : List NameRef} (none : earliest refs = none) : refs = [] := by
  cases refs with
  | nil => rfl
  | cons r rs =>
    rw [earliest] at none
    split at none
    · split at none <;> cases none
    · cases none

/-- A run is accepted only if all that was kept for the end is resolved. -/
theorem unresolved_of_checkDeferred {s : State} (checked : checkDeferred s = .ok ()) {scope : Scope}
    (kept : scope ∈ s.deferred) :
    scope.unresolved (fun n =>
      (moduleNames s.globals s.deferred.reverse).contains n || isBuiltin n) [] = [] := by
  unfold checkDeferred at checked
  split at checked
  · cases checked
  · next none =>
    have all := earliest_eq_none none
    rw [List.flatMap_eq_nil_iff] at all
    exact all scope (List.mem_reverse.2 kept)

theorem ok_of_run {known : List String} {program : List Stmt} (ran : run known program = .ok ()) :
    ∃ s, executeAll (isLazy program) program (State.start known) = (.ok (),s) ∧
      checkDeferred s = .ok () := by
  unfold run at ran
  split at ran
  · next s executed => exact ⟨s,executed,ran⟩
  · cases ran

theorem valueAt_isSome_of_mem {n : String} {env : Namespace} (member : n ∈ env.map Prod.fst) :
    (valueAt n env).isSome := by
  induction env with
  | nil => cases member
  | cons entry env ih =>
    obtain ⟨key,value⟩ := entry
    rw [valueAt]
    split
    · rfl
    · next other => exact ih ((List.mem_cons.1 member).resolve_left (Ne.symm other))

/-- A scope that adds a name to the module is that of a function, and one scope inside it both binds
the name and declares it global. -/
theorem function_of_mem_globalStores {lazy : Bool} {program : List Stmt} {f : Scope} {n : String}
    (deferred : .defer f ∈ bodyEffects lazy program) (stored : n ∈ f.globalStores) :
    f.kind = .function ∧
      ∃ around scope, f.Inside around scope ∧ n ∈ scope.globals ∧ n ∈ scope.bindings := by
  refine ⟨?_,Scope.inside_of_mem_globalStores f .self stored⟩
  by_cases kind : f.kind = .function
  · exact kind
  · rw [(bodyEffects_within lazy program _ deferred).2 kind] at stored
    cases stored

/-- A name of a complete module is bound by code of the module, or bound and declared global by one
scope of a function that this code defines. -/
theorem mem_moduleNames {lazy : Bool} {known : List String} {program : List Stmt} {s : State}
    {a : Except Raised Unit} (ran : executeAll lazy program (State.start known) = (a,s)) {n : String}
    (present : n ∈ moduleNames s.globals s.deferred.reverse) :
    .bind n ∈ bodyEffects lazy program ∨
      ∃ f, .defer f ∈ bodyEffects lazy program ∧ f.kind = .function ∧
        ∃ around scope, f.Inside around scope ∧ n ∈ scope.globals ∧ n ∈ scope.bindings := by
  have permitted := executeAll_permitted lazy program (List.Subset.refl _)
  have follows := permitted.follows (State.start known)
  rw [ran] at follows
  rcases List.mem_append.1 present with bound | stored
  · left
    have outside : s.locals = none := by simpa [State.start] using follows.place
    have valued : (valueAt n s.current).isSome := by
      simpa [State.current,outside] using valueAt_isSome_of_mem bound
    exact (follows.bound n valued).resolve_left (by simp [State.current,State.start,valueAt])
  · right
    obtain ⟨f,kept,stored⟩ := List.mem_flatMap.1 stored
    obtain ⟨new,grown,covered⟩ := follows.deferred
    have grown : s.deferred = new := by simpa [State.start] using grown
    have deferred : .defer f ∈ bodyEffects lazy program :=
      covered f (grown ▸ List.mem_reverse.1 kept)
    exact ⟨f,deferred,function_of_mem_globalStores deferred stored⟩

theorem Raised.verdict_ne_valid (r : Raised) : r.verdict ≠ .valid := by
  cases r with
  | other exception message line =>
    simp only [Raised.verdict]
    split
    · simp
    · split <;> simp
  | nameError | importError | syntaxError => simp [Raised.verdict]

theorem run_of_valid {known : List String} {source : Source}
    (valid : runStatically known source = .valid) : run known (ofTree source.root) = .ok () := by
  unfold runStatically at valid
  split at valid
  · next ran => exact ran
  · next r _ => exact absurd valid r.verdict_ne_valid

/-- Nothing is missing in a valid source: whatever a direct function looks up, in its own scope or
in one inside it, is found in these scopes, is builtin, is bound by code of the module outside
classes and functions, or is bound and declared global by one scope of some function. -/
theorem lookups_answered_of_valid {known : List String} {source : Source}
    (valid : runStatically known source = .valid) {parameters : List Parameter} {body : List Stmt}
    (direct : DirectFunction (ofTree source.root) parameters body) {around : List Frame}
    {scope : Scope}
    (inside : (functionScope (isLazy (ofTree source.root)) parameters body).Inside around scope)
    {ref : NameRef} (loaded : ref ∈ scope.loads) :
    scope.frame.resolves nowhere around ref.name ∨ isBuiltin ref.name ∨
      .bind ref.name ∈ bodyEffects (isLazy (ofTree source.root)) (ofTree source.root) ∨
      ∃ f, .defer f ∈ bodyEffects (isLazy (ofTree source.root)) (ofTree source.root) ∧
        f.kind = .function ∧ ∃ outer inner, f.Inside outer inner ∧ ref.name ∈ inner.globals ∧
          ref.name ∈ inner.bindings := by
  obtain ⟨s,ran,checked⟩ := ok_of_run (run_of_valid valid)
  have answered := inside.resolves_of_unresolved_eq_nil
    (unresolved_of_checkDeferred checked (direct.deferred ran)) loaded
  rw [Frame.resolves_eq_or,Bool.or_eq_true,Bool.or_eq_true] at answered
  rcases answered with lexical | present | builtin
  · exact .inl lexical
  · exact .inr (.inr (mem_moduleNames ran (List.contains_iff_mem.1 present)))
  · exact .inr (.inl builtin)

/-- Whether a text is read as a source that passes a test. -/
def readsAs (text : String) (test : Source → Bool) : Bool :=
  match Source.read text with
  | .error _ => false
  | .ok source => test source

theorem ok_of_readsAs {text : String} {test : Source → Bool} (passed : readsAs text test) :
    ∃ source, Source.read text = .ok source ∧ test source := by
  unfold readsAs at passed
  split at passed
  · cases passed
  · next source read => exact ⟨source,read,passed⟩

/-- A function that reads a name which only another function makes global. -/
theorem lookups_answered_of_global_store :
    ∃ source parameters body ref,
      Source.read "def f():\n    global g\n    g = 1\ndef h():\n    return g\n" = .ok source ∧
      runStatically [] source = .valid ∧ DirectFunction (ofTree source.root) parameters body ∧
      ref ∈ (functionScope (isLazy (ofTree source.root)) parameters body).loads ∧ ref.name = "g" ∧
      ∃ f, .defer f ∈ bodyEffects (isLazy (ofTree source.root)) (ofTree source.root) ∧
        f.kind = .function ∧ ∃ outer inner, f.Inside outer inner ∧ "g" ∈ inner.globals ∧
          "g" ∈ inner.bindings := by
  have computed : (match Source.read "def f():\n    global g\n    g = 1\ndef h():\n    return g\n" with
    | .error _ => false
    | .ok source =>
      let program := ofTree source.root
      decide (runStatically [] source = .valid) &&
        !((bodyEffects (isLazy program) program).filterMap Effect.bound?).contains "g" &&
        program.any fun
          | .define _ (.function _ parameters _ body) =>
            let scope := functionScope (isLazy program) parameters body
            scope.loads.any (·.name == "g") && !scope.frame.resolves nowhere [] "g"
          | _ => false) = true := by decide +kernel
  split at computed
  · cases computed
  · next source read =>
    simp only [Bool.and_eq_true,decide_eq_true_eq,List.any_eq_true,Bool.not_eq_true'] at computed
    obtain ⟨⟨valid,unbound⟩,stmt,member,shape⟩ := computed
    split at shape
    · next ds name parameters hint body =>
      simp only [Bool.and_eq_true,List.any_eq_true,beq_iff_eq,Bool.not_eq_true'] at shape
      obtain ⟨⟨ref,loaded,same⟩,unresolved⟩ := shape
      have direct : DirectFunction (ofTree source.root) parameters body := .function member
      refine ⟨source,parameters,body,ref,read,valid,direct,loaded,same,?_⟩
      have answer := lookups_answered_of_valid valid direct .self loaded
      rw [same,unresolved] at answer
      rcases answer with lexical | builtin | bound | stored
      · cases lexical
      · exact absurd builtin (by decide +kernel)
      · have listed : "g" ∈ (bodyEffects (isLazy (ofTree source.root)) (ofTree source.root)).filterMap
            Effect.bound? := List.mem_filterMap.2 ⟨_,bound,rfl⟩
        rw [← List.contains_iff_mem,unbound] at listed
        cases listed
      · exact stored
    · cases shape

end Excerpt.Execution
