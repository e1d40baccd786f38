import Excerpt.Proofs.Effect

/-!
Steps that keep to a list of effects. A step is permitted if it is put together from the basic
steps of a run and every basic step is covered by an effect of the list. What no permitted step
can do is shown here once, by induction on how steps are put together.
-/
namespace Excerpt.Execution
open Excerpt.Program Exec

/-- Imports the module at a path and keeps what is known of modules from then on. -/
def importModule (path : String) (level : Nat) (names : List String) : Exec Unit := do
  let modules ← liftM ((← get).modules.importPath path level names)
  modify fun s => {s with modules := modules}

inductive Permitted : List Effect → {α : Type} → Exec α → Prop
  | pure {effects : List Effect} {α : Type} (a : α) : Permitted effects (Pure.pure a : Exec α)
  | raise {effects : List Effect} {α : Type} {r : Raised}
      (fault : r.isSyntaxError → .halt ∈ effects) : Permitted effects (Exec.raise r : Exec α)
  | bind {effects : List Effect} {α β : Type} {step : Exec α} {next : α → Exec β}
      (first : Permitted effects step) (rest : ∀ a, Permitted effects (next a)) :
      Permitted effects (step >>= next)
  | lookup {effects : List Effect} {name : String} {line : Nat}
      (covered : .read name ∈ effects) : Permitted effects (Exec.lookup name line)
  | store {effects : List Effect} {name : String} {value : Value}
      (covered : .bind name ∈ effects) : Permitted effects (Exec.store name value)
  | unbind {effects : List Effect} {name : String} {line : Nat}
      (covered : .drop name ∈ effects) : Permitted effects (Exec.unbind name line)
  | defer {effects : List Effect} {scope : Scope}
      (covered : .defer scope ∈ effects) : Permitted effects (Exec.defer scope)
  /-- How a step ended decides what comes next. -/
  | recover {effects : List Effect} {α β : Type} {step : Exec α} {next : Except Raised α → Exec β}
      (first : Permitted effects step) (succeeded : ∀ a, Permitted effects (next (.ok a)))
      (failed : ∀ r, (r.isSyntaxError → .halt ∈ effects) → Permitted effects (next (.error r))) :
      Permitted effects (Exec.attempt step >>= next)
  | inClass {effects inner : List Effect} {α : Type} {step : Exec α}
      (inside : Permitted inner step) (outside : ∀ e ∈ inner, e.outlives → e ∈ effects) :
      Permitted effects (Exec.inClass step)
  /-- What is known of modules decides what comes next. -/
  | consult {effects : List Effect} {α : Type} {next : Modules → Exec α}
      (rest : ∀ m, Permitted effects (next m)) :
      Permitted effects (get >>= fun s => next s.modules)
  | importing {effects : List Effect} {path : String} {level : Nat} {names : List String}
      (covered : .touch ∈ effects) : Permitted effects (importModule path level names)
  | setAttribute {effects : List Effect} {path attr : String} (covered : .touch ∈ effects) :
      Permitted effects (modify fun s => {s with modules := s.modules.setAttribute path attr})

theorem ok_of_any {ε α : Type} {result : Except ε α} {check : α → Bool}
    (passed : result.toOption.any check) : ∃ a, result = .ok a ∧ check a := by
  cases result with
  | error e => cases passed
  | ok a => exact ⟨a,rfl,passed⟩

theorem bind_apply {α β : Type} (step : Exec α) (next : α → Exec β) (s : State) :
    (step >>= next) s = match step s with
      | (.ok a,t) => next a t
      | (.error r,t) => (.error r,t) := by
  simp only [bind,ExceptT.bind,ExceptT.mk,StateT.bind]
  rcases step s with ⟨_ | _,t⟩ <;> rfl

theorem attempt_bind_apply {α β : Type} (step : Exec α) (next : Except Raised α → Exec β)
    (s : State) : (attempt step >>= next) s = next (step s).1 (step s).2 := rfl

theorem consult_apply {α : Type} (next : Modules → Exec α) (s : State) :
    (get >>= fun s => next s.modules : Exec α) s = next s.modules s := rfl

theorem importModule_apply (path : String) (level : Nat) (names : List String) (s : State) :
    importModule path level names s = match s.modules.importPath path level names with
      | .ok modules => (.ok (),{s with modules := modules})
      | .error r => (.error r,s) := by
  change (liftM (s.modules.importPath path level names) >>= _ : Exec Unit) s = _
  rw [bind_apply]
  cases s.modules.importPath path level names <;> rfl

theorem importPlain_cons (n : ImportedName) (ns : List ImportedName) :
    importPlain (n :: ns) = (do
      importModule n.name 0 []
      let root := firstSegment n.name
      store n.bound (.module (if n.bound = root then root else n.name))
      importPlain ns) := by
  rw [importPlain]
  simp only [importModule,bind_assoc]

theorem runImport_from {statement : ImportStatement} (named : statement.kind ≠ .plain) :
    runImport statement =
      importModule statement.path statement.level (statement.names.map ImportedName.name) >>= fun _ =>
        bindImported statement.path statement.names := by
  unfold runImport
  cases kind : statement.kind with
  | plain => exact absurd kind named
  | fromModule => simp only [importModule,bind_assoc]
  | future => simp only [importModule,bind_assoc]

theorem lookup_apply (name : String) (line : Nat) (s : State) :
    lookup name line s = (match s.find? name with
      | some value => .ok value
      | none => .error (.nameError name line),s) := by
  change (match s.find? name with
    | some value => Pure.pure value
    | none => raise (.nameError name line) : Exec Value) s = _
  cases s.find? name <;> rfl

/-- The namespace in which names are bound. -/
def State.current (s : State) : Namespace := s.locals.getD s.globals

theorem State.current_bind (s : State) (name : String) (value : Value) :
    (s.bind name value).current = setAt name value s.current := by
  cases found : s.locals <;> simp [State.bind,State.current,found]

/-- The state in which a name of the current namespace is gone. -/
def State.erase (s : State) (name : String) : State :=
  match s.locals with
  | some env => {s with locals := some (eraseAt name env)}
  | none => {s with globals := eraseAt name s.globals}

theorem State.current_erase (s : State) (name : String) :
    (s.erase name).current = eraseAt name s.current := by
  cases found : s.locals <;> simp [State.erase,State.current,found]

theorem unbind_apply (name : String) (line : Nat) (s : State) :
    unbind name line s = if (valueAt name s.current).isSome then (.ok (),s.erase name)
      else (.error (.nameError name line),s) := by
  unfold unbind State.erase State.current
  obtain ⟨modules,globals,_ | env,deferred⟩ := s
  all_goals
    simp only [Option.getD_none,Option.getD_some]
    change (if _ then _ else _ : Exec Unit) _ = _
    split <;> rfl

/-- How the state after a permitted step is related to the state before it. -/
structure Follows (effects : List Effect) (s t : State) : Prop where
  place : t.locals.isSome = s.locals.isSome
  /-- From inside a class body the names of the module cannot be changed. -/
  globals : s.locals.isSome → t.globals = s.globals
  bound : ∀ n, (valueAt n t.current).isSome → (valueAt n s.current).isSome ∨ .bind n ∈ effects
  kept : ∀ n, .bind n ∉ effects → .drop n ∉ effects → valueAt n t.current = valueAt n s.current
  deferred : ∃ new, t.deferred = new ++ s.deferred ∧ ∀ scope ∈ new, .defer scope ∈ effects
  modules : .touch ∉ effects → t.modules = s.modules

namespace Follows

theorem refl (effects : List Effect) (s : State) : Follows effects s s where
  place := rfl
  globals _ := rfl
  bound _ := Or.inl
  kept _ _ _ := rfl
  deferred := ⟨[],rfl,by simp⟩
  modules _ := rfl

theorem trans {effects : List Effect} {s t u : State} (first : Follows effects s t)
    (second : Follows effects t u) : Follows effects s u where
  place := second.place.trans first.place
  globals inside := (second.globals (first.place.trans inside)).trans (first.globals inside)
  bound n present := (second.bound n present).elim (first.bound n) Or.inr
  kept n unbound undropped := (second.kept n unbound undropped).trans (first.kept n unbound undropped)
  deferred := by
    obtain ⟨early,before,coveredBefore⟩ := first.deferred
    obtain ⟨late,after,coveredAfter⟩ := second.deferred
    refine ⟨late ++ early,by rw [after,before,List.append_assoc],fun scope member => ?_⟩
    exact (List.mem_append.1 member).elim (coveredAfter scope) (coveredBefore scope)
  modules untouched := (second.modules untouched).trans (first.modules untouched)

theorem bind {effects : List Effect} (s : State) {name : String} (value : Value)
    (covered : .bind name ∈ effects) : Follows effects s (s.bind name value) where
  place := by cases found : s.locals <;> simp [State.bind,found]
  globals inside := by
    obtain ⟨env,found⟩ := Option.isSome_iff_exists.1 inside
    simp [State.bind,found]
  bound n present := by
    rw [State.current_bind,valueAt_setAt] at present
    by_cases same : name = n
    · exact Or.inr (same ▸ covered)
    · exact Or.inl (by simpa [same] using present)
  kept n unbound _ := by
    have other : name ≠ n := fun same => unbound (same ▸ covered)
    rw [State.current_bind,valueAt_setAt,if_neg other]
  deferred := ⟨[],by cases found : s.locals <;> simp [State.bind,found],by simp⟩
  modules _ := by cases found : s.locals <;> simp [State.bind,found]

theorem erase {effects : List Effect} (s : State) {name : String}
    (covered : .drop name ∈ effects) : Follows effects s (s.erase name) where
  place := by cases found : s.locals <;> simp [State.erase,found]
  globals inside := by
    obtain ⟨env,found⟩ := Option.isSome_iff_exists.1 inside
    simp [State.erase,found]
  bound n present := by
    rw [State.current_erase,valueAt_eraseAt] at present
    by_cases same : name = n
    · simp [same] at present
    · exact Or.inl (by simpa [same] using present)
  kept n _ undropped := by
    have other : name ≠ n := fun same => undropped (same ▸ covered)
    rw [State.current_erase,valueAt_eraseAt,if_neg other]
  deferred := ⟨[],by cases found : s.locals <;> simp [State.erase,found],by simp⟩
  modules _ := by cases found : s.locals <;> simp [State.erase,found]

/-- Only the modules differ. -/
theorem revise {effects : List Effect} (s : State) (modules : Modules)
    (covered : .touch ∈ effects) : Follows effects s {s with modules := modules} where
  place := rfl
  globals _ := rfl
  bound _ := Or.inl
  kept _ _ _ := rfl
  deferred := ⟨[],rfl,by simp⟩
  modules untouched := absurd covered untouched

/-- The body of a class runs in a namespace of its own. -/
theorem inClass {effects inner : List Effect} {s t : State} {env : Namespace}
    (inside : Follows inner {s with locals := some env} t)
    (outside : ∀ e ∈ inner, e.outlives → e ∈ effects) :
    Follows effects s {t with locals := s.locals} := by
  have globals : t.globals = s.globals := inside.globals rfl
  have current : ({t with locals := s.locals} : State).current = s.current := by
    simp only [State.current,globals]
  refine ⟨rfl,fun _ => globals,fun n present => Or.inl (current ▸ present),
    fun n _ _ => by rw [current],?_,fun untouched => ?_⟩
  · obtain ⟨new,extended,covered⟩ := inside.deferred
    exact ⟨new,extended,fun scope member => outside _ (covered scope member) rfl⟩
  · exact inside.modules fun touched => untouched (outside _ touched rfl)

end Follows

namespace Permitted

/-- A permitted step fails with a fault of the syntax only if its effects say so. -/
theorem fault {effects : List Effect} {α : Type} {step : Exec α}
    (permitted : Permitted effects step) (s : State) (r : Raised) (failed : (step s).1 = .error r)
    (syntactic : r.isSyntaxError) : .halt ∈ effects := by
  induction permitted generalizing s r with
  | pure a => cases failed
  | raise fault =>
    cases failed
    exact fault syntactic
  | @bind _ _ _ step next _ _ first rest =>
    rw [bind_apply] at failed
    rcases ran : step s with ⟨_ | a,t⟩
    · rw [ran] at failed
      cases failed
      exact first s _ (by rw [ran]) syntactic
    · rw [ran] at failed
      exact rest a t r failed syntactic
  | @lookup _ name line _ =>
    rw [lookup_apply] at failed
    cases found : s.find? name <;> rw [found] at failed <;> cases failed
    cases syntactic
  | store _ => cases failed
  | unbind _ =>
    rw [unbind_apply] at failed
    split at failed <;> cases failed
    cases syntactic
  | defer _ => cases failed
  | @recover _ _ _ step next _ _ _ first succeeded failure =>
    rw [attempt_bind_apply] at failed
    rcases ran : (step s).1 with q | a
    · rw [ran] at failed
      exact failure q (first s q ran) _ r failed syntactic
    · rw [ran] at failed
      exact succeeded a _ r failed syntactic
  | inClass _ outside inside => exact outside _ (inside _ r failed syntactic) rfl
  | consult _ rest => exact rest s.modules s r failed syntactic
  | importing _ =>
    rw [importModule_apply] at failed
    unfold Modules.importPath at failed
    split at failed <;> cases failed
    rename_i refused
    split at refused <;> cases refused
    cases syntactic
  | setAttribute _ => cases failed

/-- What a permitted step does to the state is bounded by its effects, also if it fails. -/
theorem follows {effects : List Effect} {α : Type} {step : Exec α}
    (permitted : Permitted effects step) (s : State) : Follows effects s (step s).2 := by
  induction permitted generalizing s with
  | pure a => exact Follows.refl _ s
  | raise fault => exact Follows.refl _ s
  | @bind _ _ _ step next _ _ first rest =>
    have before := first s
    rw [bind_apply]
    rcases ran : step s with ⟨_ | a,t⟩
    · rw [ran] at before
      exact before
    · rw [ran] at before
      exact before.trans (rest a t)
  | lookup covered =>
    rw [lookup_apply]
    exact Follows.refl _ s
  | store covered => exact Follows.bind s _ covered
  | @unbind _ name line covered =>
    rw [unbind_apply]
    split
    · exact Follows.erase s covered
    · exact Follows.refl _ s
  | @defer _ scope covered =>
    exact ⟨rfl,fun _ => rfl,fun _ => Or.inl,fun _ _ _ => rfl,
      ⟨[scope],rfl,by simpa using covered⟩,fun _ => rfl⟩
  | @recover _ _ _ step next permitted _ _ first succeeded failed =>
    rw [attempt_bind_apply]
    rcases ran : (step s).1 with r | a
    · exact (first s).trans (failed r (permitted.fault s r ran) _)
    · exact (first s).trans (succeeded a _)
  | inClass _ outside inside => exact (inside _).inClass outside
  | consult _ rest => exact rest s.modules s
  | importing covered =>
    rw [importModule_apply]
    split
    · exact Follows.revise s _ covered
    · exact Follows.refl _ s
  | setAttribute covered => exact Follows.revise s _ covered

end Permitted

end Excerpt.Execution
