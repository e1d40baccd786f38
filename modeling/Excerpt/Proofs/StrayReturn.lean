import Excerpt.Proofs.ValidFunctions

/-!
A `return` outside every function is a fault of the syntax, but it is found only when it is reached.
Then it fails the source, unless a handler catches the fault or a last clause fails in its place. So in
a source that is accepted, such a `return` is dead code: any other statement could stand there.
-/
namespace Excerpt.Execution
open Excerpt.Program Excerpt.Text Exec

/-- Both steps do the same, unless the first fails with a fault of the syntax. -/
def Tracks {α : Type} (step other : Exec α) : Prop :=
  ∀ s, step s = other s ∨ ∃ r, (step s).1 = .error r ∧ r.isSyntaxError

namespace Tracks

variable {α β : Type}

theorem refl (step : Exec α) : Tracks step step := fun _ => .inl rfl

theorem bind {step other : Exec α} {next after : α → Exec β} (first : Tracks step other)
    (rest : ∀ a, Tracks (next a) (after a)) : Tracks (step >>= next) (other >>= after) := by
  intro s
  rcases first s with same | ⟨r,failed,fault⟩
  · rw [bind_apply,bind_apply,← same]
    rcases step s with ⟨_ | a,t⟩
    · exact .inl rfl
    · exact rest a t
  · refine .inr ⟨r,?_,fault⟩
    rw [bind_apply]
    rcases ran : step s with ⟨_ | a,t⟩ <;> rw [ran] at failed <;> cases failed
    rfl

/-- What may not run lets a fault of the syntax through. -/
theorem perhaps {step other : Exec α} (first : Tracks step other) :
    Tracks (Exec.perhaps step) (Exec.perhaps other) := by
  intro s
  unfold Exec.perhaps
  rw [attempt_bind_apply,attempt_bind_apply]
  rcases first s with same | ⟨r,failed,fault⟩
  · rw [same]
    exact .inl rfl
  · refine .inr ⟨r,?_,fault⟩
    rw [failed]
    dsimp only
    rw [if_pos fault]
    rfl

theorem inClass {step other : Exec α} (inside : Tracks step other) :
    Tracks (Exec.inClass step) (Exec.inClass other) := by
  intro s
  refine (inside {s with locals := some _}).imp (fun same => ?_) id
  exact congrArg (fun ran => (ran.1,{ran.2 with locals := s.locals})) same

end Tracks

/-- Whether a handler catches faults of the syntax. -/
def catchesFaults : Handler → Bool
  | .mk items _ => catches items (.syntaxError 0 0)

/-- A block that can fail only with a fault of the syntax. -/
def Harmless (lazy : Bool) (block : List Stmt) : Prop :=
  ∀ s r, (executeAll lazy block s).1 = .error r → r.isSyntaxError

mutual
/-- The second statement is the first with other statements in place of some returns that stand outside
functions. None of them stands where its fault could get lost: in the body of a `try` with a handler
for it, or in front of a last clause that may fail otherwise. -/
inductive Cleared (lazy : Bool) : Stmt → Stmt → Prop
  | same (s : Stmt) : Cleared lazy s s
  | result (place : Position) (items : List Expr) (s : Stmt) : Cleared lazy (.result place items) s
  | classDef {decorations : List Decoration} {name : String} {bases : List Expr}
      {body body' : List Stmt} (inBody : ClearedAll lazy body body') :
      Cleared lazy (.define decorations (.classDef name bases body))
        (.define decorations (.classDef name bases body'))
  | branch {branches branches' : List Branch}
      (inBranches : ClearedBranches lazy branches branches') :
      Cleared lazy (.branch branches) (.branch branches')
  | forLoop {target iterable : Expr} {body body' otherwise otherwise' : List Stmt}
      (inBody : ClearedAll lazy body body') (inElse : ClearedAll lazy otherwise otherwise') :
      Cleared lazy (.forLoop target iterable body otherwise)
        (.forLoop target iterable body' otherwise')
  | whileLoop {condition : Expr} {body body' otherwise otherwise' : List Stmt}
      (inBody : ClearedAll lazy body body') (inElse : ClearedAll lazy otherwise otherwise') :
      Cleared lazy (.whileLoop condition body otherwise) (.whileLoop condition body' otherwise')
  | attempt {body body' otherwise otherwise' final final' : List Stmt}
      {handlers handlers' : List Handler}
      (inBody : ClearedAll lazy body body') (inHandlers : ClearedHandlers lazy handlers handlers')
      (inElse : ClearedAll lazy otherwise otherwise') (inFinal : ClearedAll lazy final final')
      (uncaught : body = body' ∨ ∀ h ∈ handlers, catchesFaults h = false)
      (kept : (body = body' ∧ handlers = handlers' ∧ otherwise = otherwise') ∨ Harmless lazy final) :
      Cleared lazy (.attempt body handlers otherwise final)
        (.attempt body' handlers' otherwise' final')
  | within {items : List Expr} {body body' : List Stmt} (inBody : ClearedAll lazy body body') :
      Cleared lazy (.within items body) (.within items body')
  | choose {subjects : List Expr} {cases cases' : List Case}
      (inCases : ClearedCases lazy cases cases') :
      Cleared lazy (.choose subjects cases) (.choose subjects cases')
inductive ClearedAll (lazy : Bool) : List Stmt → List Stmt → Prop
  | nil : ClearedAll lazy [] []
  | cons {s t : Stmt} {ss ts : List Stmt} (first : Cleared lazy s t) (rest : ClearedAll lazy ss ts) :
      ClearedAll lazy (s :: ss) (t :: ts)
inductive ClearedBranches (lazy : Bool) : List Branch → List Branch → Prop
  | nil : ClearedBranches lazy [] []
  | cons {condition : Option Expr} {body body' : List Stmt} {bs cs : List Branch}
      (first : ClearedAll lazy body body') (rest : ClearedBranches lazy bs cs) :
      ClearedBranches lazy (.mk condition body :: bs) (.mk condition body' :: cs)
inductive ClearedHandlers (lazy : Bool) : List Handler → List Handler → Prop
  | nil : ClearedHandlers lazy [] []
  | cons {items : List Expr} {body body' : List Stmt} {hs ks : List Handler}
      (first : ClearedAll lazy body body') (rest : ClearedHandlers lazy hs ks) :
      ClearedHandlers lazy (.mk items body :: hs) (.mk items body' :: ks)
inductive ClearedCases (lazy : Bool) : List Case → List Case → Prop
  | nil : ClearedCases lazy [] []
  | cons {patterns : List PatternName} {condition : List Expr} {body body' : List Stmt}
      {cs ds : List Case} (first : ClearedAll lazy body body') (rest : ClearedCases lazy cs ds) :
      ClearedCases lazy (.mk patterns condition body :: cs) (.mk patterns condition body' :: ds)
end

theorem catches_syntaxError {items : List Expr} {r : Raised} (fault : r.isSyntaxError) :
    catches items r = catches items (.syntaxError 0 0) := by
  cases r with
  | syntaxError line column => rfl
  | _ => cases fault

/-- A fault that no handler catches is raised again. -/
theorem handle_of_uncaught {lazy : Bool} {r : Raised} (fault : r.isSyntaxError) :
    ∀ {handlers : List Handler}, (∀ h ∈ handlers, catchesFaults h = false) →
      handle lazy r handlers = raise r
  | [],_ => by rw [handle]
  | .mk items body :: hs,uncaught => by
    have here : catches items r = false :=
      (catches_syntaxError fault).trans (uncaught (.mk items body) List.mem_cons_self)
    rw [handle,here,if_neg Bool.false_ne_true]
    exact handle_of_uncaught fault fun h member => uncaught h (List.mem_cons_of_mem _ member)

/-- Only a `return` is replaced by a statement with names of its own. -/
theorem Cleared.bindNames {lazy : Bool} {s t : Stmt} (cleared : Cleared lazy s t) :
    (∃ place items, s = .result place items) ∨ Execution.bindNames s = Execution.bindNames t := by
  cases cleared with
  | result place items t => exact .inl ⟨place,items,rfl⟩
  | _ => exact .inr rfl

section LastClause

variable {lazy : Bool} {body body' otherwise otherwise' final final' : List Stmt}
  {handlers handlers' : List Handler}

/-- How a `try` goes on when its body has ended. -/
def goOn (lazy : Bool) (handlers : List Handler) (otherwise : List Stmt) :
    Except Raised Unit → Exec Unit
  | .ok _ => executeAll lazy otherwise
  | .error r => handle lazy r handlers

/-- The last clause runs in any event, and what came before it counts if it succeeds. -/
def finish (lazy : Bool) (final : List Stmt) (result : Except Raised Unit) : Exec Unit := do
  executeAll lazy final
  liftM result

theorem execute_attempt_apply (s : State) :
    execute lazy (.attempt body handlers otherwise final) s =
      finish lazy final
        (goOn lazy handlers otherwise (executeAll lazy body s).1 (executeAll lazy body s).2).1
        (goOn lazy handlers otherwise (executeAll lazy body s).1 (executeAll lazy body s).2).2 := by
  rw [execute,attempt_bind_apply]
  rcases (executeAll lazy body s).1 <;> rfl

/-- A last clause that does no harm lets a fault of the syntax through. -/
theorem finish_fault (harmless : Harmless lazy final) {r : Raised} (fault : r.isSyntaxError)
    (s : State) : ∃ q, (finish lazy final (.error r) s).1 = .error q ∧ q.isSyntaxError := by
  rw [finish,bind_apply]
  rcases ran : executeAll lazy final s with ⟨q | _,t⟩
  · exact ⟨q,rfl,harmless s q (by rw [ran])⟩
  · exact ⟨r,rfl,fault⟩

theorem tracks_attempt (inBody : Tracks (executeAll lazy body) (executeAll lazy body'))
    (inHandlers : ∀ r, Tracks (handle lazy r handlers) (handle lazy r handlers'))
    (inElse : Tracks (executeAll lazy otherwise) (executeAll lazy otherwise'))
    (inFinal : Tracks (executeAll lazy final) (executeAll lazy final'))
    (uncaught : body = body' ∨ ∀ h ∈ handlers, catchesFaults h = false)
    (kept : (body = body' ∧ handlers = handlers' ∧ otherwise = otherwise') ∨ Harmless lazy final) :
    Tracks (execute lazy (.attempt body handlers otherwise final))
      (execute lazy (.attempt body' handlers' otherwise' final')) := by
  intro s
  have finishing (result : Except Raised Unit) :
      Tracks (finish lazy final result) (finish lazy final' result) :=
    inFinal.bind fun _ => .refl _
  rw [execute_attempt_apply,execute_attempt_apply]
  rcases kept with ⟨rfl,rfl,rfl⟩ | harmless
  · exact finishing _ _
  · have ended : executeAll lazy body s = executeAll lazy body' s ∨
        ∃ r, (executeAll lazy body s).1 = .error r ∧ r.isSyntaxError ∧
          handle lazy r handlers = raise r := by
      rcases uncaught with rfl | uncaught
      · exact .inl rfl
      · refine (inBody s).imp_right fun ⟨r,failed,fault⟩ => ?_
        exact ⟨r,failed,fault,handle_of_uncaught fault uncaught⟩
    rcases ended with same | ⟨r,failed,fault,raised⟩
    · rw [← same]
      have going : Tracks (goOn lazy handlers otherwise (executeAll lazy body s).1)
          (goOn lazy handlers' otherwise' (executeAll lazy body s).1) := by
        rcases (executeAll lazy body s).1 with r | _
        · exact inHandlers r
        · exact inElse
      rcases going (executeAll lazy body s).2 with alike | ⟨r,failed,fault⟩
      · rw [← alike]
        exact finishing _ _
      · rw [failed]
        exact .inr (finish_fault harmless fault _)
    · rw [failed,goOn,raised]
      exact .inr (finish_fault harmless fault _)

end LastClause

mutual
/-- A statement in which returns were replaced does what it did before, unless one of them is reached.
That is a fault which stands. -/
theorem Cleared.tracks {lazy : Bool} :
    ∀ {s t : Stmt}, Cleared lazy s t → Tracks (execute lazy s) (execute lazy t)
  | _,_,.same s => .refl _
  | _,_,.result place items t => fun _ => .inr ⟨_,by rw [execute]; rfl,rfl⟩
  | _,_,.classDef inBody => by
    rw [execute,execute,define,define]
    refine .bind (.refl _) fun values => .bind (.bind (.refl _) fun _ => ?_) fun _ => .refl _
    exact inBody.tracks.inClass
  | _,_,.branch inBranches => by
    rw [execute,execute]
    exact inBranches.tracks true
  | _,_,.forLoop inBody inElse => by
    rw [execute,execute]
    refine .bind (.refl _) fun source => .bind (.refl _) fun _ => ?_
    split
    · exact inElse.tracks
    · exact .bind (.refl _) fun _ => .bind inBody.tracks fun _ => inElse.tracksMaybe
    · exact .bind (.refl _) fun _ => .bind inBody.tracksMaybe fun _ => inElse.tracksMaybe
  | _,_,.whileLoop inBody inElse => by
    rw [execute,execute]
    refine .bind (.refl _) fun decided => ?_
    split
    · exact inElse.tracks
    · exact .bind inBody.tracks fun _ => inElse.tracksMaybe
    · exact .bind inBody.tracksMaybe fun _ => inElse.tracksMaybe
  | _,_,.attempt inBody inHandlers inElse inFinal uncaught kept =>
    tracks_attempt inBody.tracks inHandlers.tracks inElse.tracks inFinal.tracks uncaught kept
  | _,_,.within inBody => by
    rw [execute,execute]
    exact .bind (.refl _) fun _ => inBody.tracks
  | _,_,.choose inCases => by
    rw [execute,execute]
    exact .bind (.refl _) fun _ => inCases.tracks
theorem ClearedAll.tracks {lazy : Bool} :
    ∀ {ss ts : List Stmt}, ClearedAll lazy ss ts → Tracks (executeAll lazy ss) (executeAll lazy ts)
  | _,_,.nil => .refl _
  | _,_,.cons first rest => by
    rw [executeAll,executeAll]
    exact .bind first.tracks fun _ => rest.tracks
theorem ClearedAll.tracksMaybe {lazy : Bool} :
    ∀ {ss ts : List Stmt}, ClearedAll lazy ss ts →
      Tracks (executeMaybe lazy ss) (executeMaybe lazy ts)
  | _,_,.nil => .refl _
  | _,_,.cons first rest => by
    rw [executeMaybe,executeMaybe]
    rcases first.bindNames with ⟨place,items,rfl⟩ | names
    · -- The return is reached, whatever stands in its place.
      refine fun s => .inr ⟨.syntaxError (place.row + 1) (place.column + 1),?_,rfl⟩
      rw [execute]
      rfl
    · refine .bind first.tracks.perhaps fun ran => ?_
      rw [names]
      dsimp only
      split
      · exact .bind (.refl _) fun _ => rest.tracksMaybe
      · exact rest.tracksMaybe
theorem ClearedBranches.tracks {lazy : Bool} :
    ∀ {bs cs : List Branch}, ClearedBranches lazy bs cs →
      ∀ certain, Tracks (executeBranches lazy certain bs) (executeBranches lazy certain cs)
  | _,_,.nil,_ => .refl _
  | _,_,@ClearedBranches.cons _ condition body body' bs cs first rest,certain => by
    have entered (truth : Option Bool) :
        Tracks (enter lazy certain body bs truth) (enter lazy certain body' cs truth) := by
      rcases truth with _ | _ | _
      · exact .bind first.tracksMaybe fun _ => rest.tracks false
      · exact rest.tracks certain
      · cases certain with
        | true => exact first.tracks
        | false => exact first.tracksMaybe
    rw [executeBranches_cons,executeBranches_cons]
    exact .bind (.refl _) entered
theorem ClearedHandlers.tracks {lazy : Bool} :
    ∀ {hs ks : List Handler}, ClearedHandlers lazy hs ks →
      ∀ r, Tracks (handle lazy r hs) (handle lazy r ks)
  | _,_,.nil,_ => .refl _
  | _,_,.cons first rest,r => by
    rw [handle,handle]
    split
    · exact .bind (.refl _) fun _ => first.tracks
    · exact rest.tracks r
theorem ClearedCases.tracks {lazy : Bool} :
    ∀ {cs ds : List Case}, ClearedCases lazy cs ds →
      Tracks (executeCases lazy cs) (executeCases lazy ds)
  | _,_,.nil => .refl _
  | _,_,.cons first rest => by
    rw [executeCases,executeCases]
    exact .bind (.refl _) fun _ => .bind (.refl _) fun _ => .bind first.tracksMaybe fun _ =>
      rest.tracks
end

theorem isLazy_of_cleared {lazy : Bool} {program program' : List Stmt}
    (cleared : ClearedAll lazy program program')
    (reached : ∀ place items, .result place items ∉ program) : isLazy program = isLazy program' := by
  induction program generalizing program' with
  | nil =>
    cases cleared
    rfl
  | cons s ss ih =>
    cases cleared with
    | cons first rest =>
      have later := ih rest fun place items member => reached place items (List.mem_cons_of_mem _ member)
      simp only [isLazy,List.any_cons] at later ⊢
      rw [later]
      cases first with
      | result place items t => exact absurd List.mem_cons_self (reached place items)
      | _ => rfl

/-- A `return` is never run to its end. -/
theorem execute_result_ne_ok {lazy : Bool} {place : Position} {items : List Expr} {s t : State} :
    execute lazy (.result place items) s ≠ (.ok (),t) := by
  rw [execute]
  exact nofun

theorem executeAll_ne_ok {lazy : Bool} {block : List Stmt} {place : Position} {items : List Expr}
    (member : .result place items ∈ block) (s t : State) : executeAll lazy block s ≠ (.ok (),t) := by
  intro ran
  obtain ⟨_,_,ended,_⟩ := execute_of_executeAll ran member
  exact execute_result_ne_ok ended

/-- In a source that is accepted, no `return` is reached, and any other statement could stand in its
place. -/
theorem run_of_cleared {known : List String} {program program' : List Stmt}
    (cleared : ClearedAll (isLazy program) program program') (ran : run known program = .ok ()) :
    run known program' = .ok () := by
  obtain ⟨s,executed,checked⟩ := ok_of_run ran
  have reached (place : Position) (items : List Expr) : .result place items ∉ program :=
    fun member => executeAll_ne_ok member _ s executed
  have same : executeAll (isLazy program) program' (State.start known) = (.ok (),s) := by
    rcases cleared.tracks (State.start known) with same | ⟨r,failed,_⟩
    · exact same.symm.trans executed
    · rw [executed] at failed
      cases failed
  rw [run,← isLazy_of_cleared cleared reached,same]
  exact checked

/-- A `return` that stands where statements are run in any event, unless something fails before. -/
inductive Unavoidable : List Stmt → Prop
  | here {program : List Stmt} {place : Position} {items : List Expr}
      (member : .result place items ∈ program) : Unavoidable program
  | inClass {program body : List Stmt} {decorations : List Decoration} {name : String}
      {bases : List Expr} (member : .define decorations (.classDef name bases body) ∈ program)
      (inside : Unavoidable body) : Unavoidable program
  | inWith {program body : List Stmt} {items : List Expr} (member : .within items body ∈ program)
      (inside : Unavoidable body) : Unavoidable program
  | inTry {program body otherwise final : List Stmt}
      (member : .attempt body [] otherwise final ∈ program) (inside : Unavoidable body) :
      Unavoidable program
  | inFinal {program body otherwise final : List Stmt} {handlers : List Handler}
      (member : .attempt body handlers otherwise final ∈ program) (inside : Unavoidable final) :
      Unavoidable program
  | inCase {program body : List Stmt} {subjects condition : List Expr} {cases : List Case}
      {patterns : List PatternName} {place : Position} {items : List Expr}
      (member : .choose subjects cases ∈ program) (among : .mk patterns condition body ∈ cases)
      (reached : .result place items ∈ body) : Unavoidable program
  | inForElse {program body otherwise : List Stmt} {target iterable : Expr} {place : Position}
      {items : List Expr} (member : .forLoop target iterable body otherwise ∈ program)
      (reached : .result place items ∈ otherwise) : Unavoidable program
  | inWhileElse {program body otherwise : List Stmt} {condition : Expr} {place : Position}
      {items : List Expr} (member : .whileLoop condition body otherwise ∈ program)
      (reached : .result place items ∈ otherwise) : Unavoidable program

/-- Also where a block may not run, a `return` of its own is found. -/
theorem executeMaybe_ne_ok {lazy : Bool} {block : List Stmt} {place : Position} {items : List Expr}
    (member : .result place items ∈ block) (s t : State) :
    executeMaybe lazy block s ≠ (.ok (),t) := by
  induction block generalizing s with
  | nil => cases member
  | cons first rest ih =>
    intro ran
    rw [executeMaybe] at ran
    obtain ⟨ended,m,own,later⟩ := ok_of_bind ran
    rcases List.mem_cons.1 member with rfl | member
    · rw [execute] at own
      cases own
    · dsimp only at later
      split at later
      · obtain ⟨_,m',_,later⟩ := ok_of_bind later
        exact ih member m' later
      · exact ih member m later

theorem executeCases_ne_ok {lazy : Bool} {cases : List Case} {patterns : List PatternName}
    {condition : List Expr} {body : List Stmt} {place : Position} {items : List Expr}
    (among : .mk patterns condition body ∈ cases) (reached : .result place items ∈ body)
    (s t : State) : executeCases lazy cases s ≠ (.ok (),t) := by
  induction cases generalizing s with
  | nil => cases among
  | cons first rest ih =>
    intro ran
    obtain ⟨patterns',condition',body'⟩ := first
    rw [executeCases] at ran
    obtain ⟨_,_,_,ran⟩ := ok_of_bind ran
    obtain ⟨_,m,_,ran⟩ := ok_of_bind ran
    obtain ⟨_,m',own,later⟩ := ok_of_bind ran
    rcases List.mem_cons.1 among with same | among
    · cases same
      exact executeMaybe_ne_ok reached m m' own
    · exact ih among m' later

theorem ok_of_finish {lazy : Bool} {final : List Stmt} {result : Except Raised Unit} {s t : State}
    (ran : finish lazy final result s = (.ok (),t)) :
    result = .ok () ∧ ∃ m, executeAll lazy final s = (.ok (),m) := by
  obtain ⟨_,m,own,later⟩ := ok_of_bind ran
  cases result with
  | ok _ => exact ⟨rfl,m,own⟩
  | error r => cases later

theorem Unavoidable.fails {lazy : Bool} {program : List Stmt} (unavoidable : Unavoidable program)
    (s t : State) : executeAll lazy program s ≠ (.ok (),t) := by
  intro ran
  induction unavoidable generalizing s t with
  | here member => exact executeAll_ne_ok member s t ran
  | inClass member _ ih =>
    obtain ⟨_,_,executed,_⟩ := execute_of_executeAll ran member
    obtain ⟨_,_,defined,_⟩ := define_of_execute executed
    rw [define] at defined
    obtain ⟨_,_,_,inside⟩ := ok_of_bind defined
    obtain ⟨before,after,ran,_⟩ := ok_of_inClass inside
    exact ih before after ran
  | inWith member _ ih =>
    obtain ⟨_,_,executed,_⟩ := execute_of_executeAll ran member
    rw [execute] at executed
    obtain ⟨_,m,_,ran⟩ := ok_of_bind executed
    exact ih m _ ran
  | @inTry _ body _ _ member _ ih =>
    obtain ⟨before,_,executed,_⟩ := execute_of_executeAll ran member
    rw [execute_attempt_apply] at executed
    have went := (ok_of_finish executed).1
    rcases ended : executeAll lazy body before with ⟨r | _,m⟩
    · rw [ended,goOn,handle] at went
      cases went
    · exact ih before m ended
  | inFinal member _ ih =>
    obtain ⟨_,_,executed,_⟩ := execute_of_executeAll ran member
    rw [execute_attempt_apply] at executed
    obtain ⟨m,ran⟩ := (ok_of_finish executed).2
    exact ih _ m ran
  | inCase member among reached =>
    obtain ⟨_,_,executed,_⟩ := execute_of_executeAll ran member
    rw [execute] at executed
    obtain ⟨_,m,_,ran⟩ := ok_of_bind executed
    exact executeCases_ne_ok among reached m _ ran
  | inForElse member reached =>
    obtain ⟨_,_,executed,_⟩ := execute_of_executeAll ran member
    rw [execute] at executed
    obtain ⟨source,_,_,ran⟩ := ok_of_bind executed
    obtain ⟨_,m,_,ran⟩ := ok_of_bind ran
    rcases filled : source.truth with _ | _ | _ <;> rw [filled] at ran
    case some.false => exact executeAll_ne_ok reached m _ ran
    all_goals
      obtain ⟨_,_,_,ran⟩ := ok_of_bind ran
      obtain ⟨_,m,_,ran⟩ := ok_of_bind ran
      exact executeMaybe_ne_ok reached m _ ran
  | inWhileElse member reached =>
    obtain ⟨_,_,executed,_⟩ := execute_of_executeAll ran member
    rw [execute] at executed
    obtain ⟨decided,m,_,ran⟩ := ok_of_bind executed
    rcases holds : decided.truth with _ | _ | _ <;> rw [holds] at ran
    case some.false => exact executeAll_ne_ok reached m _ ran
    all_goals
      obtain ⟨_,m,_,ran⟩ := ok_of_bind ran
      exact executeMaybe_ne_ok reached m _ ran

/-- When a `return` outside functions fails a source. It does where it cannot be avoided, whatever is
known of modules. Elsewhere it does unless it is not reached: then the source is accepted whatever
stands in its place, with the sole exception of places in which its fault could get lost. -/
theorem stray_return_unreached {known : List String} {program : List Stmt}
    (accepted : run known program = .ok ()) :
    ¬ Unavoidable program ∧
      ∀ program', ClearedAll (isLazy program) program program' → run known program' = .ok () := by
  refine ⟨fun unavoidable => ?_,fun program' cleared => run_of_cleared cleared accepted⟩
  obtain ⟨s,executed,_⟩ := ok_of_run accepted
  exact unavoidable.fails _ s executed

/-- Two returns that are not reached, in a handler and in a branch; what stands in their place is not
reached, either. -/
theorem stray_return_unreached_handler :
    run [] [.attempt [.skip] [.mk [.name "KeyError" 3] [.result default []]] [] [],
      .branch [.mk (some (.truth false)) [.result default []]]] = .ok () ∧
    run [] [.attempt [.skip] [.mk [.name "KeyError" 3] [.raising [] none]] [] [],
      .branch [.mk (some (.truth false)) [.evaluate [.name "missing" 6]]]] = .ok () := by
  have accepted : run [] [.attempt [.skip] [.mk [.name "KeyError" 3] [.result default []]] [] [],
      .branch [.mk (some (.truth false)) [.result default []]]] = .ok () := rfl
  refine ⟨accepted,(stray_return_unreached accepted).2 _ ?_⟩
  refine .cons (.attempt (.cons (.same _) .nil) (.cons (.cons (.result _ _ _) .nil) .nil) .nil .nil
    (.inl rfl) (.inr ?_)) (.cons (.branch (.cons (.cons (.result _ _ _) .nil) .nil)) .nil)
  intro s r failed
  cases failed

/-- A `return` outside functions can pass: caught by a handler, in a branch that is known not to run,
and in a loop over nothing. -/
theorem stray_return_accepted :
    validate [] "try:\n    return 1\nexcept Exception:\n    pass\n" = .valid ∧
      validate [] "if False:\n    return 1\n" = .valid ∧
      validate [] "for x in []:\n    return 1\n" = .valid := by
  decide +kernel

end Excerpt.Execution
