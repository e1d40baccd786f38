import Excerpt.Proofs.FunctionOrder
import Excerpt.Proofs.StatementNames
import Excerpt.Proofs.StrayReturn

/-!
Handlers that raise again. A `raise` with nothing behind it does not know which exception is being
handled: it always fails for want of one. So a handler that only raises again hides what its `try` failed
with, and changes nothing else.
-/
namespace Excerpt.Syntax.Tree

/-- A `raise` with nothing behind it. -/
def isBareRaise (t : Tree) : Bool := t.is .raiseStatement && t.namedChildren.isEmpty

/-- A block in which a bare `raise` is the only statement. -/
def onlyRaises (t : Tree) : Bool :=
  t.is .block && (t.children.filter (!isBetween ·)).length == 1 &&
    (t.children.filter (!isBetween ·)).all isBareRaise

/-- A handler that names no exception and only raises again. -/
def isReraise (t : Tree) : Bool :=
  t.is .exceptClause && (t.children.filter fun c => c.isNamed && !c.is .comment).length == 1 &&
    (t.children.filter fun c => c.isNamed && !c.is .comment).all onlyRaises

/-- The clauses behind the body of a `try`. -/
def isTryClause (t : Tree) : Bool :=
  t.is .exceptClause || t.is .exceptGroupClause || t.is .elseClause || t.is .finallyClause

/-- A `try` with such a handler and no other clause. -/
def isReraising (t : Tree) : Bool :=
  t.is .tryStatement && (t.children.filter isTryClause).length == 1 &&
    (t.children.filter isTryClause).all isReraise

/-- A list with one member that passes a test splits there. -/
theorem split_of_single {p q : Tree → Bool} {ts : List Tree} (one : (ts.filter p).length = 1)
    (good : (ts.filter p).all q) : ∃ front x back, ts = front ++ x :: back ∧ q x ∧
      (∀ y ∈ front, p y = false) ∧ (∀ y ∈ back, p y = false) ∧ ts.filter p = [x] := by
  obtain ⟨x,single⟩ := List.length_eq_one_iff.1 one
  obtain ⟨front,back,rfl,before,_,behind⟩ := List.filter_eq_cons_iff.1 single
  rw [single] at good
  refine ⟨front,x,back,rfl,by simpa using good,fun y member => ?_,fun y member => ?_,single⟩
  · simpa using before y member
  · simpa using List.filter_eq_nil_iff.1 behind y member

end Excerpt.Syntax.Tree

namespace Excerpt.Program
open Excerpt.Syntax Excerpt.Syntax.Tree

theorem handlersOf_eq_map (ts : List Tree) : handlersOf ts =
    (ts.filter fun t => t.is .exceptClause || t.is .exceptGroupClause).map fun t =>
      .mk (handlerItems t.children) (bodyOfBlocks t.children) := by
  induction ts with
  | nil => rfl
  | cons t ts ih =>
    obtain ⟨l,cs⟩ := t
    rw [handlersOf,List.filter_cons,ih]
    by_cases handler : l.symbol == .named .exceptClause || l.symbol == .named .exceptGroupClause
    · simp only [Tree.is,symbol_node,handler,if_true,List.map_cons,children_node]
    · simp only [Tree.is,symbol_node,handler,Bool.false_eq_true,if_false]

theorem bodyOfBlocks_eq_flatMap (ts : List Tree) :
    bodyOfBlocks ts = (ts.filter (·.is .block)).flatMap fun t => bodyOf t.children := by
  induction ts with
  | nil => rfl
  | cons t ts ih =>
    obtain ⟨l,cs⟩ := t
    rw [bodyOfBlocks,List.filter_cons,ih]
    by_cases block : l.symbol == .named .block
    · simp only [Tree.is,symbol_node,block,if_true,List.flatMap_cons,children_node]
    · simp only [Tree.is,symbol_node,block,Bool.false_eq_true,if_false]

theorem otherwiseOf_eq_nil {ts : List Tree} (none : ∀ t ∈ ts, t.is .elseClause = false) :
    otherwiseOf ts = [] := by
  induction ts with
  | nil => rfl
  | cons t ts ih =>
    obtain ⟨l,cs⟩ := t
    obtain ⟨here,later⟩ := List.forall_mem_cons.1 none
    rw [otherwiseOf,ih later,if_neg]
    simpa [Tree.is] using here

theorem finalOf_eq_nil {ts : List Tree} (none : ∀ t ∈ ts, t.is .finallyClause = false) :
    finalOf ts = [] := by
  induction ts with
  | nil => rfl
  | cons t ts ih =>
    obtain ⟨l,cs⟩ := t
    obtain ⟨here,later⟩ := List.forall_mem_cons.1 none
    rw [finalOf,ih later,if_neg]
    simpa [Tree.is] using here

/-- The statements around a statement. -/
theorem bodyOf_split {t : Tree} {k : Kind} (kind : t.is k) (before after : List Tree) :
    bodyOf (before ++ t :: after) = bodyOf before ++ stmtOf t :: bodyOf after := by
  rw [bodyOf_append,bodyOf,if_pos (isNamed_of_is kind)]

theorem stmtOf_of_isBareRaise {t : Tree} (bare : t.isBareRaise) : stmtOf t = .raising [] none := by
  obtain ⟨l,cs⟩ := t
  simp only [isBareRaise,Tree.is,Bool.and_eq_true,beq_iff_eq,symbol_node,List.isEmpty_iff] at bare
  obtain ⟨symbol,childless⟩ := bare
  have unnamed : ∀ c ∈ cs, c.isNamed = false := by simpa [namedChildren] using childless
  have items : (exprsOf cs).items = [] := by
    rw [exprsOf_eq_map,Parts.items,List.map_eq_nil_iff,List.filter_eq_nil_iff]
    intro pair listed
    obtain ⟨c,child,rfl⟩ := List.mem_map.1 listed
    simp [unnamed c child]
  simp only [stmtOf,symbol,items,thrownBy,childless,List.head?_nil,Option.map_none]

/-- A block that only raises says nothing else. -/
theorem bodyOf_of_onlyRaises {t : Tree} (only : t.onlyRaises) : ∃ idle rest,
    bodyOf t.children = idle ++ .raising [] none :: rest ∧ ∀ stmt ∈ idle, stmt = .skip := by
  simp only [onlyRaises,Bool.and_eq_true,beq_iff_eq] at only
  obtain ⟨front,r,back,whole,bare,between,-,-⟩ := split_of_single only.1.2 only.2
  have raise : r.is .raiseStatement := (Bool.and_eq_true_iff.1 bare).1
  refine ⟨bodyOf front,bodyOf back,?_,skip_of_between fun u member => ?_⟩
  · rw [whole,bodyOf_split raise,stmtOf_of_isBareRaise bare]
  · simpa using between u member

/-- A handler that only raises again catches everything, and nothing else is done in it. -/
theorem handler_of_isReraise {t : Tree} (reraise : t.isReraise) :
    handlerItems t.children = [] ∧ ∃ idle rest,
      bodyOfBlocks t.children = idle ++ .raising [] none :: rest ∧ ∀ stmt ∈ idle, stmt = .skip := by
  simp only [isReraise,Bool.and_eq_true,beq_iff_eq] at reraise
  obtain ⟨front,block,back,whole,only,before,behind,single⟩ := split_of_single reraise.1.2 reraise.2
  have isBlock : block.is .block := by
    simp only [onlyRaises,Bool.and_eq_true] at only
    exact only.1.1
  constructor
  · rw [handlerItems,exprsOf_eq_map,Parts.items,List.map_eq_nil_iff,List.filter_eq_nil_iff]
    intro pair listed item
    obtain ⟨c,kept,rfl⟩ := List.mem_map.1 listed
    obtain ⟨child,other⟩ := List.mem_filter.1 kept
    have found : c ∈ [block] := single ▸ List.mem_filter.2 ⟨child,item⟩
    cases List.mem_singleton.1 found
    simp [isBlock] at other
  · have unblocked {ts : List Tree} (none : ∀ y ∈ ts, (y.isNamed && !y.is .comment) = false) :
        ts.filter (·.is .block) = [] := by
      refine List.filter_eq_nil_iff.2 fun y member block => ?_
      have extra := none y member
      simp only [Tree.is,beq_iff_eq] at block
      simp [isNamed,Tree.is,block] at extra
    rw [bodyOfBlocks_eq_flatMap,whole,List.filter_append,List.filter_cons,if_pos isBlock,
      unblocked before,unblocked behind]
    simpa using bodyOf_of_onlyRaises only

/-- The statement of a `try` that only raises again. -/
theorem stmtOf_of_isReraising {t b : Tree} (reraising : t.isReraising) (body : t.child? .body = some b) :
    ∃ idle rest, stmtOf t = .attempt (bodyOf b.children)
      [.mk [] (idle ++ .raising [] none :: rest)] [] [] ∧ ∀ stmt ∈ idle, stmt = .skip := by
  obtain ⟨l,cs⟩ := t
  simp only [isReraising,Bool.and_eq_true,beq_iff_eq,Tree.is,symbol_node,children_node] at reraising
  obtain ⟨front,h,back,whole,reraise,before,behind,-⟩ := split_of_single reraising.1.2 reraising.2
  obtain ⟨items,idle,rest,handled,skips⟩ := handler_of_isReraise reraise
  have isHandler : h.is .exceptClause := by
    simp only [isReraise,Bool.and_eq_true] at reraise
    exact reraise.1.1
  have clauseless {ts : List Tree} (none : ∀ y ∈ ts, y.isTryClause = false) : ∀ y ∈ ts,
      (y.is .exceptClause || y.is .exceptGroupClause) = false ∧ y.is .elseClause = false ∧
        y.is .finallyClause = false := by
    intro y member
    simpa [isTryClause,and_assoc] using none y member
  have handlers : handlersOf cs = [.mk [] (idle ++ .raising [] none :: rest)] := by
    have unhandled {ts : List Tree} (none : ∀ y ∈ ts, y.isTryClause = false) :
        ts.filter (fun y => y.is .exceptClause || y.is .exceptGroupClause) = [] :=
      List.filter_eq_nil_iff.2 fun y member => by simp [(clauseless none y member).1]
    rw [handlersOf_eq_map,whole,List.filter_append,List.filter_cons,if_pos (by simp [isHandler]),
      unhandled before,unhandled behind]
    simp [items,handled]
  have others : ∀ y ∈ cs, y.is .elseClause = false ∧ y.is .finallyClause = false := by
    intro y member
    rw [whole,List.mem_append,List.mem_cons] at member
    rcases member with member | rfl | member
    · exact (clauseless before y member).2
    · simp only [Tree.is,beq_iff_eq] at isHandler
      simp [Tree.is,isHandler]
    · exact (clauseless behind y member).2
  have own : bodyOfRole .body cs = bodyOf b.children := by
    rw [bodyOfRole_eq_find,show cs.find? (·.field == some .body) = some b from body]
    rfl
  refine ⟨idle,rest,?_,skips⟩
  simp only [stmtOf,reraising.1.1,own,handlers,otherwiseOf_eq_nil fun y member => (others y member).1,
    finalOf_eq_nil fun y member => (others y member).2]

end Excerpt.Program

namespace Excerpt.Execution
open Excerpt.Program Excerpt.Syntax Exec

/-- What a bare `raise` fails with, wherever it stands. -/
def nothingActive : Raised := .other "RuntimeError" "No active exception to reraise" 0

theorem executeAll_skips {lazy : Bool} {idle : List Stmt} (skips : ∀ stmt ∈ idle, stmt = .skip)
    (rest : List Stmt) : executeAll lazy (idle ++ rest) = executeAll lazy rest := by
  induction idle with
  | nil => rfl
  | cons stmt idle ih =>
    obtain ⟨rfl,later⟩ := List.forall_mem_cons.1 skips
    rw [List.cons_append,executeAll,execute,ih later,pure_bind]

/-- Statements that come to a bare `raise` fail there. -/
theorem executeAll_bareRaise {lazy : Bool} {idle : List Stmt} (skips : ∀ stmt ∈ idle, stmt = .skip)
    (rest : List Stmt) (s : State) :
    executeAll lazy (idle ++ .raising [] none :: rest) s = (.error nothingActive,s) := by
  rw [executeAll_skips skips,executeAll,execute,bind_apply]
  rfl

/-- A `try` that only raises again ends as its body does, but for the exception. -/
theorem execute_reraising {t b : Tree} (reraising : t.isReraising) (body : t.child? .body = some b)
    (lazy : Bool) (s : State) : execute lazy (stmtOf t) s =
      ((executeAll lazy (bodyOf b.children) s).1.mapError fun _ => nothingActive,
        (executeAll lazy (bodyOf b.children) s).2) := by
  obtain ⟨idle,rest,read,skips⟩ := stmtOf_of_isReraising reraising body
  rw [read,execute_attempt_apply]
  rcases executeAll lazy (bodyOf b.children) s with ⟨r | _,m⟩
  · have caught : catches [] r = true := rfl
    rw [goOn,handle,if_pos caught,bindAliases,pure_bind,executeAll_bareRaise skips]
    rfl
  · rfl

theorem isLazy_append (before after : List Stmt) :
    isLazy (before ++ after) = (isLazy before || isLazy after) := List.any_append

section Module

variable {t b : Tree} (reraising : t.isReraising) (body : t.child? .body = some b)
include reraising body

/-- Annotations are as lazy with the `try` as they are with its body in its place. -/
theorem isLazy_reraising (eager : isLazy (bodyOf b.children) = false) (before after : List Stmt) :
    isLazy (before ++ bodyOf b.children ++ after) = isLazy (before ++ stmtOf t :: after) := by
  obtain ⟨idle,rest,read,-⟩ := stmtOf_of_isReraising reraising body
  have own : isLazy [stmtOf t] = false := by rw [read]; rfl
  rw [← List.singleton_append,isLazy_append,isLazy_append,isLazy_append,isLazy_append,eager,own,
    Bool.or_false,Bool.false_or]

/-- Where the body comes to its end, the `try` around it makes no difference. -/
theorem runFrom_reraising_ok {lazy : Bool} {s m : State}
    (ran : executeAll lazy (bodyOf b.children) s = (.ok (),m)) (after : List Stmt) :
    runFrom lazy (stmtOf t :: after) s = runFrom lazy (bodyOf b.children ++ after) s := by
  have wrapped : execute lazy (stmtOf t) s = (.ok (),m) := by
    rw [execute_reraising reraising body,ran]
    rfl
  rw [runFrom_cons wrapped,runFrom,runFrom,executeAll_append after ran]

/-- Where the body fails, the `try` around it fails for want of an exception. -/
theorem runFrom_reraising_error {lazy : Bool} {s m : State} {r : Raised}
    (ran : executeAll lazy (bodyOf b.children) s = (.error r,m)) (after : List Stmt) :
    runFrom lazy (stmtOf t :: after) s = .error nothingActive ∧
      runFrom lazy (bodyOf b.children ++ after) s = .error r := by
  constructor
  · rw [runFrom,executeAll,bind_apply,execute_reraising reraising body,ran]
    rfl
  · rw [runFrom,executeAll_append_bind,bind_apply,ran]

end Module

theorem runFrom_append {lazy : Bool} {before : List Stmt} {s m : State}
    (reached : executeAll lazy before s = (.ok (),m)) (rest : List Stmt) :
    runFrom lazy (before ++ rest) s = runFrom lazy rest m := by
  rw [runFrom,executeAll_append rest reached,runFrom]

/-- The verdict on the way in which a run ended. -/
theorem runStatically_eq (known : List String) (source : Source) : runStatically known source =
    match runFrom (isLazy (ofTree source.root)) (ofTree source.root) (State.start known) with
      | .ok _ => .valid
      | .error r => r.verdict := rfl

/-- A `try` with the handler `except: raise` is as good as its body while nothing fails. What the body
fails with is lost: whatever it is, it is replaced by the complaint that no exception is active, also in
the verdict on a module in which the `try` stands. Except for the exception, everything is left behind
as the body left it. -/
theorem reraise_replaces_exception {t b : Tree} (reraising : t.isReraising)
    (body : t.child? .body = some b) :
    (∀ lazy s, (execute lazy (stmtOf t) s).2 = (executeAll lazy (bodyOf b.children) s).2 ∧
      ((executeAll lazy (bodyOf b.children) s).1 = .ok () → (execute lazy (stmtOf t) s).1 = .ok ()) ∧
      ∀ r, (executeAll lazy (bodyOf b.children) s).1 = .error r →
        (execute lazy (stmtOf t) s).1 = .error nothingActive) ∧
    ∀ (known : List String) (source : Source) (l : Label) (before after : List Tree),
      source.root = .node l (before ++ t :: after) → isLazy (bodyOf b.children) = false →
      ∀ s, executeAll (isLazy (ofTree source.root)) (bodyOf before) (State.start known) = (.ok (),s) →
        (∀ m, executeAll (isLazy (ofTree source.root)) (bodyOf b.children) s = (.ok (),m) →
          runStatically known source =
            runStatically known {source with root := .node l (before ++ b.children ++ after)}) ∧
        ∀ r m, executeAll (isLazy (ofTree source.root)) (bodyOf b.children) s = (.error r,m) →
          runStatically known source = .executionError "RuntimeError" "No active exception to reraise" ∧
          runStatically known {source with root := .node l (before ++ b.children ++ after)} =
            r.verdict := by
  refine ⟨fun lazy s => ?_,fun known source l before after root eager s reached => ?_⟩
  · rw [execute_reraising reraising body]
    refine ⟨rfl,fun ran => ?_,fun r ran => ?_⟩
    · rw [ran]
      rfl
    · rw [ran]
      rfl
  · have attempt : t.is .tryStatement := by
      simp only [Tree.isReraising,Bool.and_eq_true] at reraising
      exact reraising.1.1
    have program : ofTree source.root = bodyOf before ++ stmtOf t :: bodyOf after := by
      rw [ofTree,root,Tree.children_node,bodyOf_split attempt]
    have spliced : ofTree (.node l (before ++ b.children ++ after)) =
        bodyOf before ++ (bodyOf b.children ++ bodyOf after) := by
      rw [ofTree,Tree.children_node,bodyOf_append,bodyOf_append,List.append_assoc]
    have lazy := isLazy_reraising reraising body eager (bodyOf before) (bodyOf after)
    rw [List.append_assoc,← spliced,← program] at lazy
    simp only [runStatically_eq,lazy]
    rw [program] at reached
    rw [program,spliced,runFrom_append reached,runFrom_append reached]
    refine ⟨fun m ran => ?_,fun r m ran => ?_⟩
    · rw [runFrom_reraising_ok reraising body ran]
    · obtain ⟨wrapped,bare⟩ := runFrom_reraising_error reraising body ran (bodyOf after)
      rw [wrapped,bare]
      exact ⟨rfl,rfl⟩

/-- A missing name in a `try` within a `try`, both of which raise again: from outside it looks as if
nothing had been raised at all. -/
theorem reraise_replaces_exception_nested : ∃ (l : Label) (first t b : Tree),
    readTree
      "x = len\ntry:\n    try:\n        x = missing\n    except: # all of them\n        raise\nexcept:\n    raise\n" =
      some (.node l [first,t]) ∧ t.isReraising ∧ t.child? .body = some b ∧
    b.children.all (·.isReraising) ∧
    runStatically [] ⟨"",.node l [first,t]⟩ =
      .executionError "RuntimeError" "No active exception to reraise" := by
  have computed : (readTree
      "x = len\ntry:\n    try:\n        x = missing\n    except: # all of them\n        raise\nexcept:\n    raise\n").any
      fun root => decide (root.children.length = 2) && root.children.getLast?.any fun t => t.isReraising &&
        (t.child? .body).any fun b => b.children.all (·.isReraising) && !isLazy (bodyOf b.children) &&
          (executeAll (isLazy (ofTree root)) (bodyOf root.children.dropLast) (State.start [])).1.isOk &&
          !(executeAll (isLazy (ofTree root)) (bodyOf b.children)
            (executeAll (isLazy (ofTree root)) (bodyOf root.children.dropLast) (State.start [])).2).1.isOk := by
    decide +kernel
  obtain ⟨⟨l,cs⟩,read,found⟩ := (Option.any_eq_true _ _).1 computed
  simp only [Bool.and_eq_true,Tree.children_node] at found
  obtain ⟨two,last⟩ := found
  obtain ⟨first,t,rfl⟩ := List.length_eq_two.1 (of_decide_eq_true two)
  simp only [List.getLast?_cons_cons,List.getLast?_singleton,Option.any_some,Bool.and_eq_true] at last
  obtain ⟨reraising,within⟩ := last
  obtain ⟨b,body,checked⟩ := (Option.any_eq_true _ _).1 within
  simp only [Bool.and_eq_true,Bool.not_eq_true'] at checked
  obtain ⟨⟨⟨inner,eager⟩,reached⟩,failed⟩ := checked
  have verdicts := (reraise_replaces_exception reraising body).2 [] ⟨"",.node l [first,t]⟩ l [first] []
    rfl eager
  refine ⟨l,first,t,b,read,reraising,body,inner,?_⟩
  rcases before : executeAll (isLazy (ofTree (.node l [first,t]))) (bodyOf [first]) (State.start []) with
    ⟨r | _,s⟩
  · rw [List.dropLast_cons_cons,List.dropLast_singleton,before] at reached
    cases reached
  · rcases ran : executeAll (isLazy (ofTree (.node l [first,t]))) (bodyOf b.children) s with ⟨r | _,m⟩
    · exact ((verdicts s before).2 r m ran).1
    · rw [List.dropLast_cons_cons,List.dropLast_singleton,before,ran] at failed
      cases failed

/-- The exception that is raised again is not the one that was caught. A handler outside that is meant
for it does not see it, either. -/
theorem reraise_not_transparent :
    validate [] "missing\n" = .undefinedReference "missing" 1 ∧
      validate [] "try:\n    missing\nexcept:\n    raise\n" =
        .executionError "RuntimeError" "No active exception to reraise" ∧
      validate [] "try:\n    missing\nexcept NameError:\n    pass\n" = .valid ∧
      validate [] "try:\n    try:\n        missing\n    except:\n        raise\nexcept NameError:\n    pass\n" =
        .executionError "RuntimeError" "No active exception to reraise" := by
  decide +kernel

end Excerpt.Execution
