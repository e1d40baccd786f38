import Excerpt.Proofs.BlockGrammar
import Excerpt.Validation

/-!
The checks that come before a source is run. What is refused, and where, is decided by the first node of
a kind in the order of the source; whatever runs the source has no say in it.
-/
namespace Excerpt.Syntax.Tree

/-- The node that is reached from a node by going down, each time to the child at the given index. -/
def below? : List Nat → Tree → Option Tree
  | [],t => some t
  | i :: path,t => t.children[i]?.bind (below? path)

/-- No node of the tree is of the kind. -/
def Lacks (p : Tree → Bool) (root : Tree) : Prop := ∀ path t, below? path root = some t → p t = false

/-- The node at a path is the first of its kind: a node comes before all that is below it, and what is
below it comes in the order of its children. Paths that are compared as lists say just that. -/
structure First (p : Tree → Bool) (root : Tree) (path : List Nat) (t : Tree) : Prop where
  here : below? path root = some t
  holds : p t
  earlier : ∀ other u, other < path → below? other root = some u → p u = false

/-- A node comes first at one place only. -/
theorem First.unique {p : Tree → Bool} {root t u : Tree} {path other : List Nat}
    (first : First p root path t) (second : First p root other u) : t = u := by
  have notAfter : ¬ path < other := fun before => by
    have fails := second.earlier path t before first.here
    rw [first.holds] at fails
    cases fails
  have notBefore : ¬ other < path := fun before => by
    have fails := first.earlier other u before second.here
    rw [second.holds] at fails
    cases fails
  obtain rfl := List.le_antisymm notBefore notAfter
  exact Option.some.inj (first.here.symm.trans second.here)

mutual
theorem mem_preorder_of_below? : ∀ (t : Tree) {path : List Nat} {u : Tree},
    below? path t = some u → u ∈ t.preorder
  | .node l cs, [], u, here => by
    cases here
    simp [preorder]
  | .node l cs, i :: path, u, here => by
    rw [preorder]
    exact List.mem_cons_of_mem _ (mem_preorderAll_of_below? cs here)
theorem mem_preorderAll_of_below? : ∀ (cs : List Tree) {i : Nat} {path : List Nat} {u : Tree},
    cs[i]?.bind (below? path) = some u → u ∈ preorderAll cs
  | c :: cs, 0, path, u, here => by
    rw [preorderAll]
    exact List.mem_append_left _ (mem_preorder_of_below? c here)
  | c :: cs, i + 1, path, u, here => by
    rw [preorderAll]
    exact List.mem_append_right _ (mem_preorderAll_of_below? cs here)
end

theorem lacks_of_find? {p : Tree → Bool} {root : Tree} (none : root.preorder.find? p = none) :
    Lacks p root := by
  intro path t here
  simpa using List.find?_eq_none.1 none t (mem_preorder_of_below? root here)

mutual
theorem first_of_find? {p : Tree → Bool} : ∀ (root : Tree) {t : Tree},
    root.preorder.find? p = some t → ∃ path, First p root path t
  | .node l cs, t, found => by
    rw [preorder,List.find?_cons] at found
    split at found
    · next holds =>
      cases found
      exact ⟨[],rfl,holds,fun other u before => absurd before (List.not_lt_nil other)⟩
    · next fails =>
      obtain ⟨i,path,here,holds,earlier⟩ := firstBelow_of_find? cs found
      refine ⟨i :: path,here,holds,fun other u before there => ?_⟩
      cases other with
      | nil =>
        cases there
        simpa using fails
      | cons j other => exact earlier j other u before there
theorem firstBelow_of_find? {p : Tree → Bool} : ∀ (cs : List Tree) {t : Tree},
    (preorderAll cs).find? p = some t →
      ∃ i path, cs[i]?.bind (below? path) = some t ∧ p t ∧
        ∀ j other u, j :: other < i :: path → cs[j]?.bind (below? other) = some u → p u = false
  | c :: cs, t, found => by
    rw [preorderAll,List.find?_append,Option.or_eq_some_iff] at found
    -- Paths into the first child come before all others, and the search goes through that child first.
    rcases found with found | ⟨none,found⟩
    · obtain ⟨path,first⟩ := first_of_find? c found
      refine ⟨0,path,first.here,first.holds,fun j other u before there => ?_⟩
      rcases List.cons_lt_cons_iff.1 before with less | ⟨rfl,less⟩
      · exact absurd less (Nat.not_lt_zero j)
      · exact first.earlier other u less there
    · obtain ⟨i,path,here,holds,earlier⟩ := firstBelow_of_find? cs found
      refine ⟨i + 1,path,here,holds,fun j other u before there => ?_⟩
      cases j with
      | zero => exact lacks_of_find? none other u there
      | succ j =>
        refine earlier j other u (List.cons_lt_cons_iff.2 ?_) there
        exact (List.cons_lt_cons_iff.1 before).imp Nat.lt_of_succ_lt_succ (.imp_left Nat.succ.inj)
end

/-- The first node that a search in pre-order finds is the first in the sense of paths. -/
theorem find?_preorder_eq_some {p : Tree → Bool} {root t : Tree} :
    root.preorder.find? p = some t ↔ ∃ path, First p root path t := by
  refine ⟨first_of_find? root,?_⟩
  rintro ⟨path,first⟩
  cases found : root.preorder.find? p with
  | none =>
    have fails := lacks_of_find? found path t first.here
    rw [first.holds] at fails
    cases fails
  | some u =>
    obtain ⟨other,second⟩ := first_of_find? root found
    rw [second.unique first]

theorem find?_preorder_eq_none {p : Tree → Bool} {root : Tree} :
    root.preorder.find? p = none ↔ Lacks p root := by
  refine ⟨lacks_of_find?,fun lacks => ?_⟩
  cases found : root.preorder.find? p with
  | none => rfl
  | some t =>
    obtain ⟨path,first⟩ := first_of_find? root found
    have fails := lacks path t first.here
    rw [first.holds] at fails
    cases fails

theorem preorderAll_append (ts us : List Tree) :
    preorderAll (ts ++ us) = preorderAll ts ++ preorderAll us := by
  induction ts with
  | nil => rfl
  | cons t ts ih => rw [List.cons_append,preorderAll,preorderAll,ih,List.append_assoc]

theorem preorder_eq (t : Tree) : t.preorder = t :: preorderAll t.children := by
  cases t
  rfl

/-- The children of a node on top of a stack, the first of them uppermost. -/
def push (t : Tree) (stack : List Tree) : List Tree :=
  t.children.reverse.foldl (fun stack child => child :: stack) stack

theorem push_eq (t : Tree) (stack : List Tree) : t.push stack = t.children ++ stack := by
  simp [push]

/-- Takes nodes from a stack until one is of the kind, and puts their children there instead. -/
def search (p : Tree → Bool) : List Tree → Option Tree
  | [] => none
  | t :: stack => if p t then some t else search p (t.push stack)
termination_by stack => (preorderAll stack).length
decreasing_by
  rw [push_eq,preorderAll_append,preorderAll,preorder_eq]
  simp

theorem search_eq_find? (p : Tree → Bool) (stack : List Tree) :
    search p stack = (preorderAll stack).find? p := by
  fun_induction search p stack with
  | case1 => rfl
  | case2 t stack holds => simp [preorderAll,preorder_eq,holds]
  | case3 t stack fails ih =>
    rw [ih,push_eq,preorderAll_append,preorderAll,preorder_eq,List.cons_append,
      List.find?_cons_of_neg fails]

end Excerpt.Syntax.Tree

namespace Excerpt
open Excerpt.Syntax Excerpt.Syntax.Tree

/-- A parser that gives every text a tree, and reports where it could not read the text. -/
structure Engine where
  tree : String → Tree
  /-- The node stands for text that could not be read. -/
  isError : Tree → Bool
  /-- The node was put in for something that the text lacks. -/
  isMissing : Tree → Bool
  hasError : Tree → Bool
  /-- The functions and wildcard imports of a tree, in the order in which they are reported. -/
  reported : Tree → List Tree

/-- Functions and wildcard imports. -/
def isReportable (t : Tree) : Bool := t.is .functionDefinition || t.is .wildcardImport

/-- The lines of the first asynchronous function and of the first wildcard import. -/
structure Noted where
  asyncLine : Option Nat
  wildcardLine : Option Nat

def Noted.add (noted : Noted) (t : Tree) : Noted :=
  if t.isAsyncFunction then {noted with asyncLine := noted.asyncLine.or (some t.line)}
  else if t.is .wildcardImport then {noted with wildcardLine := noted.wildcardLine.or (some t.line)}
  else noted

def Noted.verdict? (noted : Noted) : Option Verdict :=
  (noted.asyncLine.map .hasAsync).or (noted.wildcardLine.map .hasWildcardImport)

namespace Engine

/-- Nodes that make a text invalid. -/
def isFault (engine : Engine) (t : Tree) : Bool := engine.isError t || engine.isMissing t || isObsolete t

/-- The line and column of the first fault; the beginning of the text if only its existence is known. -/
def faultPlace (engine : Engine) (root : Tree) : Option (Nat × Nat) :=
  ((search engine.isFault [root]).map fun t => (t.start.row + 1,t.start.column + 1)).or
    (if engine.hasError root then some (1,1) else none)

def noted (engine : Engine) (root : Tree) : Noted :=
  (engine.reported root).foldl Noted.add ⟨none,none⟩

/-- The verdict on a text that the engine reads. -/
def judge (engine : Engine) (backend : Source → Verdict) (text : String) : Verdict :=
  let root := engine.tree text
  (engine.faultPlace root).elim ((engine.noted root).verdict?.getD (backend ⟨text,root⟩))
    fun place => .syntaxInvalid (some place)

theorem faultPlace_eq (engine : Engine) (root : Tree) :
    engine.faultPlace root =
      ((root.preorder.find? engine.isFault).map fun t => (t.start.row + 1,t.start.column + 1)).or
        (if engine.hasError root then some (1,1) else none) := by
  rw [faultPlace,search_eq_find?,preorderAll,preorderAll,List.append_nil]

end Engine

/-- A wildcard import is no function. -/
theorem not_async_of_wildcard {t : Tree} (wildcard : t.is .wildcardImport) :
    t.isAsyncFunction = false := by
  have symbol : t.symbol = .named .wildcardImport := by simpa [Tree.is] using wildcard
  simp [isAsyncFunction,Tree.is,symbol]

theorem Noted.foldl_add (noted : Noted) (ts : List Tree) :
    ts.foldl add noted =
      ⟨noted.asyncLine.or ((ts.find? isAsyncFunction).map Tree.line),
        noted.wildcardLine.or ((ts.find? (·.is .wildcardImport)).map Tree.line)⟩ := by
  induction ts generalizing noted with
  | nil => simp
  | cons t ts ih =>
    rw [List.foldl_cons,ih,add]
    by_cases async : t.isAsyncFunction
    · have other : t.is .wildcardImport = false :=
        Bool.of_not_eq_true fun wildcard => by simp [not_async_of_wildcard wildcard] at async
      simp [async,other]
    · by_cases wildcard : t.is .wildcardImport
      · simp [async,wildcard]
      · simp [async,wildcard]

/-- Looking among what is reported is looking in the whole tree. -/
theorem find?_filter_reportable {p : Tree → Bool} (ts : List Tree)
    (reportable : ∀ t, p t → isReportable t) : (ts.filter isReportable).find? p = ts.find? p := by
  rw [List.find?_filter]
  refine congrArg (ts.find? ·) (funext fun t => ?_)
  by_cases holds : p t
  · simp [holds,reportable t holds]
  · simp [holds]

theorem Engine.verdict?_noted {engine : Engine} {root : Tree}
    (ordered : engine.reported root = root.preorder.filter isReportable) :
    (engine.noted root).verdict? = structuralVerdict? root := by
  have async := @find?_filter_reportable isAsyncFunction root.preorder fun t holds => by
    simp [isReportable,(Bool.and_eq_true_iff.1 holds).1]
  have wildcard := @find?_filter_reportable (·.is .wildcardImport) root.preorder fun t holds => by
    simp [isReportable,holds]
  rw [noted,Noted.foldl_add,ordered,async,wildcard,structuralVerdict?,Noted.verdict?]
  cases root.preorder.find? isAsyncFunction <;> simp [Function.comp_def]

/-- The verdict that a tree calls for, where `outcome` is what running the source gives: the first fault
comes before everything else, an asynchronous function before a wildcard import, and running comes last.
A tree can be broken without a fault that could be named. -/
inductive CallsFor (isFault : Tree → Bool) (broken : Bool) (root : Tree) (outcome : Verdict) : Verdict → Prop
  | fault {path : List Nat} {t : Tree} (first : First isFault root path t) :
      CallsFor isFault broken root outcome (.syntaxInvalid (some (t.start.row + 1,t.start.column + 1)))
  | unplaced (readable : Lacks isFault root) (unnamed : broken) :
      CallsFor isFault broken root outcome (.syntaxInvalid (some (1,1)))
  | async {path : List Nat} {t : Tree} (readable : Lacks isFault root) (whole : broken = false)
      (first : First isAsyncFunction root path t) :
      CallsFor isFault broken root outcome (.hasAsync t.line)
  | wildcard {path : List Nat} {t : Tree} (readable : Lacks isFault root) (whole : broken = false)
      (sync : Lacks isAsyncFunction root) (first : First (·.is .wildcardImport) root path t) :
      CallsFor isFault broken root outcome (.hasWildcardImport t.line)
  | run (readable : Lacks isFault root) (whole : broken = false) (sync : Lacks isAsyncFunction root)
      (explicit : Lacks (·.is .wildcardImport) root) : CallsFor isFault broken root outcome outcome

/-- The verdict that a tree calls for, by searches in pre-order. -/
def calledFor (isFault : Tree → Bool) (broken : Bool) (root : Tree) (outcome : Verdict) : Verdict :=
  (((root.preorder.find? isFault).map fun t => (t.start.row + 1,t.start.column + 1)).or
    (if broken then some (1,1) else none)).elim ((structuralVerdict? root).getD outcome)
      fun place => .syntaxInvalid (some place)

theorem structuralVerdict?_eq (root : Tree) :
    structuralVerdict? root =
      ((root.preorder.find? isAsyncFunction).map fun t => .hasAsync t.line).or
        ((root.preorder.find? (·.is .wildcardImport)).map fun t => .hasWildcardImport t.line) := by
  rw [structuralVerdict?]
  cases root.preorder.find? isAsyncFunction <;> rfl

section
variable {isFault : Tree → Bool} {broken : Bool} {root : Tree} {outcome : Verdict}

theorem callsFor_calledFor : CallsFor isFault broken root outcome (calledFor isFault broken root outcome) := by
  rw [calledFor,structuralVerdict?_eq]
  cases fault : root.preorder.find? isFault with
  | some t =>
    obtain ⟨path,first⟩ := find?_preorder_eq_some.1 fault
    exact .fault first
  | none =>
    have readable := find?_preorder_eq_none.1 fault
    cases broken with
    | true => exact .unplaced readable rfl
    | false =>
      cases async : root.preorder.find? isAsyncFunction with
      | some t =>
        obtain ⟨path,first⟩ := find?_preorder_eq_some.1 async
        exact .async readable rfl first
      | none =>
        have sync := find?_preorder_eq_none.1 async
        cases wildcard : root.preorder.find? (·.is .wildcardImport) with
        | some t =>
          obtain ⟨path,first⟩ := find?_preorder_eq_some.1 wildcard
          exact .wildcard readable rfl sync first
        | none => exact .run readable rfl sync (find?_preorder_eq_none.1 wildcard)

theorem calledFor_of_callsFor {v : Verdict} (calls : CallsFor isFault broken root outcome v) :
    calledFor isFault broken root outcome = v := by
  rw [calledFor,structuralVerdict?_eq]
  cases calls with
  | fault first => rw [find?_preorder_eq_some.2 ⟨_,first⟩]; rfl
  | unplaced readable unnamed => rw [find?_preorder_eq_none.2 readable,unnamed]; rfl
  | async readable whole first =>
    rw [find?_preorder_eq_none.2 readable,whole,find?_preorder_eq_some.2 ⟨_,first⟩]
    rfl
  | wildcard readable whole sync first =>
    rw [find?_preorder_eq_none.2 readable,whole,find?_preorder_eq_none.2 sync,
      find?_preorder_eq_some.2 ⟨_,first⟩]
    rfl
  | run readable whole sync explicit =>
    rw [find?_preorder_eq_none.2 readable,whole,find?_preorder_eq_none.2 sync,
      find?_preorder_eq_none.2 explicit]
    rfl

/-- A tree calls for one verdict. -/
theorem calledFor_eq_iff {v : Verdict} :
    calledFor isFault broken root outcome = v ↔ CallsFor isFault broken root outcome v :=
  ⟨fun same => same ▸ callsFor_calledFor,calledFor_of_callsFor⟩

end

section
variable {engine : Engine} {backend : Source → Verdict} {text : String} {root : Tree}

/-- In a text that this library can read, the faults are the obsolete statements. -/
theorem validateWith_of_read (read : readTree text = some root) :
    validateWith backend text = calledFor isObsolete false root (backend ⟨text,root⟩) := by
  -- Their equations are derived by evaluation, which would run the parser.
  delta validateWith Source.read
  rw [read,calledFor]
  dsimp only
  rw [firstObsolete]
  cases root.preorder.find? isObsolete <;> rfl

theorem validateWith_of_unread (unread : readTree text = none) :
    validateWith backend text = .syntaxInvalid none := by
  delta validateWith Source.read
  rw [unread]
  rfl

namespace Engine

theorem judge_eq
    (ordered : engine.reported (engine.tree text) = (engine.tree text).preorder.filter isReportable) :
    engine.judge backend text =
      calledFor engine.isFault (engine.hasError (engine.tree text)) (engine.tree text)
        (backend ⟨text,engine.tree text⟩) := by
  rw [judge,verdict?_noted ordered,faultPlace_eq,calledFor]

/-- The engine and the parser of this library read a text alike: they give it the same tree, or neither
can read it. -/
structure Reads (engine : Engine) (text : String) : Prop where
  accepted : ∀ root, readTree text = some root → engine.tree text = root ∧
    engine.hasError root = false ∧ Lacks (fun t => engine.isError t || engine.isMissing t) root
  refused : readTree text = none → engine.hasError (engine.tree text) ∨
    ∃ path t, below? path (engine.tree text) = some t ∧ (engine.isError t || engine.isMissing t)

/-- In a tree without errors the faults are the obsolete statements. -/
theorem find?_isFault (sound : Lacks (fun t => engine.isError t || engine.isMissing t) root) :
    root.preorder.find? engine.isFault = root.preorder.find? isObsolete := by
  have clean := List.find?_eq_none.1 (find?_preorder_eq_none.2 sound)
  rw [← List.head?_filter,← List.head?_filter]
  refine congrArg List.head? (List.filter_congr fun t member => ?_)
  have fine : (engine.isError t || engine.isMissing t) = false := by simpa using clean t member
  rw [isFault,fine,Bool.false_or]

theorem judge_of_read
    (ordered : engine.reported (engine.tree text) = (engine.tree text).preorder.filter isReportable)
    (reads : engine.Reads text) (read : readTree text = some root) :
    engine.judge backend text = validateWith backend text := by
  obtain ⟨rfl,whole,sound⟩ := reads.accepted root read
  rw [judge_eq ordered,validateWith_of_read read,calledFor,calledFor,find?_isFault sound,whole]

theorem judge_of_unread (reads : engine.Reads text) (unread : readTree text = none) :
    ∃ place, engine.judge backend text = .syntaxInvalid (some place) := by
  have faulty : (engine.faultPlace (engine.tree text)).isSome := by
    rw [faultPlace_eq]
    rcases reads.refused unread with broken | ⟨path,t,here,fault⟩
    · simp [broken]
    · have found : ((engine.tree text).preorder.find? engine.isFault).isSome := by
        rw [List.find?_isSome]
        exact ⟨t,mem_preorder_of_below? _ here,by simp [isFault,fault]⟩
      simp [found]
  obtain ⟨place,fault⟩ := Option.isSome_iff_exists.1 faulty
  exact ⟨place,by rw [judge,fault]; rfl⟩

/-- The parser of this library, which knows whether a text can be read but not where it fails. -/
def own : Engine where
  tree text := (readTree text).getD (.node ⟨.token "ERROR",none,Text.Position.start,text⟩ [])
  isError _ := false
  isMissing _ := false
  hasError root := root.isToken "ERROR"
  reported root := root.preorder.filter isReportable

theorem own_reads (text : String) : own.Reads text where
  accepted root read := by
    have program := (placed_of_readTree read).1
    exact ⟨by simp [own,read],by simp [own,isToken,program],fun _ _ _ => rfl⟩
  refused unread := .inl (by simp [own,unread,isToken])

theorem own_reported (root : Tree) : own.reported root = root.preorder.filter isReportable := rfl

end Engine
end

/-- The checks before a run are exact, and whatever runs the source comes after them. An engine that
reports nodes in the order of the source gives the verdict that its tree calls for; where it reads a text
as this library does, it gives the verdict of this library, which only names no place in a text that
cannot be read. -/
theorem gate_exact (backend : Source → Verdict) (text : String) :
    (∀ root, readTree text = some root → ∀ v,
      validateWith backend text = v ↔ CallsFor isObsolete false root (backend ⟨text,root⟩) v) ∧
    (readTree text = none → validateWith backend text = .syntaxInvalid none) ∧
    ∀ engine : Engine,
      engine.reported (engine.tree text) = (engine.tree text).preorder.filter isReportable →
      (∀ v, engine.judge backend text = v ↔
        CallsFor engine.isFault (engine.hasError (engine.tree text)) (engine.tree text)
          (backend ⟨text,engine.tree text⟩) v) ∧
      (engine.Reads text →
        ((readTree text).isSome → engine.judge backend text = validateWith backend text) ∧
        (readTree text = none → ∃ place, engine.judge backend text = .syntaxInvalid (some place))) := by
  refine ⟨fun root read v => ?_,validateWith_of_unread,fun engine ordered => ⟨fun v => ?_,fun reads => ?_⟩⟩
  · rw [validateWith_of_read read,calledFor_eq_iff]
  · rw [Engine.judge_eq ordered,calledFor_eq_iff]
  · refine ⟨fun read => ?_,Engine.judge_of_unread reads⟩
    obtain ⟨root,read⟩ := Option.isSome_iff_exists.1 read
    exact Engine.judge_of_read ordered reads read

/-- A method that holds an asynchronous function, behind a wildcard import. -/
def asyncInMethod : String :=
  "from os import *\nclass A:\n    def f(self):\n        async def g(): pass\n"

/-- The function is named, though the import comes first and the backend would accept the source. -/
theorem gate_exact_async : ∃ root, readTree asyncInMethod = some root ∧
    validateWith (fun _ => .valid) asyncInMethod = .hasAsync 4 ∧
    CallsFor isObsolete false root .valid (.hasAsync 4) ∧
    Engine.own.Reads asyncInMethod ∧
    CallsFor Engine.own.isFault (Engine.own.hasError (Engine.own.tree asyncInMethod))
      (Engine.own.tree asyncInMethod) .valid (.hasAsync 4) := by
  have verdict : validateWith (fun _ => .valid) asyncInMethod = .hasAsync 4 := by decide +kernel
  have isRead : (readTree asyncInMethod).isSome := by decide +kernel
  obtain ⟨root,read⟩ := Option.isSome_iff_exists.1 isRead
  have reads := Engine.own_reads asyncInMethod
  obtain ⟨running,-,others⟩ := gate_exact (fun _ => .valid) asyncInMethod
  obtain ⟨exactly,same⟩ := others Engine.own (Engine.own_reported _)
  have judged := ((same reads).1 isRead).trans verdict
  exact ⟨root,read,verdict,(running root read _).1 verdict,reads,(exactly _).1 judged⟩

end Excerpt
