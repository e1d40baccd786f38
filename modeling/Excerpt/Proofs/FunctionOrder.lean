import Excerpt.Proofs.AnnotatedTree
import Excerpt.Proofs.DeferredLookups
import Excerpt.Proofs.NamePlaces
import Excerpt.Proofs.PureExpression
import Excerpt.Proofs.StatementOrder
import Excerpt.Proofs.UncertainBlock

/-!
Functions in another order. A function whose definition evaluates nothing only binds its name and keeps
its scope for the check at the end. The check lists what is looked up in vain function by function, but
reports by lines, so functions on different lines can be defined in any order.
-/
namespace Excerpt.Program
open Excerpt.Syntax

/-- Whether a definition evaluates nothing: a function without decorators, defaults and annotations. -/
def isBareFunction (t : Tree) : Bool :=
  t.is .functionDefinition && t.children.all fun c =>
    c.field != some .returnType && (c.field != some .parameters ||
      c.children.all fun p => !isDefaultParameter p && !p.is .typedParameter)

/-- Whether a parameter consists of names only, so that it binds them and looks nothing up. -/
def isNames (t : Tree) : Bool :=
  t.preorder.all fun u =>
    !u.isNamed || isPlainParameter u || u.is .comment || u.is .lineContinuation

/-- The constructs of a function that can look names up when the module is complete: its body, and the
parameters that are more than names. -/
def lookingChildren (t : Tree) : List Tree :=
  t.children.flatMap fun c =>
    if c.field == some .body then [c]
    else if c.field == some .parameters then c.children.filter (!isNames ·)
    else []

/-- The lines on which a function can look names up. -/
def lookupLines (t : Tree) : List Nat := (Tree.preorderAll (lookingChildren t)).map Tree.line

/-- The parameters of a function without defaults and annotations, as nodes. -/
def plainParameters (children : List Tree) : List Tree :=
  (((children.find? (·.field == some .parameters)).map Tree.children).getD []).filter isPlainParameter

theorem parametersOf_bare {ts : List Tree}
    (bare : ∀ t ∈ ts, isDefaultParameter t = false ∧ t.is .typedParameter = false) :
    parametersOf ts = (ts.filter isPlainParameter).map fun t => .mk (some (exprOf t)) none none := by
  induction ts with
  | nil => rfl
  | cons t ts ih =>
    obtain ⟨⟨undefaulted,untyped⟩,rest⟩ := List.forall_mem_cons.1 bare
    rw [parametersOf,List.filter_cons,ih rest,undefaulted,untyped]
    split <;> simp

section Bare

variable {l : Label} {cs : List Tree} (bare : isBareFunction (.node l cs))
include bare

theorem parametersOfRole_bare : parametersOfRole cs =
    (plainParameters cs).map fun t => .mk (some (exprOf t)) none none := by
  simp only [isBareFunction,Bool.and_eq_true,List.all_eq_true,Bool.or_eq_true,bne_iff_ne,
    Bool.not_eq_true',Tree.children_node] at bare
  rw [parametersOfRole_eq_find,plainParameters]
  cases found : cs.find? (·.field == some .parameters) with
  | none => rfl
  | some c =>
    have role : c.field = some .parameters := by simpa using List.find?_some found
    have plain := (bare.2 c (List.mem_of_find?_eq_some found)).2.resolve_left (not_not_intro role)
    exact parametersOf_bare plain

theorem exprOfRole_bare : exprOfRole .returnType cs = none := by
  simp only [isBareFunction,Bool.and_eq_true,List.all_eq_true,bne_iff_ne,Tree.children_node] at bare
  rw [exprOfRole_eq_find,Option.map_eq_none_iff,List.find?_eq_none]
  exact fun c child => by simpa using (bare.2 c child).1

/-- Nothing is evaluated when the function is defined. -/
theorem definitionTime_bare (lazy : Bool) : definitionTime lazy (parametersOfRole cs) none = [] := by
  rw [parametersOfRole_bare bare]
  cases lazy <;> simp [definitionTime,Parameter.definitionTime]

theorem stmtOf_bare : ∃ name, stmtOf (.node l cs) =
    .define [] (.function name (parametersOfRole cs) none (bodyOfRole .body cs)) := by
  have kind : l.symbol = .named .functionDefinition := by
    simp only [isBareFunction,Bool.and_eq_true] at bare
    simpa [Tree.is] using bare.1
  refine ⟨((cs.find? (·.field == some .name)).map Tree.text).getD "",?_⟩
  simp only [stmtOf,kind,definitionOf,exprOfRole_bare bare]
  rfl

end Bare

section Lines

variable {p q : NameRef → Prop}

mutual
/-- Names that are assigned to are not looked up. -/
theorem findings_names : ∀ {t : Tree}, t.isNamed → isNames t →
    eachFinding p ((exprOf t).findings false .bind)
  | .node l cs,named,names => by
    simp only [isNames,Tree.preorder,List.all_cons,Bool.and_eq_true] at names
    obtain ⟨own,below⟩ := names
    have items := findings_namesAll below
    have kind : l.symbol = .named .identifier ∨ l.symbol = .named .listSplatPattern ∨
        l.symbol = .named .dictionarySplatPattern ∨ l.symbol = .named .tuplePattern ∨
        l.symbol = .named .comment ∨ l.symbol = .named .lineContinuation := by
      simpa [named,isPlainParameter,Tree.is,or_assoc] using own
    rw [exprOf]
    rcases kind with kind | kind | kind | kind | kind | kind <;>
      simp only [kind,assemble,Tree.kind?,Tree.symbol_node]
    · trivial
    · exact items
    · exact items
    · exact items
    · trivial
    · trivial
theorem findings_namesAll : ∀ {ts : List Tree}, (Tree.preorderAll ts).all (fun u =>
      !u.isNamed || isPlainParameter u || u.is .comment || u.is .lineContinuation) →
    eachFinding p (findingsAll false .bind (exprsOf ts).items)
  | [],_ => trivial
  | t :: ts,names => by
    rw [Tree.preorderAll,List.all_append,Bool.and_eq_true] at names
    rw [exprsOf,Parts.items,List.filter_cons]
    split
    · next item =>
      exact eachFinding_append.2
        ⟨findings_names (Bool.and_eq_true_iff.1 item).1 names.1,findings_namesAll names.2⟩
    · exact findings_namesAll names.2
end

theorem findings_parameters {ts : List Tree}
    (each : ∀ t ∈ ts, isPlainParameter t → isNames t ∨ t.Sited p q) :
    eachFinding p (targetFindings
      ((ts.filter isPlainParameter).map fun t => .mk (some (exprOf t)) none none)) := by
  induction ts with
  | nil => trivial
  | cons t ts ih =>
    obtain ⟨first,rest⟩ := List.forall_mem_cons.1 each
    rw [List.filter_cons]
    split
    · next plain =>
      have named : t.isNamed := by
        cases symbol : t.symbol <;> simp_all [isPlainParameter,Tree.is,Tree.isNamed]
      refine eachFinding_append.2 ⟨?_,ih rest⟩
      rcases first plain with names | sited
      · exact findings_names named names
      · exact (each_exprOf sited).findings
    · exact ih rest

/-- What a bare function looks up stands on its lines. -/
theorem lookups_of_bare {t : Tree} (bare : isBareFunction t) (lazy : Bool) :
    (functionScopeOf lazy t).Each fun ref => ref.line ∈ lookupLines t := by
  obtain ⟨l,cs⟩ := t
  have sited {c u : Tree} (child : c ∈ cs) (within : u ∈ lookingChildren (.node l [c])) :
      u.Sited (fun ref => ref.line ∈ lookupLines (.node l cs)) fun _ => True := by
    refine fun v inside => ⟨fun _ => ?_,fun _ _ _ => trivial⟩
    have among : u ∈ lookingChildren (.node l cs) := by
      simp only [lookingChildren,Tree.children_node,List.mem_flatMap] at within ⊢
      obtain ⟨c',only,here⟩ := within
      exact ⟨c,child,List.mem_singleton.1 only ▸ here⟩
    exact List.mem_map_of_mem (Tree.mem_preorderAll.2 ⟨u,among,inside⟩)
  refine eachFinding_append.2 ⟨?_,findings_eachStmt (q := fun _ => True) ?_⟩
  · rw [Tree.children_node,parametersOfRole_bare bare,plainParameters]
    cases found : cs.find? (·.field == some .parameters) with
    | none => trivial
    | some c =>
      have role : c.field = some .parameters := by simpa using List.find?_some found
      refine findings_parameters (q := fun _ => True) fun u child _ => ?_
      by_cases names : isNames u
      · exact .inl names
      · refine .inr (sited (List.mem_of_find?_eq_some found) ?_)
        have child : u ∈ c.children := child
        simp [lookingChildren,role,child,names]
  · rw [Tree.children_node,bodyOfRole_eq_find]
    cases found : cs.find? (·.field == some .body) with
    | none => trivial
    | some c =>
      have role : c.field = some .body := by simpa using List.find?_some found
      have within : c ∈ lookingChildren (.node l [c]) := by simp [lookingChildren,role]
      exact each_bodyOf fun u child => (sited (List.mem_of_find?_eq_some found) within).child child

end Lines

end Excerpt.Program

namespace Excerpt.Execution
open Excerpt.Names Excerpt.Program Exec

/-- The earlier of two references, the first one if both stand on one line. -/
def sooner : Option NameRef → Option NameRef → Option NameRef
  | none,b => b
  | some a,none => some a
  | some a,some b => if b.line < a.line then some b else some a

theorem sooner_assoc (a b c : Option NameRef) : sooner (sooner a b) c = sooner a (sooner b c) := by
  rcases a with _ | a <;> rcases b with _ | b <;> rcases c with _ | c <;> grind [sooner]

theorem sooner_comm {a b : Option NameRef} (apart : ∀ x ∈ a, ∀ y ∈ b, x.line ≠ y.line) :
    sooner a b = sooner b a := by
  rcases a with _ | a <;> rcases b with _ | b <;> grind [sooner]

theorem earliest_append (refs others : List NameRef) :
    earliest (refs ++ others) = sooner (earliest refs) (earliest others) := by
  have earliest_cons (r : NameRef) (rs : List NameRef) :
      earliest (r :: rs) = sooner (some r) (earliest rs) := by
    rw [earliest]
    cases earliest rs <;> rfl
  induction refs with
  | nil => rfl
  | cons r rs ih => rw [List.cons_append,earliest_cons,earliest_cons,ih,sooner_assoc]

/-- References on different lines can be listed in any order. -/
theorem earliest_exchange {refs others : List NameRef}
    (apart : ∀ x ∈ refs, ∀ y ∈ others, x.line ≠ y.line) (front back : List NameRef) :
    earliest (front ++ (refs ++ (others ++ back))) = earliest (front ++ (others ++ (refs ++ back))) := by
  have either : sooner (earliest refs) (earliest others) = sooner (earliest others) (earliest refs) :=
    sooner_comm fun x first y second =>
      apart x (isEarliest_of_earliest first).mem y (isEarliest_of_earliest second).mem
  simp only [earliest_append]
  rw [← sooner_assoc (earliest refs),either,sooner_assoc]

/-- The check at the end does not see in which order two scopes were kept if they look names up in vain
on different lines only. -/
theorem checkDeferred_exchange (s : State) (late early : List Scope) {f g : Scope}
    (apart : ∀ isModuleName : String → Bool, ∀ x ∈ f.unresolved isModuleName [],
      ∀ y ∈ g.unresolved isModuleName [], x.line ≠ y.line) :
    checkDeferred {s with deferred := late ++ g :: f :: early} =
      checkDeferred {s with deferred := late ++ f :: g :: early} := by
  have perm : (late ++ g :: f :: early).reverse.Perm (late ++ f :: g :: early).reverse :=
    ((List.reverse_perm _).trans ((List.Perm.swap f g early).append_left late)).trans
      (List.reverse_perm _).symm
  have names (n : String) : (moduleNames s.globals (late ++ g :: f :: early).reverse).contains n =
      (moduleNames s.globals (late ++ f :: g :: early).reverse).contains n :=
    Frame.contains_congr ((perm.flatMap_right _).append_left _).mem_iff
  have same : firstUnresolved s.globals (late ++ g :: f :: early).reverse =
      firstUnresolved s.globals (late ++ f :: g :: early).reverse := by
    simp only [firstUnresolved,names]
    simp only [List.reverse_append,List.reverse_cons,List.flatMap_append,List.flatMap_cons,
      List.flatMap_nil,List.append_nil,List.append_assoc]
    exact earliest_exchange (apart _) _ _
  simp only [checkDeferred,same]

/-- How a run ends that has come to the given state and goes on with the given statements. -/
def runFrom (lazy : Bool) (rest : List Stmt) (s : State) : Except Raised Unit :=
  match executeAll lazy rest s with
  | (.ok _,t) => checkDeferred t
  | (.error r,_) => .error r

theorem runFrom_cons {lazy : Bool} {stmt : Stmt} {s t : State}
    (ran : execute lazy stmt s = (.ok (),t)) (rest : List Stmt) :
    runFrom lazy (stmt :: rest) s = runFrom lazy rest t := by
  rw [runFrom,executeAll,bind_apply,ran]
  rfl

theorem runFrom_skips {lazy : Bool} {idle : List Stmt} (skips : ∀ stmt ∈ idle, stmt = .skip)
    (rest : List Stmt) (s : State) : runFrom lazy (idle ++ rest) s = runFrom lazy rest s := by
  induction idle with
  | nil => rfl
  | cons stmt idle ih =>
    obtain ⟨rfl,later⟩ := List.forall_mem_cons.1 skips
    have ran : execute lazy .skip s = (.ok (),s) := by
      rw [execute]
      rfl
    rw [List.cons_append,runFrom_cons ran,ih later]

/-- Runs that go on in the same way from every state that the first statements can lead to end in the
same way. -/
theorem runFrom_append_congr {lazy : Bool} {before rest other : List Stmt} {s : State}
    (same : ∀ t, (executeAll lazy before s).2 = t → runFrom lazy rest t = runFrom lazy other t) :
    runFrom lazy (before ++ rest) s = runFrom lazy (before ++ other) s := by
  simp only [runFrom,executeAll_append_bind,bind_apply]
  rcases ran : executeAll lazy before s with ⟨r | _,t⟩
  · rfl
  · exact same t (by rw [ran])

/-- A run does not tell apart states in which the same names have the same values. -/
theorem runFrom_agree {lazy : Bool} (rest : List Stmt) {s t : State} (agree : Agree (fun _ => True) s t) :
    runFrom lazy rest s = runFrom lazy rest t := by
  obtain ⟨same,after⟩ := (executeAll_permitted lazy rest (List.Subset.refl _)).agree
    (fun _ _ => trivial) (fun _ _ _ => trivial) agree
  simp only [runFrom]
  rcases one : executeAll lazy rest s with ⟨r | _,u⟩ <;>
    rcases other : executeAll lazy rest t with ⟨r' | _,v⟩ <;>
    rw [one,other] at same after <;> cases same
  · rfl
  · exact checkDeferred_congr after fun _ _ _ _ => trivial

/-- A run does not see in which order two scopes were kept if they look names up in vain on different
lines only. -/
theorem runFrom_exchange {lazy : Bool} (rest : List Stmt) (s : State) (kept : List Scope) {f g : Scope}
    (apart : ∀ isModuleName : String → Bool, ∀ x ∈ f.unresolved isModuleName [],
      ∀ y ∈ g.unresolved isModuleName [], x.line ≠ y.line) :
    runFrom lazy rest {s with deferred := g :: f :: kept} =
      runFrom lazy rest {s with deferred := f :: g :: kept} := by
  obtain ⟨new,added⟩ := (executeAll_permitted lazy rest (List.Subset.refl _)).adds s
  simp only [runFrom,added (g :: f :: kept),added (f :: g :: kept)]
  rcases executeAll lazy rest s with ⟨r | _,t⟩
  · rfl
  · exact checkDeferred_exchange t new kept apart

/-- A function without decorators that evaluates nothing when it is defined only binds its name, and its
scope is kept. -/
theorem execute_bare {lazy : Bool} {name : String} {parameters : List Parameter} {body : List Stmt}
    (early : definitionTime lazy parameters none = []) (s : State) :
    execute lazy (.define [] (.function name parameters none body)) s =
      (.ok (),{s.bind name .unknown with deferred := functionScope lazy parameters body :: s.deferred}) := by
  have bound := s.bind_deferred (functionScope lazy parameters body :: s.deferred) name .unknown
  rw [← bound,execute,define,early]
  rfl

theorem agree_of_binds {s : State} (outside : s.locals = none) (scopes : List Scope) (f g : String) :
    Agree (fun _ => True) {(s.bind f .unknown).bind g .unknown with deferred := scopes}
      {(s.bind g .unknown).bind f .unknown with deferred := scopes} := by
  simp only [State.bind,outside]
  refine ⟨rfl,rfl,rfl,fun n _ => ?_⟩
  simp only [valueAt_setAt]
  grind

/-- Two functions that evaluate nothing when they are defined, and whose lookups in vain stand on
different lines, can be defined in either order. Statements between them that do nothing stay there. -/
theorem run_exchange (known : List String) (before after : List Stmt) {idle : List Stmt}
    (skips : ∀ stmt ∈ idle, stmt = .skip) {f g : String} {ps qs : List Parameter} {fs gs : List Stmt}
    (early : ∀ lazy, definitionTime lazy ps none = []) (late : ∀ lazy, definitionTime lazy qs none = [])
    (apart : ∀ lazy isModuleName, ∀ x ∈ (functionScope lazy ps fs).unresolved isModuleName [],
      ∀ y ∈ (functionScope lazy qs gs).unresolved isModuleName [], x.line ≠ y.line) :
    run known (before ++ .define [] (.function f ps none fs) ::
        (idle ++ .define [] (.function g qs none gs) :: after)) =
      run known (before ++ .define [] (.function g qs none gs) ::
        (idle ++ .define [] (.function f ps none fs) :: after)) := by
  have lazy : isLazy (before ++ .define [] (.function f ps none fs) ::
        (idle ++ .define [] (.function g qs none gs) :: after)) =
      isLazy (before ++ .define [] (.function g qs none gs) ::
        (idle ++ .define [] (.function f ps none fs) :: after)) := by simp [isLazy]
  change runFrom _ _ _ = runFrom _ _ _
  rw [lazy]
  generalize isLazy _ = lazy
  refine runFrom_append_congr fun s reached => ?_
  have place := ((executeAll_permitted lazy before (List.Subset.refl _)).follows (State.start known)).place
  have outside : s.locals = none := by
    rw [reached] at place
    simpa [State.start] using place
  rw [runFrom_cons (execute_bare (early lazy) s),runFrom_skips skips,
    runFrom_cons (execute_bare (late lazy) _),runFrom_cons (execute_bare (late lazy) s),
    runFrom_skips skips,runFrom_cons (execute_bare (early lazy) _)]
  simp only [State.bind_deferred]
  rw [runFrom_exchange after _ s.deferred (apart lazy)]
  exact runFrom_agree after (agree_of_binds outside _ f g)

end Excerpt.Execution

namespace Excerpt
open Excerpt.Execution Excerpt.Program Excerpt.Syntax

/-- Nodes between statements that are none: comments, line continuations and tokens. -/
def isBetween (t : Tree) : Bool := !t.isNamed || t.is .comment || t.is .lineContinuation

theorem bodyOf_append (front back : List Tree) : bodyOf (front ++ back) = bodyOf front ++ bodyOf back := by
  simp only [bodyOf_eq_map,List.filter_append,List.map_append]

theorem skip_of_between {ts : List Tree} (idle : ∀ t ∈ ts, isBetween t) : ∀ s ∈ bodyOf ts, s = .skip := by
  rw [bodyOf_eq_map,List.forall_mem_map]
  intro t kept
  obtain ⟨member,named⟩ := List.mem_filter.1 kept
  obtain ⟨l,cs⟩ := t
  have kind : l.symbol = .named .comment ∨ l.symbol = .named .lineContinuation := by
    simpa [isBetween,named,Tree.is] using idle _ member
  rcases kind with kind | kind <;> simp only [stmtOf,kind]

/-- The order in which functions are defined does not matter. Two functions without decorators, defaults
and annotations that follow each other in a module can be exchanged, each with the lines on which it
stands, if they look names up on different lines: whatever modules are known and whatever the module does
before and after, the verdict stays. The names of the functions may be the same, and each may use the
other. -/
theorem verdict_of_exchanged_functions (known : List String) (source : Source) {l : Label}
    {before between after : List Tree} {f g : Tree}
    (root : source.root = .node l (before ++ f :: (between ++ g :: after)))
    (idle : ∀ t ∈ between, isBetween t) (first : isBareFunction f) (second : isBareFunction g)
    (apart : ∀ n ∈ lookupLines f, n ∉ lookupLines g) :
    runStatically known {source with root := .node l (before ++ g :: (between ++ f :: after))} =
      runStatically known source := by
  have named {t : Tree} (bare : isBareFunction t) : t.isNamed := by
    simp only [isBareFunction,Bool.and_eq_true] at bare
    cases symbol : t.symbol <;> simp_all [Tree.is,Tree.isNamed]
  have body {t : Tree} (bare : isBareFunction t) (ts : List Tree) :
      bodyOf (t :: ts) = stmtOf t :: bodyOf ts := by
    rw [bodyOf,if_pos (named bare)]
  obtain ⟨k,cs⟩ := f
  obtain ⟨m,ds⟩ := g
  have lines (lazy : Bool) (isModuleName : String → Bool) :
      ∀ x ∈ (functionScope lazy (parametersOfRole cs) (bodyOfRole .body cs)).unresolved isModuleName [],
      ∀ y ∈ (functionScope lazy (parametersOfRole ds) (bodyOfRole .body ds)).unresolved isModuleName [],
        x.line ≠ y.line := by
    intro x missed y vain same
    have here := (lookups_of_bare first lazy).of_mem_unresolved missed
    exact apart _ here (same ▸ (lookups_of_bare second lazy).of_mem_unresolved vain)
  obtain ⟨name,read⟩ := stmtOf_bare first
  obtain ⟨other,readOther⟩ := stmtOf_bare second
  simp only [runStatically,root,ofTree,Tree.children_node,bodyOf_append,body first,body second,read,readOther]
  rw [run_exchange known (bodyOf before) (bodyOf after) (skip_of_between idle)
    (definitionTime_bare first) (definitionTime_bare second) lines]

/-- Two functions that use each other, and of which either uses a name that is bound nowhere. The name on
the smaller line is reported also if the other function is defined first. -/
theorem verdict_of_exchanged_functions_mutual : ∃ (l : Label) (f c g : Tree),
    readTree "def f(n):\n    return g(n) + late\n# between\ndef g(*rest):\n    return f(rest) - other\n" =
      some (.node l [f,c,g]) ∧
    runStatically [] ⟨"",.node l [g,c,f]⟩ = .undefinedReference "late" 2 := by
  have computed : (readTree
      "def f(n):\n    return g(n) + late\n# between\ndef g(*rest):\n    return f(rest) - other\n").any
      fun root => decide (root.children.length = 3) && root.children.tail.dropLast.all isBetween &&
        decide (runStatically [] ⟨"",root⟩ = .undefinedReference "late" 2) &&
        root.children.head?.any fun f => root.children.getLast?.any fun g =>
          isBareFunction f && isBareFunction g && (lookupLines f).all (!(lookupLines g).contains ·) := by
    decide +kernel
  obtain ⟨⟨l,cs⟩,read,found⟩ := (Option.any_eq_true _ _).1 computed
  simp only [Bool.and_eq_true,decide_eq_true_eq,Tree.children_node] at found
  obtain ⟨⟨⟨three,idle⟩,verdict⟩,functions⟩ := found
  obtain ⟨f,c,g,rfl⟩ := List.length_eq_three.1 (of_decide_eq_true three)
  simp only [List.head?_cons,List.getLast?_cons_cons,List.getLast?_singleton,Option.any_some,
    Bool.and_eq_true,List.all_eq_true] at functions
  obtain ⟨⟨first,second⟩,apart⟩ := functions
  have exchanged := @verdict_of_exchanged_functions [] ⟨"",.node l [f,c,g]⟩ l [] [c] [] f g rfl
    (by simpa using idle) first second fun n line => by simpa using apart n line
  exact ⟨l,f,c,g,read,exchanged.trans verdict⟩

end Excerpt
