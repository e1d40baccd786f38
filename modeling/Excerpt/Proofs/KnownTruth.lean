import Excerpt.Proofs.ConditionMeaning

/-!
Known truths are right. If the evaluation of a condition ends with a known truth or a known value, every
object that the condition can evaluate to has that truth and is of that value, whatever the unknown names
stand for.
-/
namespace Excerpt.Program
open Excerpt.Syntax

section Reading

variable {t c : Tree}

theorem exprOf_condition {k : Kind} (symbol : t.symbol = .named k) (allowed : k.isCondition) :
    exprOf t = assemble t (exprsOf t.children) := by
  rw [exprOf_named symbol]
  cases k <;> first | rfl | cases allowed

theorem items_exprsOf (t : Tree) : (exprsOf t.children).items = t.items.map exprOf :=
  items_eq_filter t.children

theorem role_exprsOf {f : Field} (role : t.child? f = some c) :
    (exprsOf t.children).role f = exprOf c := by
  have found : t.children.find? (·.field == some f) = some c := role
  rw [Parts.role,role_eq_exprOfRole,exprOfRole_eq_find,found]
  rfl

/-- The expression of a node of the given kind. -/
theorem exprOf_of_is {k : Kind} (kind : t.is k) (allowed : k.isCondition) :
    exprOf t = assemble t (exprsOf t.children) ∧ t.kind? = some k := by
  have symbol : t.symbol = .named k := beq_iff_eq.1 kind
  exact ⟨exprOf_condition symbol allowed,by rw [Tree.kind?,symbol]⟩

theorem exprOf_parentheses (kind : t.is .parenthesizedExpression) :
    exprOf t = .parens (t.items.map exprOf) := by
  obtain ⟨read,kind⟩ := exprOf_of_is kind rfl
  rw [read,assemble,kind,← items_exprsOf]

theorem exprOf_negation (kind : t.is .notOperator) (argument : t.child? .argument = some c) :
    exprOf t = .negation (exprOf c) := by
  obtain ⟨read,kind⟩ := exprOf_of_is kind rfl
  rw [read,assemble,kind,← role_exprsOf argument]

theorem exprOf_connective {l : Tree} {deciding : Bool} (connective : t.Connects deciding)
    (left : t.child? .left = some l) : exprOf t =
      (if deciding then Expr.disjunction else .conjunction) (exprOf l)
        ((exprsOf t.children).role .right) := by
  obtain ⟨kind,op,operator,spelled⟩ := connective
  obtain ⟨read,kind⟩ := exprOf_of_is kind rfl
  have symbol : op.symbol = .token (if deciding then "or" else "and") := beq_iff_eq.1 spelled
  have which : isDisjunction t = deciding := by
    rw [isDisjunction,operator]
    cases deciding <;> simp [Tree.isToken,symbol]
  rw [read,assemble,kind,← role_exprsOf left]
  cases deciding <;> simp [which]

theorem exprOf_conditional {body condition alternative : Tree} (kind : t.is .conditionalExpression)
    (parts : t.items = [body,condition,alternative]) :
    exprOf t = .conditional (exprOf body) (exprOf condition) (exprOf alternative) := by
  obtain ⟨read,kind⟩ := exprOf_of_is kind rfl
  rw [read,assemble,kind]
  simp only [items_exprsOf,parts,List.map_cons,List.map_nil]

theorem exprOf_comparison (kind : t.is .comparisonOperator) :
    exprOf t = .comparison (t.items.map exprOf) (t.operators.map comparator) := by
  obtain ⟨read,kind⟩ := exprOf_of_is kind rfl
  rw [read,assemble,kind,← items_exprsOf]
  rfl

theorem exprOf_splat (kind : t.is .listSplat ∨ t.is .dictionarySplat) :
    Execution.isSplat (exprOf t) := by
  rcases kind with list | dictionary
  · obtain ⟨read,kind⟩ := exprOf_of_is list rfl
    rw [read,assemble,kind]
    rfl
  · obtain ⟨read,kind⟩ := exprOf_of_is dictionary rfl
    rw [read,assemble,kind]
    rfl

theorem exprOf_display {k : Kind} {form : SequenceForm} (symbol : t.symbol = .named k)
    (shape : Execution.displayForm k = some form) :
    exprOf t = .sequence form (t.items.map exprOf) ∧ form.isDisplay := by
  have kind : t.kind? = some k := by rw [Tree.kind?,symbol]
  have allowed : k.isCondition := by cases k <;> first | rfl | cases shape
  rw [exprOf_condition symbol allowed,assemble,kind,items_exprsOf]
  cases k <;> cases shape <;> exact ⟨rfl,rfl⟩

theorem pureAll_map {ts : List Tree} (each : ∀ c ∈ ts, (exprOf c).isPure) : pureAll (ts.map exprOf) := by
  induction ts with
  | nil => rfl
  | cons c ts ih =>
    rw [List.map_cons,pureAll,each c List.mem_cons_self,ih fun c member => each c (.tail _ member)]
    rfl

theorem isPure_role (each : ∀ c ∈ t.children, (exprOf c).isPure) (f : Field) :
    ((exprsOf t.children).role f).isPure := by
  rw [Parts.role,role_eq_exprOfRole,exprOfRole_eq_find]
  cases found : t.children.find? (·.field == some f) with
  | none => rfl
  | some c => exact each c (List.mem_of_find?_eq_some found)

/-- Nothing in a condition leaves a trace. -/
theorem isPure_exprOf {t : Tree} (condition : t.IsCondition) : (exprOf t).isPure := by
  have each : ∀ c ∈ t.children, (exprOf c).isPure := fun c child =>
    have := Tree.sizeOf_lt_of_mem child
    isPure_exprOf (condition.child child)
  have items : pureAll (exprsOf t.children).items := by
    rw [items_exprsOf]
    exact pureAll_map fun c member => each c (Tree.mem_children_of_mem_items member)
  have role := isPure_role each
  cases symbol : t.symbol with
  | token spelling =>
    have token : t.isNamed = false := by rw [Tree.isNamed,symbol]
    have kind : t.kind? = none := by rw [Tree.kind?,symbol]
    rw [exprOf_token token,assemble,kind]
    exact items
  | named k =>
    have kind : t.kind? = some k := by rw [Tree.kind?,symbol]
    have allowed := condition.own symbol
    rw [exprOf_condition symbol allowed,assemble,kind]
    cases k with
    | conditionalExpression =>
      dsimp only
      split
      · next body condition alternative shape =>
        simp only [shape,pureAll,Bool.and_eq_true] at items
        simp [Expr.isPure,items]
      · exact items
    | booleanOperator =>
      dsimp only
      split <;> simp [Expr.isPure,role]
    | notOperator => exact role .argument
    | _ => first | rfl | exact items | cases allowed
termination_by sizeOf t

end Reading

end Excerpt.Program

namespace Excerpt.Execution
open Excerpt.Syntax Excerpt.Program Exec

/-- The objects that a value stands for. -/
def Value.Covers : Value → Object → Prop
  | .unknown,_ => True
  | .nothing,o => o = .none
  | .module _,o => o.isModule

/-- What is known of an expression is right for an object. -/
structure Appraisal.Holds (w : World) (a : Appraisal) (o : Object) : Prop where
  truth : ∀ b, a.truth = some b → o.truth w = some b
  value : a.value.Covers o

/-- A world in which every name has an object that its value in the state stands for. -/
def World.Concretises (w : World) (s : State) : Prop :=
  ∀ name v o, s.find? name = some v → w.names name = some o → v.Covers o

variable {w : World} {s : State} {a : Appraisal} {o : Object}

theorem Value.Covers.holds {v : Value} (covers : v.Covers o) : (Appraisal.ofValue v).Holds w o := by
  refine ⟨fun b known => ?_,covers⟩
  cases v with
  | unknown => cases known
  | nothing =>
    cases known
    rw [show o = .none from covers]
    rfl
  | module path =>
    cases known
    cases o <;> first | rfl | cases covers

section Steps

theorem ok_of_step {α β : Type} {step : Exec α} {next : α → Exec β} {b : β}
    (ran : ((step >>= next) s).1 = .ok b) :
    ∃ a, (step s).1 = .ok a ∧ (next a (step s).2).1 = .ok b := by
  rw [bind_apply] at ran
  rcases first : step s with ⟨r | a,t⟩ <;> rw [first] at ran
  · cases ran
  · exact ⟨a,rfl,ran⟩

/-- What came before does not matter if it left no trace. -/
theorem evaluate_after {α : Type} {step : Exec α} (inert : Inert step) (e : Expr) (s : State) :
    (evaluate e (step s).2).1 = (evaluate e s).1 := by
  rw [inert.state s]
  exact evaluate_deferred e s _

theorem each_of_ok {es : List Expr} {as : List Appraisal} (still : pureAll es)
    (ran : (evaluateEach es s).1 = .ok as) :
    List.Forall₂ (fun e a => (evaluate e s).1 = .ok a) es as := by
  induction es generalizing s as with
  | nil =>
    cases ran
    exact .nil
  | cons e es ih =>
    simp only [pureAll,Bool.and_eq_true] at still
    obtain ⟨first,here,ran⟩ := ok_of_step ran
    obtain ⟨others,later,ran⟩ := ok_of_step ran
    cases ran
    refine .cons here ((ih still.2 later).imp fun e a held => ?_)
    rwa [evaluate_after (evaluate_inert still.1)] at held

/-- The three ways of a connective: the left side decides, the right side is the result, or nothing is
known but that a deciding right side settles it. -/
theorem cases_of_connect {l r : Expr} {deciding : Bool} (left : l.isPure) (right : r.isPure)
    (ran : (connect deciding (evaluate l) (evaluate r) s).1 = .ok a) :
    ∃ x, (evaluate l s).1 = .ok x ∧
      (x.truth = some deciding ∧ a = x ∨ x.truth = some (!deciding) ∧ (evaluate r s).1 = .ok a ∨
        x.truth = none ∧ a.value = .unknown ∧ ∀ b, a.truth = some b →
          b = deciding ∧ ∃ y, (evaluate r s).1 = .ok y ∧ y.truth = some deciding) := by
  obtain ⟨x,first,rest⟩ := ok_of_step ran
  refine ⟨x,first,?_⟩
  have state := (evaluate_inert left).state s
  cases known : x.truth with
  | none =>
    simp only [known,reduceCtorEq,if_false,Option.isSome_none,Bool.false_eq_true] at rest
    rw [state,evaluate_perhaps right] at rest
    cases rest
    refine .inr (.inr ⟨rfl,rfl,fun b settled => ?_⟩)
    obtain ⟨inside,decides⟩ := Option.filter_eq_some_iff.1 settled
    obtain rfl : b = deciding := by simpa using decides
    obtain ⟨y,done,truth⟩ := Option.bind_eq_some_iff.1 inside
    cases ran : (evaluate r s).1 with
    | error e =>
      rw [ran] at done
      cases done
    | ok z =>
      rw [ran] at done
      cases done
      exact ⟨rfl,y,rfl,truth⟩
  | some b =>
    by_cases same : b = deciding
    · simp only [known,same,if_true] at rest
      cases rest
      exact .inl ⟨by rw [same],rfl⟩
    · simp only [known,Option.some.injEq,same,if_false,Option.isSome_some,if_true] at rest
      rw [evaluate_after (evaluate_inert left)] at rest
      refine .inr (.inl ⟨?_,rest⟩)
      cases b <;> cases deciding <;> first | rfl | exact absurd rfl same

theorem cases_of_conditional {body condition alternative : Expr} (still : condition.isPure)
    (ran : (evaluate (.conditional body condition alternative) s).1 = .ok a) :
    ∃ c, (evaluate condition s).1 = .ok c ∧
      (c.truth = some true ∧ (∃ x, (evaluate body s).1 = .ok x ∧ a = .ofValue x.value) ∨
        c.truth = some false ∧ (∃ x, (evaluate alternative s).1 = .ok x ∧ a = .ofValue x.value) ∨
        c.truth = none ∧ a = .unknown) := by
  rw [evaluate] at ran
  obtain ⟨c,test,rest⟩ := ok_of_step ran
  refine ⟨c,test,?_⟩
  rcases known : c.truth with _ | _ | _ <;> simp only [known] at rest
  · obtain ⟨_,-,rest⟩ := ok_of_step rest
    obtain ⟨_,-,rest⟩ := ok_of_step rest
    cases rest
    exact .inr (.inr ⟨rfl,rfl⟩)
  · obtain ⟨x,branch,rest⟩ := ok_of_step rest
    rw [evaluate_after (evaluate_inert still)] at branch
    cases rest
    exact .inr (.inl ⟨rfl,x,branch,rfl⟩)
  · obtain ⟨x,branch,rest⟩ := ok_of_step rest
    rw [evaluate_after (evaluate_inert still)] at branch
    cases rest
    exact .inl ⟨rfl,x,branch,rfl⟩

end Steps

section Constructs

theorem truth_of_denotes {text : String} {b : Bool} (known : integerTruth text = some b)
    (denotes : Denotes text o) : o.truth w = some b := by
  rw [integerTruth] at known
  split at known
  · cases known
  · next decimal =>
    simp only [Bool.or_eq_true,List.isEmpty_iff,Bool.not_eq_true',not_or,Bool.not_eq_false] at decimal
    rw [denotes decimal.1 decimal.2]
    dsimp only at known
    split at known
    · exact known
    · cases known

/-- A display without splats has as many items as are written. -/
theorem length_of_fills {cs : List Tree} {os : List Object} (fills : Fills w cs os)
    (plain : (cs.map exprOf).any isSplat = false) : os.length = cs.length := by
  induction cs generalizing os with
  | nil =>
    cases fills
    rfl
  | cons c cs ih =>
    simp only [List.map_cons,List.any_cons,Bool.or_eq_false_iff] at plain
    cases fills with
    | item value rest => simp [ih rest plain.2]
    | pair kind key value first second rest => simp [ih rest plain.2]
    | splat kind item value rest =>
      rw [exprOf_splat kind] at plain
      cases plain.1

theorem truth_of_display {cs : List Tree} {form : SequenceForm} {items kept : List Object} {b : Bool}
    (fills : Fills w cs items) (keeps : Keeps form items kept)
    (known : displayTruth (cs.map exprOf) = some b) :
    (Object.display form kept).truth w = some b := by
  rw [displayTruth] at known
  split at known
  · cases known
  · next plain =>
    have length := length_of_fills fills (by simpa using plain)
    have empty : kept = [] ↔ items = [] := by
      rw [Keeps] at keeps
      split at keeps
      · rw [keeps]
      · refine ⟨keeps.2,fun none => ?_⟩
        rw [none] at keeps
        exact List.sublist_nil.1 keeps.1
    have same : kept.isEmpty = (cs.map exprOf).isEmpty := by
      rw [Bool.eq_iff_iff,List.isEmpty_iff,List.isEmpty_iff,empty,← List.length_eq_zero_iff,length,
        List.length_eq_zero_iff,List.map_eq_nil_iff]
    rw [Object.truth,same]
    exact known

theorem Value.Covers.isNone {v : Value} {n : Bool} (covers : v.Covers o) (known : v.isNothing = some n) :
    (o.isNone || o.isModule) ∧ o.isNone = n := by
  cases v with
  | unknown => cases known
  | nothing =>
    cases known
    rw [show o = .none from covers]
    decide
  | module path =>
    cases known
    cases o <;> first | exact ⟨rfl,rfl⟩ | cases covers

/-- Where one side is the literal `None` and the other side is known, the comparison is settled. -/
theorem settled_of_isNothing {v v' : Value} {p : Object} (first : v.Covers o) (second : v'.Covers p)
    {left right : Expr} (leftNone : isNone left → o = .none) (rightNone : isNone right → p = .none)
    {n : Bool} (known : (if isNone right then v.isNothing
      else if isNone left then v'.isNothing else none) = some n) :
    o.isSettled p ∧ (o.isNone || p.isNone) ∧ n = (o.isNone && p.isNone) := by
  have literal : Object.none.isNone := rfl
  split at known
  · next isLiteral =>
    obtain ⟨bare,rfl⟩ := first.isNone known
    rw [rightNone isLiteral,Object.isSettled,literal,bare]
    simp
  · split at known
    · next isLiteral =>
      obtain ⟨bare,rfl⟩ := second.isNone known
      rw [leftNone isLiteral,Object.isSettled,literal,bare]
      simp
    · cases known

/-- What is known of a comparison is its answer. -/
theorem truth_of_compares {v v' : Value} {p answer : Object} (first : v.Covers o) (second : v'.Covers p)
    {left right : Expr} (leftNone : isNone left → o = .none) (rightNone : isNone right → p = .none)
    {op : Tree} {b : Bool} (compares : Compares op o p answer)
    (known : comparisonTruth [left,right] [v,v'] [comparator op] = some b) :
    answer.truth w = some b := by
  have settled {n : Bool} := @settled_of_isNothing o v v' p first second left right leftNone rightNone n
  unfold comparisonTruth at known
  dsimp only at known
  generalize (if isNone right then v.isNothing else if isNone left then v'.isNothing else none) = n
    at known settled
  cases compares with
  | identical spelled fixed =>
    have which : comparator op = .identical := by simp [comparator,spelled]
    rw [which] at known
    obtain ⟨-,some,rfl⟩ := settled known
    rw [fixed some]
    rfl
  | notIdentical spelled fixed =>
    have symbol : op.symbol = .token "is not" := beq_iff_eq.1 spelled
    have which : comparator op = .notIdentical := by simp [comparator,Tree.isToken,symbol]
    rw [which] at known
    obtain ⟨m,here,rfl⟩ := Option.map_eq_some_iff.1 known
    obtain ⟨-,some,rfl⟩ := settled here
    rw [fixed some]
    rfl
  | equal spelled fixed =>
    have symbol : op.symbol = .token "==" := beq_iff_eq.1 spelled
    have which : comparator op = .equal := by simp [comparator,Tree.isToken,symbol]
    rw [which] at known
    obtain ⟨fits,-,rfl⟩ := settled known
    rw [fixed fits]
    rfl
  | notEqual spelled fixed =>
    have symbol : op.symbol = .token "!=" := beq_iff_eq.1 spelled
    have which : comparator op = .notEqual := by simp [comparator,Tree.isToken,symbol]
    rw [which] at known
    obtain ⟨m,here,rfl⟩ := Option.map_eq_some_iff.1 known
    obtain ⟨fits,-,rfl⟩ := settled here
    rw [fixed fits]
    rfl
  | other spelled =>
    have which : comparator op = .other := by
      simp only [List.forall_mem_cons] at spelled
      simp [comparator,spelled]
    rw [which] at known
    cases known

theorem Appraisal.Holds.negated {b : Bool} (holds : a.Holds w o) (truth : o.truth w = some b) :
    Holds w ⟨.unknown,a.truth.map (!·)⟩ (.boolean !b) := by
  refine ⟨fun c known => ?_,trivial⟩
  obtain ⟨d,here,rfl⟩ := Option.map_eq_some_iff.1 known
  rw [Option.some.inj (truth.symm.trans (holds.truth d here))]
  rfl

theorem evaluate_connective {t l : Tree} {deciding : Bool} (connective : t.Connects deciding)
    (left : t.child? .left = some l) : evaluate (exprOf t) =
      connect deciding (evaluate (exprOf l)) (evaluate ((exprsOf t.children).role .right)) := by
  rw [exprOf_connective connective left]
  cases deciding
  · exact evaluate_conjunction _ _
  · exact evaluate_disjunction _ _

/-- A connective, given what its left side evaluates to and how that leads to the result. -/
theorem holds_of_connect {l r : Expr} {deciding : Bool} {result : Object} (pureLeft : l.isPure)
    (pureRight : r.isPure) (left : ∀ x, (evaluate l s).1 = .ok x → x.Holds w o)
    (way : o.truth w = some deciding ∧ result = o ∨ o.truth w = some (!deciding) ∧
      ∀ y, (evaluate r s).1 = .ok y → y.Holds w result)
    (ran : (connect deciding (evaluate l) (evaluate r) s).1 = .ok a) : a.Holds w result := by
  obtain ⟨x,first,rest⟩ := cases_of_connect pureLeft pureRight ran
  have holds := left x first
  have clash {b : Bool} (one : o.truth w = some b) (other : o.truth w = some (!b)) : False := by
    rw [one] at other
    cases b <;> cases other
  rcases way with ⟨truth,rfl⟩ | ⟨truth,right⟩
  · rcases rest with ⟨-,rfl⟩ | ⟨known,-⟩ | ⟨-,value,settled⟩
    · exact holds
    · exact (clash truth (holds.truth _ known)).elim
    · refine ⟨fun b known => ?_,by rw [value]; trivial⟩
      rw [(settled b known).1,truth]
  · rcases rest with ⟨known,-⟩ | ⟨-,second⟩ | ⟨-,value,settled⟩
    · exact (clash (holds.truth _ known) truth).elim
    · exact right a second
    · refine ⟨fun b known => ?_,by rw [value]; trivial⟩
      obtain ⟨rfl,y,second,decides⟩ := settled b known
      exact (right y second).truth b decides

/-- A conditional expression, given what its condition evaluates to and which branch that takes. -/
theorem holds_of_conditional {body condition alternative : Expr} {result : Object} {b : Bool}
    (still : condition.isPure) (test : ∀ x, (evaluate condition s).1 = .ok x → x.Holds w o)
    (truth : o.truth w = some b) (branch : ∀ y,
      (evaluate (if b then body else alternative) s).1 = .ok y → y.Holds w result)
    (ran : (evaluate (.conditional body condition alternative) s).1 = .ok a) : a.Holds w result := by
  obtain ⟨c,first,rest⟩ := cases_of_conditional still ran
  have holds := test c first
  rcases rest with ⟨known,y,second,rfl⟩ | ⟨known,y,second,rfl⟩ | ⟨-,rfl⟩
  · cases Option.some.inj (truth.symm.trans (holds.truth _ known))
    exact (branch y second).value.holds
  · cases Option.some.inj (truth.symm.trans (holds.truth _ known))
    exact (branch y second).value.holds
  · exact ⟨nofun,trivial⟩

theorem eq_none_of_isNone {e : Expr} (literal : isNone e) : e = .none := by
  cases e <;> first | rfl | cases literal

/-- A comparison, of which only that of two operands can be known. -/
theorem holds_of_comparison {first : Tree} {rest ops : List Tree} {answer : Object}
    (still : pureAll ((first :: rest).map exprOf))
    (operand : ∀ c ∈ first :: rest, ∀ x p, Evaluates w c p → (evaluate (exprOf c) s).1 = .ok x →
      x.Holds w p)
    (start : Evaluates w first o) (chain : Chains w o ops rest answer)
    (ran : (evaluate (.comparison ((first :: rest).map exprOf) (ops.map comparator)) s).1 = .ok a) :
    a.Holds w answer := by
  rw [evaluate] at ran
  obtain ⟨values,each,ran⟩ := ok_of_step ran
  cases ran
  refine ⟨fun b known => ?_,trivial⟩
  cases each_of_ok still each with
  | @cons _ x _ xs held others =>
    have left := operand first List.mem_cons_self x o start held
    have literal {c : Tree} {x : Appraisal} {p : Object} (holds : x.Holds w p)
        (held : (evaluate (exprOf c) s).1 = .ok x) (none : isNone (exprOf c)) : p = .none := by
      rw [eq_none_of_isNone none] at held
      cases held
      exact holds.value
    cases chain with
    | @last _ p _ op e next compares =>
      rcases others with _ | ⟨held',_ | _⟩
      have right := operand e (by simp) _ p next held'
      exact truth_of_compares left.value right.value (literal left held) (literal right held') compares
        known
    | stop => exact absurd known (by simp [comparisonTruth])
    | goOn => exact absurd known (by simp [comparisonTruth])

end Constructs

/-- What is known of a condition is right for every object that it evaluates to. -/
theorem holds_of_evaluates {t : Tree} {a : Appraisal} {o : Object} (condition : t.IsCondition)
    (concretises : w.Concretises s) (evaluates : Evaluates w t o)
    (ran : (evaluate (exprOf t) s).1 = .ok a) : a.Holds w o := by
  have below {c : Tree} (child : c ∈ t.children) (x : Appraisal) (p : Object)
      (value : Evaluates w c p) (held : (evaluate (exprOf c) s).1 = .ok x) : x.Holds w p :=
    have := Tree.sizeOf_lt_of_mem child
    holds_of_evaluates (condition.child child) concretises value held
  have still {c : Tree} (child : c ∈ t.children) : (exprOf c).isPure :=
    isPure_exprOf (condition.child child)
  have item {c : Tree} (member : c ∈ t.items) := Tree.mem_children_of_mem_items member
  have items : pureAll (t.items.map exprOf) := pureAll_map fun c member => still (item member)
  cases evaluates with
  | noneLiteral kind =>
    obtain ⟨read,kind⟩ := exprOf_of_is kind rfl
    rw [read,assemble,kind] at ran
    cases ran
    exact Value.Covers.holds (v := .nothing) rfl
  | trueLiteral kind | falseLiteral kind =>
    obtain ⟨read,kind⟩ := exprOf_of_is kind rfl
    rw [read,assemble,kind] at ran
    cases ran
    exact ⟨fun b known => known,trivial⟩
  | integer kind value =>
    obtain ⟨read,kind⟩ := exprOf_of_is kind rfl
    rw [read,assemble,kind] at ran
    cases ran
    exact ⟨fun b known => truth_of_denotes known value,trivial⟩
  | identifier kind held =>
    obtain ⟨read,kind⟩ := exprOf_of_is kind rfl
    rw [read,assemble,kind,evaluate] at ran
    obtain ⟨v,found,ran⟩ := ok_of_step ran
    cases ran
    exact (concretises _ _ _ (lookup_eq_ok.1 found) held).holds
  | @parentheses _ e _ kind only inner =>
    rw [only] at items
    rw [exprOf_parentheses kind,only,evaluate] at ran
    obtain ⟨values,each,ran⟩ := ok_of_step ran
    rcases each_of_ok items each with _ | ⟨held,_ | _⟩
    cases ran
    exact below (item (by simp [only])) _ _ inner held
  | @negation _ e o b kind argument inner truth =>
    rw [exprOf_negation kind argument,evaluate] at ran
    obtain ⟨x,held,ran⟩ := ok_of_step ran
    cases ran
    exact (below (Tree.mem_children_of_child? argument) x o inner held).negated truth
  | @decided _ l _ deciding connective left first truth =>
    have inside := Tree.mem_children_of_child? left
    rw [evaluate_connective connective left] at ran
    exact holds_of_connect (still inside) (isPure_role (fun _ => still) _)
      (fun x => below inside x o first) (.inl ⟨truth,rfl⟩) ran
  | @undecided _ l r o' _ deciding connective left first truth right second =>
    have inside := Tree.mem_children_of_child? left
    have inside' := Tree.mem_children_of_child? right
    rw [evaluate_connective connective left,role_exprsOf right] at ran
    exact holds_of_connect (still inside) (still inside') (fun x => below inside x o' first)
      (.inr ⟨truth,fun y => below inside' y o second⟩) ran
  | @consequence _ body test other o' _ kind parts first truth branch =>
    have child {c : Tree} (member : c ∈ [body,test,other]) : c ∈ t.children := item (parts ▸ member)
    have inside : test ∈ t.children := child (by simp)
    rw [exprOf_conditional kind parts] at ran
    exact holds_of_conditional (still inside) (fun x => below inside x o' first) truth
      (fun y => below (child (by simp)) y o branch) ran
  | @alternative _ body test other o' _ kind parts first truth branch =>
    have child {c : Tree} (member : c ∈ [body,test,other]) : c ∈ t.children := item (parts ▸ member)
    have inside : test ∈ t.children := child (by simp)
    rw [exprOf_conditional kind parts] at ran
    exact holds_of_conditional (still inside) (fun x => below inside x o' first) truth
      (fun y => below (child (by simp)) y o branch) ran
  | comparison kind operands start chain =>
    rw [operands] at items
    rw [exprOf_comparison kind,operands] at ran
    exact holds_of_comparison items
      (fun c member => below (item (operands ▸ member))) start chain ran
  | display symbol shape filled keeps =>
    obtain ⟨read,isDisplay⟩ := exprOf_display symbol shape
    rw [read,evaluate] at ran
    obtain ⟨values,-,ran⟩ := ok_of_step ran
    cases ran
    refine ⟨fun b known => truth_of_display filled keeps ?_,trivial⟩
    rwa [isDisplay] at known
termination_by sizeOf t

/-- Whenever a condition can be evaluated, what is known of it is right in every world that agrees with the
state: an object that it evaluates to has the known truth, is `None` if that is the known value, and is a
module if the known value is one. -/
theorem known_truth_right {t : Tree} (condition : t.IsCondition) {s s' : State} {a : Appraisal}
    (ran : evaluate (exprOf t) s = (.ok a,s')) {w : World} (concretises : w.Concretises s) {o : Object}
    (evaluates : Evaluates w t o) :
    (∀ b, a.truth = some b → o.truth w = some b) ∧ (a.value = .nothing → o = .none) ∧
      ∀ path, a.value = .module path → o.isModule := by
  have holds := holds_of_evaluates condition concretises evaluates (by rw [ran])
  refine ⟨holds.truth,fun known => ?_,fun path known => ?_⟩
  · have covers := holds.value
    rwa [known] at covers
  · have covers := holds.value
    rwa [known] at covers

/-- `c or x is None` -/
def unsureOrNone : Tree :=
  .node ⟨.named .booleanOperator,none,⟨0,0,0⟩,"c or x is None"⟩ [
    .node ⟨.named .identifier,some .left,⟨0,0,0⟩,"c"⟩ [],
    .node ⟨.token "or",some .operator,⟨2,0,2⟩,"or"⟩ [],
    .node ⟨.named .comparisonOperator,some .right,⟨5,0,5⟩,"x is None"⟩ [
      .node ⟨.named .identifier,none,⟨5,0,5⟩,"x"⟩ [],
      .node ⟨.token "is",some .operators,⟨7,0,7⟩,"is"⟩ [],
      .node ⟨.named .noneLiteral,none,⟨10,0,10⟩,"None"⟩ []]]

/-- A world in which `x` is `None` and `c` is an object that is false. -/
def falseWorld : World :=
  ⟨fun name => if name = "c" then some (.foreign 0) else if name = "x" then some .none else none,
    fun _ => some false⟩

/-- Nothing is known of `c`, but `x` is `None`; so the right side decides, and it does so where `c` is
false. -/
theorem known_truth_right_unsure :
    evaluate (exprOf unsureOrNone) (stateOf .unknown .nothing) =
      (.ok ⟨.unknown,some true⟩,stateOf .unknown .nothing) ∧
    falseWorld.Concretises (stateOf .unknown .nothing) ∧
    Evaluates falseWorld unsureOrNone (.boolean true) ∧
    (Object.boolean true).truth falseWorld = some true := by
  have condition : unsureOrNone.IsCondition := by decide +kernel
  have ran : evaluate (exprOf unsureOrNone) (stateOf .unknown .nothing) =
      (.ok ⟨.unknown,some true⟩,stateOf .unknown .nothing) := rfl
  have concretises : falseWorld.Concretises (stateOf .unknown .nothing) := by
    intro name v o found held
    simp only [falseWorld] at held
    split at held
    · next named =>
      rw [named] at found
      cases found
      trivial
    · split at held
      · next named =>
        rw [named] at found
        cases found
        cases held
        rfl
      · cases held
  have evaluates : Evaluates falseWorld unsureOrNone (.boolean true) := by
    have connective : unsureOrNone.Connects true := ⟨rfl,_,rfl,rfl⟩
    refine .undecided connective rfl (.identifier rfl rfl) rfl rfl ?_
    exact .comparison rfl rfl (.identifier rfl rfl)
      (.last (.noneLiteral rfl) (.identical rfl fun _ => rfl))
  exact ⟨ran,concretises,evaluates,(known_truth_right condition ran concretises evaluates).1 true rfl⟩

end Excerpt.Execution
