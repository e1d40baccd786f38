import Excerpt.Proofs.AnnotatedTree
import Excerpt.Proofs.Continuation
import Excerpt.Proofs.JoinedExpression
import Excerpt.Proofs.StatementNames

/-!
What is read from a tree without its line continuations. A continuation is read as a blank, so the
expression of a joinable tree only loses blanks that nothing depends on.
-/
namespace Excerpt.Program
open Excerpt.Execution Excerpt.Syntax

/-- The expression of a tree loses nothing but blanks when the lines are joined. -/
def ReadsJoined (live : Bool) (t : Tree) : Prop := (exprOf t).Joins live (exprOf t.joined)

section Lists
variable {live : Bool} {cs : List Tree}

theorem exprOf_of_isBreak {t : Tree} (rest : t.isBreak) : exprOf t = .blank :=
  exprOf_extra (Tree.symbol_of_isBreak rest) rfl

theorem readsJoined_of_extra {t : Tree} {k : Kind} (symbol : t.symbol = .named k) (extra : k.isExtra) :
    ReadsJoined live t := by
  rw [ReadsJoined,exprOf_extra symbol extra,exprOf_extra (by rw [Tree.symbol_joined,symbol]) extra]
  exact .same live .blank

theorem filter_joins {q : Tree → Bool} (stable : ∀ t : Tree, q t.joined = q t)
    (each : ∀ c ∈ cs, q c → ReadsJoined live c) :
    JoinsAll live ((cs.filter q).map exprOf) (((joinedAll cs).filter q).map exprOf) := by
  refine joinedAll_induction
    (P := fun ds ds' => JoinsAll live ((ds.filter q).map exprOf) ((ds'.filter q).map exprOf)) .nil
    (fun c member _ ds ds' joins => ?_) fun c _ rest ds ds' joins => ?_
  · rw [List.filter_cons,List.filter_cons,stable]
    split
    · next found => exact .cons (each c member found) joins
    · exact joins
  · rw [List.filter_cons]
    split
    · rw [List.map_cons,exprOf_of_isBreak rest]
      exact .blank joins
    · exact joins

theorem items_joins (each : ∀ c ∈ cs, c.isNamed → ReadsJoined live c) :
    JoinsAll live (exprsOf cs).items (exprsOf (joinedAll cs)).items := by
  rw [items_eq_filter,items_eq_filter]
  refine filter_joins (fun t => by simp) fun c member item => each c member ?_
  rw [Bool.and_eq_true] at item
  exact item.1

theorem itemsBut_joins (f : Field) (each : ∀ c ∈ cs, c.isNamed → ReadsJoined live c) :
    JoinsAll live ((exprsOf cs).itemsBut f) ((exprsOf (joinedAll cs)).itemsBut f) := by
  have read (ts : List Tree) : (exprsOf ts).itemsBut f =
      (ts.filter fun t => t.isNamed && !t.is .comment && t.field != some f).map exprOf := by
    rw [exprsOf_eq_map,Parts.itemsBut,List.filter_map,List.map_map]
    rfl
  rw [read,read]
  refine filter_joins (fun t => by simp) fun c member item => each c member ?_
  simp only [Bool.and_eq_true] at item
  exact item.1.1

theorem all_joins (each : ∀ c ∈ cs, c.isNamed → ReadsJoined live c) :
    JoinsAll live (exprsOf cs).all (exprsOf (joinedAll cs)).all := by
  have read (ts : List Tree) : (exprsOf ts).all = (ts.filter Tree.isNamed).map exprOf := by
    rw [exprsOf_eq_map,Parts.all,List.filter_map,List.map_map]
    rfl
  rw [read,read]
  exact filter_joins Tree.isNamed_joined each

theorem find_joins {q : Tree → Bool} (found : (joinedAll cs).find? q = (cs.find? q).map Tree.joined)
    (each : ∀ c ∈ cs, q c → ReadsJoined live c) :
    JoinsOption live ((cs.find? q).map exprOf) (((joinedAll cs).find? q).map exprOf) := by
  rw [found]
  cases first : cs.find? q with
  | none => exact .none
  | some c => exact .some (each c (List.mem_of_find?_eq_some first) (List.find?_some first))

theorem exprOfRole_joins (bare : BareBreaks cs) {f : Field}
    (each : ∀ c ∈ cs, c.field = some f → ReadsJoined live c) :
    JoinsOption live (exprOfRole f cs) (exprOfRole f (joinedAll cs)) := by
  rw [exprOfRole_eq_find,exprOfRole_eq_find]
  exact find_joins (find_field_joinedAll bare f) fun c member role => each c member (beq_iff_eq.1 role)

theorem JoinsOption.getD {e e' : Option Expr} (joins : JoinsOption live e e') :
    (e.getD .blank).Joins live (e'.getD .blank) := by
  cases joins with
  | none => exact .same live .blank
  | some part => exact part

theorem JoinsOption.headD {es es' : List Expr} (joins : JoinsOption live es.head? es'.head?) :
    (es.headD .blank).Joins live (es'.headD .blank) := by
  rw [List.headD_eq_head?_getD,List.headD_eq_head?_getD]
  exact joins.getD

/-- The first of the items, where no line continuation comes before it. -/
theorem headItem_joins (head : headed cs) (each : ∀ c ∈ cs, c.isNamed → ReadsJoined live c) :
    JoinsOption live (exprsOf cs).items.head? (exprsOf (joinedAll cs)).items.head? := by
  have read (ts : List Tree) : (exprsOf ts).items.head? = (ts.find? Tree.isItem).map exprOf := by
    rw [items_eq_filter,List.head?_map,List.head?_filter]
    rfl
  rw [read,read]
  refine find_joins (find_item_joinedAll head) fun c member item => each c member ?_
  rw [Tree.isItem,Bool.and_eq_true] at item
  exact item.1

theorem headNamed_joins (head : headed cs) (each : ∀ c ∈ cs, c.isNamed → ReadsJoined live c) :
    JoinsOption live (exprsOf cs).all.head? (exprsOf (joinedAll cs)).all.head? := by
  rw [head_all,head_all]
  exact find_joins (find_named_joinedAll head) each

theorem items_length (whole : broken cs = false) :
    (exprsOf (joinedAll cs)).items.length = (exprsOf cs).items.length := by
  have same := filter_item_joinedAll cs
  rw [← filter_item_of_whole whole] at same
  rw [items_eq_filter,items_eq_filter,List.length_map,List.length_map]
  exact (congrArg List.length same).trans (List.length_map _)

theorem length_items_joined (cs : List Tree) :
    (exprsOf (joinedAll cs)).items.length = (constructs cs).length := by
  rw [items_eq_filter,List.length_map]
  exact (congrArg List.length (filter_item_joinedAll cs)).trans (List.length_map _)

theorem length_constructs_le (cs : List Tree) : (constructs cs).length ≤ (exprsOf cs).items.length := by
  rw [items_eq_filter,List.length_map]
  exact (constructs_sublist cs).length_le

end Lists

section Node
variable {live : Bool} {t : Tree}

theorem comparators_joined {cs : List Tree} (bare : BareBreaks cs) :
    comparators (joinedAll cs) = comparators cs := by
  have whole : ∀ c ∈ cs, (c.field == some .operators) = true → c.isBreak = false := by
    intro c member role
    cases rest : c.isBreak with
    | false => rfl
    | true => simp [(bare c member rest).1] at role
  rw [comparators,filter_joinedAll (fun t => by rw [Tree.field_joined]) whole,List.map_map,comparators]
  refine List.map_congr_left fun c _ => ?_
  simp [comparator]

theorem isDisjunction_joined (bare : BareBreaks t.children) : isDisjunction t.joined = isDisjunction t := by
  rw [isDisjunction,child?_joined bare,Option.map_map,isDisjunction]
  exact congrArg (fun g => (Option.map g (t.child? .operator)).getD false)
    (funext fun c => c.isToken_joined "or")

/-- A display holds something with its line continuations if and only if it does without them. -/
theorem display_joins {cs : List Tree} (filled : (!broken cs || !(constructs cs).isEmpty) = true) :
    (exprsOf (joinedAll cs)).items.isEmpty = (exprsOf cs).items.isEmpty := by
  have fewer := length_constructs_le cs
  rw [Bool.or_eq_true,Bool.not_eq_true',Bool.not_eq_true',List.isEmpty_eq_false_iff,
    ← List.length_pos_iff] at filled
  rw [Bool.eq_iff_iff,List.isEmpty_iff_length_eq_zero,List.isEmpty_iff_length_eq_zero]
  rcases filled with whole | some_
  · rw [items_length whole]
  · rw [length_items_joined]
    omega

theorem comparison_joins {cs : List Tree} (each : ∀ c ∈ cs, c.isNamed → ReadsJoined live c)
    (decided : decidedAt (.named .comparisonOperator) cs) :
    (exprsOf (joinedAll cs)).items.length = (exprsOf cs).items.length ∨
      ¬ Decisive (exprsOf cs).items ∧ ¬ Decisive (exprsOf (joinedAll cs)).items := by
  simp only [decidedAt,Bool.or_eq_true,Bool.not_eq_true',decide_eq_true_eq,List.all_eq_true] at decided
  rcases decided with (whole | many) | none_
  · exact .inl (items_length whole)
  · have fewer := length_constructs_le cs
    have joined := length_items_joined cs
    refine .inr ⟨?_,?_⟩ <;> rintro ⟨left,right,same,_⟩ <;> simp only [same,List.length_cons,
      List.length_nil] at fewer joined <;> omega
  · have plain {e : Expr} (member : e ∈ (exprsOf cs).items) : isNone e = false := by
      rw [items_eq_filter] at member
      obtain ⟨c,item,rfl⟩ := List.mem_map.1 member
      cases rest : c.isBreak with
      | true => rw [exprOf_of_isBreak rest]; rfl
      | false =>
        obtain ⟨among,item⟩ := List.mem_filter.1 item
        exact none_ c (List.mem_filter.2 ⟨among,by simpa [Tree.isConstruct,Tree.isItem,rest] using item⟩)
    have plain' {e : Expr} (member : e ∈ (exprsOf (joinedAll cs)).items) : isNone e = false := by
      obtain ⟨f,among,joins⟩ := (items_joins each).exists_of_mem member
      rw [isNone_of_joins joins,plain among]
    refine .inr ⟨?_,?_⟩ <;> rintro ⟨left,right,same,one⟩
    · simp [plain (e := left) (by simp [same]),plain (e := right) (by simp [same])] at one
    · simp [plain' (e := left) (by simp [same]),plain' (e := right) (by simp [same])] at one

/-- What the items of a conditional make: they must be three. -/
def conditionalOf : List Expr → Expr
  | [body,condition,alternative] => .conditional body condition alternative
  | items => .group items

theorem conditionalOf_joins {es es' : List Expr} (joins : JoinsAll live es es')
    (length : live → es'.length = es.length) : (conditionalOf es).Joins live (conditionalOf es') := by
  unfold conditionalOf
  split
  · next body condition alternative =>
    split
    · next body' condition' alternative' =>
      obtain ⟨_,_,same,first,joins,length⟩ := joins.cons_inv rfl
      obtain ⟨rfl,rfl⟩ := List.cons.inj same
      obtain ⟨_,_,same,second,joins,length⟩ := joins.cons_inv rfl
      obtain ⟨rfl,rfl⟩ := List.cons.inj same
      obtain ⟨_,_,same,third,_⟩ := joins.cons_inv rfl
      obtain ⟨rfl,rfl⟩ := List.cons.inj same
      exact .conditional first second third
    · next other =>
      cases live with
      | false => exact .ungrouped joins
      | true =>
        obtain ⟨_,_,_,three⟩ := List.length_eq_three.1 (length rfl)
        exact absurd three (other _ _ _)
  · next other =>
    split
    · next body' condition' alternative' =>
      cases live with
      | false => exact .regrouped joins
      | true =>
        obtain ⟨_,_,_,three⟩ := List.length_eq_three.1 (length rfl).symm
        exact absurd three (other _ _ _)
    · exact .group joins

/-- The expression of a node whose parts lose only blanks. -/
theorem assemble_joins (bare : BareBreaks t.children) (head : headedAt t.symbol t.children)
    (decided : live → decidedAt t.symbol t.children) (each : ∀ c ∈ t.children, ReadsJoined live c) :
    (assemble t (exprsOf t.children)).Joins live (assemble t.joined (exprsOf t.joined.children)) := by
  have items := items_joins fun c member _ => each c member
  have role? (f : Field) : JoinsOption live ((exprsOf t.children).role? f)
      ((exprsOf t.joined.children).role? f) := by
    rw [role_eq_exprOfRole,role_eq_exprOfRole,Tree.children_joined]
    exact exprOfRole_joins bare fun c member _ => each c member
  have role (f : Field) := (role? f).getD
  have others (f : Field) := itemsBut_joins f fun c member _ => each c member
  rw [← Tree.children_joined] at items others
  unfold assemble
  rw [Tree.kind?_joined,childText_joined bare,childText_joined bare,isDisjunction_joined bare]
  cases symbol : t.symbol with
  | token spelling =>
    have kind : t.kind? = none := by simp [Tree.kind?,symbol]
    rw [kind]
    exact .group items
  | named k =>
    have kind : t.kind? = some k := by simp [Tree.kind?,symbol]
    rw [symbol] at head decided
    rw [kind]
    cases k
    case identifier =>
      rw [Tree.text_joined,Tree.line_joined]
      exact .same live _
    case noneLiteral | trueLiteral | falseLiteral | comment | lineContinuation => exact .same live _
    case integer =>
      rw [Tree.text_joined]
      exact .same live _
    case parenthesizedExpression =>
      refine .parens items fun runs => ?_
      rw [Tree.children_joined,items_length (by simpa [decidedAt] using decided runs)]
    case tuple | list | set | dictionary =>
      refine .sequence items fun runs _ => ?_
      rw [Tree.children_joined]
      exact display_joins (decided runs)
    case patternList | tuplePattern | listPattern | expressionList | asPatternTarget | listSplatPattern
      | dictionarySplatPattern | parenthesizedListSplat =>
      refine .sequence items fun _ display => ?_
      cases display
    case listSplat | dictionarySplat => exact .splat items
    case member => exact .member (role .object)
    case call => exact .call (role .function) (role .arguments)
    case subscript => exact .subscript (role .value) (others .value)
    case keywordArgument => exact .keyword (role .value)
    case namedExpression => exact .walrus (role .value)
    case asPattern =>
      refine .aliased ?_ (role .alias)
      rw [Tree.children_joined]
      exact (headItem_joins head fun c member _ => each c member).headD
    case conditionalExpression =>
      refine conditionalOf_joins items fun runs => ?_
      rw [Tree.children_joined,items_length (by simpa [decidedAt] using decided runs)]
    case booleanOperator =>
      cases disjunction : isDisjunction t with
      | false => exact .conjunction (role .left) (role .right)
      | true => exact .disjunction (role .left) (role .right)
    case notOperator => exact .negation (role .argument)
    case comparisonOperator =>
      rw [Tree.children_joined] at items ⊢
      rw [comparators_joined bare]
      exact .comparison items fun runs => comparison_joins (fun c member _ => each c member) (decided runs)
    case binaryOperator => exact .binary (role .left) (role .right)
    case yieldExpression | awaitExpression =>
      rw [Tree.start_joined]
      exact .suspension items
    case dottedName =>
      simp only [headedAt,Bool.and_eq_true] at head
      rw [Tree.children_joined]
      exact (headNamed_joins head.1.1 fun c member _ => each c member).headD
    case assignment => exact .assignment (role .left) (role? .type) (role? .right)
    case augmentedAssignment => exact .augmented (role .left) (role .right)
    all_goals exact .group items

theorem defaultParameter_eq (t : Tree) : defaultParameter t = .mk (exprOfRole .name t.children)
    (exprOfRole .type t.children) (exprOfRole .value t.children) := by
  obtain ⟨l,cs⟩ := t
  rw [defaultParameter,role_eq_exprOfRole,role_eq_exprOfRole,role_eq_exprOfRole]
  rfl

theorem typedParameter_eq (t : Tree) : typedParameter t =
    .mk (exprsOf t.children).all.head? (exprOfRole .type t.children) none := by
  obtain ⟨l,cs⟩ := t
  rw [typedParameter,role_eq_exprOfRole]
  rfl

/-- Parameters of a function, given what is read from them and from their parts. -/
theorem parametersOf_joins {cs : List Tree} (each : ∀ c ∈ cs, ReadsJoined live c)
    (parts : ∀ c ∈ cs, hasParts c → BareBreaks c.children ∧ headedAt c.symbol c.children ∧
      ∀ d ∈ c.children, ReadsJoined live d) :
    ParametersJoin live (parametersOf cs) (parametersOf (joinedAll cs)) := by
  refine joinedAll_induction (P := fun ds ds' => ParametersJoin live (parametersOf ds) (parametersOf ds'))
    .nil (fun c member _ ds ds' joins => ?_) fun c _ rest ds ds' joins => ?_
  · have plain : isPlainParameter c.joined = isPlainParameter c := by simp [isPlainParameter]
    have default : isDefaultParameter c.joined = isDefaultParameter c := by simp [isDefaultParameter]
    simp only [parametersOf,plain,default,Tree.is_joined,defaultParameter_eq,typedParameter_eq,
      Tree.children_joined]
    split
    · exact .cons (.some (each c member)) .none .none joins
    split
    · next own =>
      rw [isDefaultParameter] at own
      obtain ⟨bare,_,inner⟩ := parts c member (by rw [hasParts,own]; rfl)
      have role (f : Field) := exprOfRole_joins bare (f := f) fun d among _ => inner d among
      exact .cons (role .name) (role .type) (role .value) joins
    split
    · next own =>
      obtain ⟨bare,head,inner⟩ := parts c member (by rw [hasParts,own,Bool.or_true])
      rw [beq_iff_eq.1 own] at head
      exact .cons (headNamed_joins head fun d among _ => inner d among)
        (exprOfRole_joins bare fun d among _ => inner d among) .none joins
    · exact joins
  · have symbol := Tree.symbol_of_isBreak rest
    simpa [parametersOf,isPlainParameter,isDefaultParameter,Tree.is,symbol] using joins

theorem clauseOf_eq (t : Tree) : clauseOf t =
    .clause ((exprOfRole .left t.children).getD .blank) (exprsOfRole .right t.children) := by
  obtain ⟨l,cs⟩ := t
  rw [clauseOf]
  rfl

/-- The parts of a comprehension: its elements are not evaluated with it. -/
theorem partsOf_joins {cs : List Tree} (elements : ∀ c ∈ cs, c.is .forInClause = false → ReadsJoined false c)
    (clauses : ∀ c ∈ cs, c.is .forInClause → BareBreaks c.children ∧ ∀ d ∈ c.children, ReadsJoined live d) :
    PartsJoin live (partsOf cs) (partsOf (joinedAll cs)) := by
  refine joinedAll_induction (P := fun ds ds' => PartsJoin live (partsOf ds) (partsOf ds')) .nil
    (fun c member _ ds ds' joins => ?_) fun c _ rest ds ds' joins => ?_
  · simp only [partsOf,Tree.is_joined,Tree.isNamed_joined,clauseOf_eq,Tree.children_joined]
    split
    · next clause =>
      obtain ⟨bare,inner⟩ := clauses c member clause
      refine .clause (exprOfRole_joins bare fun d among _ => inner d among).getD ?_ joins
      rw [exprsOfRole_eq_filter,exprsOfRole_eq_filter]
      exact filter_joins (fun t => by simp) fun d among _ => inner d among
    · next other =>
      split
      · exact .element (elements c member (by simpa using other)) joins
      · exact joins
  · have symbol := Tree.symbol_of_isBreak rest
    simp only [partsOf,Tree.is,Tree.isNamed,symbol,exprOf_of_isBreak rest]
    exact .blank joins

end Node

/-- The kinds of which some part is not evaluated with the whole. -/
def defers (k : Kind) : Bool := k == .lambda || isComprehension k

theorem below_operand {k : Kind} {c : Tree} (ordinary : k.isStructure = false) (plain : defers k = false) :
    Use.below .live (.named k) c = .live := by
  cases k <;> cases ordinary <;> cases plain <;> rfl

theorem exprOf_named {t : Tree} {k : Kind} (symbol : t.symbol = .named k) :
    exprOf t = if k == .lambda then
      .lambda (parametersOfRole t.children) ((exprOfRole .body t.children).getD .blank)
      else if isComprehension k then .comprehension (partsOf t.children)
      else assemble t (exprsOf t.children) := by
  obtain ⟨l,cs⟩ := t
  have own : l.symbol = .named k := symbol
  simp only [exprOf,own]
  rfl

section Joinable
variable {live : Bool}

theorem parametersOfRole_joins {cs : List Tree} (bare : BareBreaks cs)
    (each : ∀ c ∈ cs, c.field = some .parameters →
      ParametersJoin live (parametersOf c.children) (parametersOf (joinedAll c.children))) :
    ParametersJoin live (parametersOfRole cs) (parametersOfRole (joinedAll cs)) := by
  rw [parametersOfRole_eq_find,parametersOfRole_eq_find,find_field_joinedAll bare]
  cases found : cs.find? (·.field == some .parameters) with
  | none => exact .nil
  | some c =>
    have role := List.find?_some found
    have joins := each c (List.mem_of_find?_eq_some found) (by simpa using role)
    simpa using joins

/-- The parameters below a node in their role, given what is read from smaller trees. -/
theorem parameters_joins {t : Tree} (placed : t.fits .parameters) (joinable : t.joinable (.ofLive live))
    (smaller : ∀ u : Tree, sizeOf u < sizeOf t → u.fits .operand → u.joinable (.ofLive live) →
      ReadsJoined live u) :
    ParametersJoin live (parametersOf t.children) (parametersOf (joinedAll t.children)) := by
  have kind : t.symbol = .named .parameters ∨ t.symbol = .named .lambdaParameters := by
    have allowed := (Tree.fits_iff.1 placed).1
    cases symbol : t.symbol with
    | token spelling => rw [symbol] at allowed; cases allowed
    | named k =>
      rw [symbol] at allowed
      simpa [Place.allows,Place.allowsKind] using allowed
  have named : t.isNamed := by rcases kind with symbol | symbol <;> simp [Tree.isNamed,symbol]
  have fits {c : Tree} (member : c ∈ t.children) : c.fits .operand :=
    fits_operand_of_mem (fits_operand_of_parameters placed) named member
  have below {c : Tree} (member : c ∈ t.children) : c.joinable (.ofLive live) := by
    refine Tree.joinable_child joinable member ?_
    rcases kind with symbol | symbol <;> rw [symbol] <;> rfl
  refine parametersOf_joins
    (fun c member => smaller c (Tree.sizeOf_lt_of_mem member) (fits member) (below member))
    fun c member parts => ?_
  obtain ⟨bare,head,_,_⟩ := Tree.joinable_iff.1 (below member)
  refine ⟨bare,head,fun d among => ?_⟩
  have named : c.isNamed ∧ Use.below .live c.symbol d = .live := by
    simp only [hasParts,Tree.is,Bool.or_eq_true,beq_iff_eq] at parts
    rcases parts with (symbol | symbol) | symbol <;> simp only [Tree.isNamed,symbol] <;> exact ⟨trivial,rfl⟩
  exact smaller d (Nat.lt_trans (Tree.sizeOf_lt_of_mem among) (Tree.sizeOf_lt_of_mem member))
    (fits_operand_of_mem (fits member) named.1 among) (Tree.joinable_child (below member) among named.2)

/-- The expression of a joinable tree loses nothing but blanks. -/
theorem readsJoined (live : Bool) (t : Tree) (placed : t.fits .operand)
    (joinable : t.joinable (.ofLive live)) : ReadsJoined live t := by
  have smaller (live : Bool) (u : Tree) (small : sizeOf u < sizeOf t) (placed : u.fits .operand)
      (joinable : u.joinable (.ofLive live)) : ReadsJoined live u := readsJoined live u placed joinable
  obtain ⟨bare,head,decided,_⟩ := Tree.joinable_iff.1 joinable
  obtain ⟨allowed,places⟩ := Tree.fits_iff.1 placed
  cases symbol : t.symbol with
  | token spelling =>
    -- below a token only comments and line continuations are constructs
    have token : t.isNamed = false := by simp [Tree.isNamed,symbol]
    rw [ReadsJoined,exprOf_token token,exprOf_token (by rw [Tree.isNamed_joined,token])]
    unfold assemble
    rw [Tree.kind?_joined,show t.kind? = none by simp [Tree.kind?,symbol],Tree.children_joined]
    refine .group (items_joins fun c member named => ?_)
    have placed := (Tree.fits_iff.1 (places c member)).1
    rw [symbol] at placed
    cases own : c.symbol with
    | token inner => simp [Tree.isNamed,own] at named
    | named k =>
      rw [own] at placed
      exact readsJoined_of_extra own placed
  | named k =>
    have named : t.isNamed := by simp [Tree.isNamed,symbol]
    have ordinary : k.isStructure = false := by
      rw [symbol] at allowed
      simpa [Place.allows,Place.allowsKind] using allowed
    have child {c : Tree} {live : Bool} (member : c ∈ t.children) (joinable : c.joinable (.ofLive live)) :
        ReadsJoined live c :=
      smaller live c (Tree.sizeOf_lt_of_mem member) (fits_operand_of_mem placed named member) joinable
    rw [ReadsJoined,exprOf_named symbol,exprOf_named (by rw [Tree.symbol_joined,symbol])]
    split
    · next lambda =>
      obtain rfl := beq_iff_eq.1 lambda
      rw [Tree.children_joined]
      refine .lambda (parametersOfRole_joins bare fun c member role => ?_)
        (exprOfRole_joins bare fun c member role => ?_).getD
      · have fits : c.fits .parameters := by
          have fits := places c member
          rwa [symbol,role] at fits
        have below := Tree.joinable_child joinable member (by rw [symbol,Use.below,role]; rfl)
        exact parameters_joins fits below fun u small =>
          smaller live u (Nat.lt_trans small (Tree.sizeOf_lt_of_mem member))
      · exact child member (Tree.joinable_deferred joinable member (by rw [symbol,Use.below,role]; rfl))
    split
    · next comprehension =>
      rw [Tree.children_joined]
      refine .comprehension (partsOf_joins (fun c member other => child member ?_)
        fun c member clause => ?_)
      · refine Tree.joinable_deferred joinable member ?_
        rw [symbol]
        cases k <;> cases comprehension <;> simp [Use.below,other]
      · have below := Tree.joinable_child joinable member (by
          rw [symbol]
          cases k <;> cases comprehension <;> simp [Use.below,clause])
        refine ⟨(Tree.joinable_iff.1 below).1,fun d among => ?_⟩
        exact smaller live d (Nat.lt_trans (Tree.sizeOf_lt_of_mem among) (Tree.sizeOf_lt_of_mem member))
          (fits_operand_of_mem (fits_operand_of_mem placed named member) (isNamed_of_is clause) among)
          (Tree.joinable_child below among (by rw [beq_iff_eq.1 clause]; rfl))
    · next other comprehension =>
      have plain : defers k = false := by simp [defers,other,comprehension]
      refine assemble_joins bare head (fun runs => decided (by rw [runs]; rfl)) fun c member => ?_
      exact child member (Tree.joinable_child joinable member (by rw [symbol,below_operand ordinary plain]))
termination_by sizeOf t

end Joinable

end Excerpt.Program
