import Excerpt.Proofs.ExpressionNames
import Excerpt.Proofs.NameRefs
import Excerpt.Proofs.StructuralGate

/-!
Where the names of a program stand. A property that holds of the identifiers of a tree, each with its
line, holds of every name of the program that is read from the tree; what a deletion unbinds are the
identifiers that its targets consist of.
-/
namespace Excerpt.Syntax.Tree

/-- Kinds that hand a deletion on to their parts. -/
def unpacks : Kind → Bool
  | .parenthesizedExpression | .tuple | .list | .patternList | .tuplePattern | .listPattern
  | .expressionList | .asPatternTarget | .listSplatPattern | .dictionarySplatPattern
  | .parenthesizedListSplat | .listSplat => true
  | _ => false

mutual
/-- The identifiers that are unbound when the construct is deleted. -/
def removals : Tree → List Tree
  | .node l cs =>
    match l.symbol with
    | .named .identifier => [.node l cs]
    | .named .dottedName => firstRemovals cs
    | .named k => if unpacks k then removalsAll cs else []
    | .token _ => []
def removalsAll : List Tree → List Tree
  | [] => []
  | t :: ts => (if t.isNamed then removals t else []) ++ removalsAll ts
def firstRemovals : List Tree → List Tree
  | [] => []
  | t :: ts => if t.isNamed then removals t else firstRemovals ts
end

theorem removals_identifier {t : Tree} (name : t.is .identifier) : t.removals = [t] := by
  obtain ⟨l,cs⟩ := t
  have symbol : l.symbol = .named .identifier := by simpa [is] using name
  simp [removals,symbol]

theorem removals_dottedName {t : Tree} (path : t.is .dottedName) :
    t.removals = firstRemovals t.children := by
  obtain ⟨l,cs⟩ := t
  have symbol : l.symbol = .named .dottedName := by simpa [is] using path
  simp [removals,symbol]

theorem removals_of_unpacks {t : Tree} {k : Kind} (kind : t.is k) (unpacked : unpacks k) :
    t.removals = removalsAll t.children := by
  obtain ⟨l,cs⟩ := t
  have symbol : l.symbol = .named k := by simpa [is] using kind
  cases k <;> cases unpacked <;> simp [removals,symbol,unpacks]

/-- The targets of the deletions in a tree. -/
def deleted (root : Tree) : List Tree :=
  (root.preorder.filter (·.is .deleteStatement)).flatMap fun t => removalsAll t.children

theorem mem_preorder_self (t : Tree) : t ∈ t.preorder := by
  rw [preorder_eq]
  exact List.mem_cons_self

theorem mem_preorderAll {u : Tree} {ts : List Tree} :
    u ∈ preorderAll ts ↔ ∃ t ∈ ts, u ∈ t.preorder := by
  induction ts with
  | nil => simp [preorderAll]
  | cons t ts ih => simp [preorderAll,ih]

theorem mem_preorder_of_child {t c u : Tree} (child : c ∈ t.children) (inside : u ∈ c.preorder) :
    u ∈ t.preorder := by
  rw [preorder_eq]
  exact List.mem_cons_of_mem _ (mem_preorderAll.2 ⟨c,child,inside⟩)

theorem preorder_trans {t u v : Tree} (outer : u ∈ t.preorder) (inner : v ∈ u.preorder) :
    v ∈ t.preorder := by
  rw [preorder_eq] at outer
  rcases List.mem_cons.1 outer with rfl | below
  · exact inner
  · obtain ⟨c,child,inside⟩ := mem_preorderAll.1 below
    have := sizeOf_lt_of_mem child
    exact mem_preorder_of_child child (preorder_trans inside inner)
termination_by sizeOf t

mutual
theorem mem_removals {u : Tree} : ∀ {t : Tree}, u ∈ t.removals → u ∈ t.preorder ∧ u.is .identifier
  | .node l cs,gone => by
    rw [preorder]
    unfold removals at gone
    split at gone
    · next named =>
      obtain rfl := List.mem_singleton.1 gone
      exact ⟨List.mem_cons_self,by simp [is,named]⟩
    · exact (mem_firstRemovals gone).imp (List.mem_cons_of_mem _) id
    · split at gone
      · exact (mem_removalsAll gone).imp (List.mem_cons_of_mem _) id
      · cases gone
    · cases gone
theorem mem_removalsAll {u : Tree} :
    ∀ {ts : List Tree}, u ∈ removalsAll ts → u ∈ preorderAll ts ∧ u.is .identifier
  | t :: ts,gone => by
    rw [preorderAll]
    rcases List.mem_append.1 gone with first | later
    · split at first
      · exact (mem_removals first).imp (List.mem_append_left _) id
      · cases first
    · exact (mem_removalsAll later).imp (List.mem_append_right _) id
theorem mem_firstRemovals {u : Tree} :
    ∀ {ts : List Tree}, u ∈ firstRemovals ts → u ∈ preorderAll ts ∧ u.is .identifier
  | t :: ts,gone => by
    rw [preorderAll]
    unfold firstRemovals at gone
    split at gone
    · exact (mem_removals gone).imp (List.mem_append_left _) id
    · exact (mem_firstRemovals gone).imp (List.mem_append_right _) id
end

/-- Whether a name has the property `p` if the node is one, and the targets have the property `q` if
it is a deletion. -/
def Marked (p q : NameRef → Prop) (t : Tree) : Prop :=
  (t.is .identifier → p ⟨t.text,t.line⟩) ∧
    (t.is .deleteStatement → ∀ u ∈ removalsAll t.children, q ⟨u.text,u.line⟩)

/-- Whether all nodes of a tree are marked. -/
def Sited (p q : NameRef → Prop) (t : Tree) : Prop := ∀ u ∈ t.preorder, u.Marked p q

namespace Sited

variable {p q : NameRef → Prop} {t u : Tree}

theorem marked (sited : t.Sited p q) : t.Marked p q := sited t t.mem_preorder_self

theorem child (sited : t.Sited p q) (member : u ∈ t.children) : u.Sited p q :=
  fun v inside => sited v (mem_preorder_of_child member inside)

end Sited

end Excerpt.Syntax.Tree

namespace Excerpt.Program
open Excerpt.Syntax

section Reading

variable {p q : NameRef → Prop}

theorem each_headD {es : List Expr} (each : eachAll p es) : (es.headD .blank).Each p := by
  cases es with
  | nil => trivial
  | cons e es => exact each.1

theorem each_getD {e? : Option Expr} (each : eachOption p e?) : (e?.getD .blank).Each p := by
  cases e? with
  | none => trivial
  | some e => exact each

namespace Parts

variable {ps : Parts} {f : Field}

theorem each_all (parts : ∀ x ∈ ps, x.2.Each p) : eachAll p ps.all := by
  refine eachAll_iff.2 fun e member => ?_
  obtain ⟨x,kept,rfl⟩ := List.mem_map.1 member
  exact parts x (List.mem_filter.1 kept).1

theorem each_items (parts : ∀ x ∈ ps, x.2.Each p) : eachAll p ps.items :=
  eachAll_iff.2 fun e member => eachAll_iff.1 (each_all parts) e (items_subset_all member)

theorem each_itemsBut (parts : ∀ x ∈ ps, x.2.Each p) : eachAll p (ps.itemsBut f) :=
  eachAll_iff.2 fun e member => eachAll_iff.1 (each_all parts) e (itemsBut_subset_all member)

theorem each_role? (parts : ∀ x ∈ ps, x.2.Each p) : eachOption p (ps.role? f) := by
  refine eachOption_iff.2 fun e found => ?_
  obtain ⟨x,member,_,rfl⟩ := mem_role_of_eq_some found
  exact parts x member

theorem each_role (parts : ∀ x ∈ ps, x.2.Each p) : (ps.role f).Each p := each_getD (each_role? parts)

end Parts

theorem is_of_kind? {t : Tree} {k : Kind} (same : t.kind? = some k) : t.is k := by
  unfold Tree.kind? at same
  split at same
  · next named =>
    obtain rfl := Option.some.inj same
    simp [Tree.is,named]
  · cases same

theorem each_assemble {t : Tree} {ps : Parts} (own : t.Marked p q) (parts : ∀ x ∈ ps, x.2.Each p) :
    (assemble t ps).Each p := by
  have items := Parts.each_items parts
  have role (f : Field) := Parts.each_role (f := f) parts
  have role? (f : Field) := Parts.each_role? (f := f) parts
  unfold assemble
  split
  case h_1 same => exact own.1 (is_of_kind? same)
  all_goals try split
  all_goals try simp only [Expr.Each]
  all_goals grind [each_headD,Parts.each_all,Parts.each_itemsBut,eachAll]

mutual
theorem each_exprOf : ∀ {t : Tree}, t.Sited p q → (exprOf t).Each p
  | .node l cs,sited => by
    have below : ∀ c ∈ cs, c.Sited p q := fun c member => sited.child member
    unfold exprOf
    split
    · split
      · exact ⟨each_parametersOfRole below,each_getD (each_exprOfRole below)⟩
      · split
        · exact each_partsOf below
        · exact each_assemble sited.marked (each_exprsOf below)
    · exact each_assemble sited.marked (each_exprsOf below)
theorem each_exprsOf : ∀ {ts : List Tree}, (∀ t ∈ ts, t.Sited p q) → ∀ x ∈ exprsOf ts, x.2.Each p
  | [],_ => by simp [exprsOf]
  | t :: ts,sited => by
    obtain ⟨first,rest⟩ := List.forall_mem_cons.1 sited
    exact List.forall_mem_cons.2 ⟨each_exprOf first,each_exprsOf rest⟩
theorem each_exprOfRole {f : Field} :
    ∀ {ts : List Tree}, (∀ t ∈ ts, t.Sited p q) → eachOption p (exprOfRole f ts)
  | [],_ => trivial
  | t :: ts,sited => by
    obtain ⟨first,rest⟩ := List.forall_mem_cons.1 sited
    unfold exprOfRole
    split
    · exact each_exprOf first
    · exact each_exprOfRole rest
theorem each_exprsOfRole {f : Field} :
    ∀ {ts : List Tree}, (∀ t ∈ ts, t.Sited p q) → eachAll p (exprsOfRole f ts)
  | [],_ => trivial
  | t :: ts,sited => by
    obtain ⟨first,rest⟩ := List.forall_mem_cons.1 sited
    unfold exprsOfRole
    split
    · exact ⟨each_exprOf first,each_exprsOfRole rest⟩
    · exact each_exprsOfRole rest
theorem each_parametersOfRole :
    ∀ {ts : List Tree}, (∀ t ∈ ts, t.Sited p q) → eachParameter p (parametersOfRole ts)
  | [],_ => trivial
  | .node l cs :: ts,sited => by
    obtain ⟨first,rest⟩ := List.forall_mem_cons.1 sited
    unfold parametersOfRole
    split
    · exact each_parametersOf fun c member => first.child member
    · exact each_parametersOfRole rest
theorem each_parametersOf :
    ∀ {ts : List Tree}, (∀ t ∈ ts, t.Sited p q) → eachParameter p (parametersOf ts)
  | [],_ => trivial
  | t :: ts,sited => by
    obtain ⟨first,rest⟩ := List.forall_mem_cons.1 sited
    have later := each_parametersOf rest
    unfold parametersOf
    split
    · exact ⟨each_exprOf first,trivial,trivial,later⟩
    · split
      · exact each_defaultParameter later first
      · split
        · exact each_typedParameter later first
        · exact later
theorem each_defaultParameter {ps : List Parameter} (rest : eachParameter p ps) :
    ∀ {t : Tree}, t.Sited p q → eachParameter p (defaultParameter t :: ps)
  | .node l cs,sited => by
    have parts := each_exprsOf fun c (member : c ∈ cs) => sited.child member
    exact ⟨Parts.each_role? parts,Parts.each_role? parts,Parts.each_role? parts,rest⟩
theorem each_typedParameter {ps : List Parameter} (rest : eachParameter p ps) :
    ∀ {t : Tree}, t.Sited p q → eachParameter p (typedParameter t :: ps)
  | .node l cs,sited => by
    have parts := each_exprsOf fun c (member : c ∈ cs) => sited.child member
    refine ⟨eachOption_iff.2 fun e first => ?_,Parts.each_role? parts,trivial,rest⟩
    exact eachAll_iff.1 (Parts.each_all parts) e (List.mem_of_mem_head? first)
theorem each_partsOf : ∀ {ts : List Tree}, (∀ t ∈ ts, t.Sited p q) → eachPart p (partsOf ts)
  | [],_ => trivial
  | t :: ts,sited => by
    obtain ⟨first,rest⟩ := List.forall_mem_cons.1 sited
    unfold partsOf
    split
    · exact each_clauseOf (each_partsOf rest) first
    · split
      · exact ⟨each_exprOf first,each_partsOf rest⟩
      · exact each_partsOf rest
theorem each_clauseOf {ps : List Part} (rest : eachPart p ps) :
    ∀ {t : Tree}, t.Sited p q → eachPart p (clauseOf t :: ps)
  | .node l cs,sited => by
    have below : ∀ c ∈ cs, c.Sited p q := fun c member => sited.child member
    exact ⟨each_getD (each_exprOfRole below),each_exprsOfRole below,rest⟩
end

/-- The expressions of the children of a node. -/
theorem each_below {t : Tree} (sited : t.Sited p q) : ∀ x ∈ exprsOf t.children, x.2.Each p :=
  each_exprsOf fun _ member => sited.child member

theorem each_decorationsOf {cs : List Tree} (sited : ∀ c ∈ cs, c.Sited p q) :
    ∀ d ∈ decorationsOf cs, eachAll p d.items := by
  intro d member
  obtain ⟨c,kept,rfl⟩ := List.mem_map.1 member
  exact Parts.each_all (each_below (sited c (List.mem_filter.1 kept).1))

theorem each_withItems {cs : List Tree} (sited : ∀ c ∈ cs, c.Sited p q) :
    eachAll p (withItems cs) := by
  refine eachAll_iff.2 fun e member => ?_
  obtain ⟨t,kept,rfl⟩ := List.mem_map.1 member
  obtain ⟨c,among,inside⟩ := List.mem_flatMap.1 (List.mem_filter.1 kept).1
  have item : t.Sited p q := by
    split at inside
    · exact (sited c among).child inside
    · obtain rfl := List.mem_singleton.1 inside
      exact sited t among
  have parts := each_below item
  dsimp only
  cases found : (exprsOf t.children).role? .value with
  | none => exact each_headD (Parts.each_all parts)
  | some v => exact eachOption_iff.1 (Parts.each_role? parts) v found

theorem each_typeAliasOf {cs : List Tree} (sited : ∀ c ∈ cs, c.Sited p q) :
    (typeAliasOf cs).Each p q := by
  refine ⟨eachOption_iff.2 fun e found => ?_,Parts.each_role? (each_exprsOf sited)⟩
  obtain ⟨inner,first,rfl⟩ := Option.map_eq_some_iff.1 found
  obtain ⟨left,outer,first⟩ := Option.bind_eq_some_iff.1 first
  have outer := (List.mem_filter.1 (List.mem_of_mem_head? outer)).1
  have first := Tree.mem_children_of_mem_named (List.mem_of_mem_head? first)
  exact each_exprOf ((sited left outer).child first)

theorem each_definitionOf {symbol : Symbol} {cs : List Tree} {body : List Stmt}
    (sited : ∀ c ∈ cs, c.Sited p q) (each : eachStmt p q body) :
    (definitionOf symbol cs body).Each p q := by
  simp only [definitionOf]
  split
  · refine ⟨?_,each⟩
    cases found : cs.find? (·.field == some .superclasses) with
    | none => trivial
    | some c => exact Parts.each_items (each_below (sited c (List.mem_of_find?_eq_some found)))
  · exact ⟨each_parametersOfRole sited,each_exprOfRole sited,each⟩

theorem each_guardOf {cs : List Tree} (sited : ∀ c ∈ cs, c.Sited p q) : eachAll p (guardOf cs) := by
  refine eachAll_iff.2 fun e member => ?_
  obtain ⟨c,kept,inside⟩ := List.mem_flatMap.1 member
  exact eachAll_iff.1 (Parts.each_items (each_below (sited c (List.mem_filter.1 kept).1))) e inside

theorem each_handlerItems {cs : List Tree} (sited : ∀ c ∈ cs, c.Sited p q) :
    eachAll p (handlerItems cs) :=
  Parts.each_items (each_exprsOf fun c kept => sited c (List.mem_filter.1 kept).1)

mutual
theorem each_patternNames : ∀ {t : Tree}, t.Sited p q → ∀ n ∈ patternNames t, n.Each p
  | .node l cs,sited => by
    have below : ∀ c ∈ cs, c.Sited p q := fun c member => sited.child member
    intro n member
    unfold patternNames at member
    split at member
    · split at member
      · split at member
        · cases member
        · obtain rfl := List.mem_singleton.1 member
          trivial
      · exact each_loadedNames below n member
    · obtain rfl := List.mem_singleton.1 member
      trivial
    · exact each_classPatternNames below n member
    · exact each_keywordPatternNames below n member
    · cases member
    · cases member
    · cases member
    · cases member
    · exact each_patternNamesAll below n member
theorem each_patternNamesAll :
    ∀ {ts : List Tree}, (∀ t ∈ ts, t.Sited p q) → ∀ n ∈ patternNamesAll ts, n.Each p
  | [],_ => by simp [patternNamesAll]
  | t :: ts,sited => by
    obtain ⟨first,rest⟩ := List.forall_mem_cons.1 sited
    refine List.forall_mem_append.2 ⟨?_,each_patternNamesAll rest⟩
    split
    · exact each_patternNames first
    · simp
theorem each_classPatternNames :
    ∀ {ts : List Tree}, (∀ t ∈ ts, t.Sited p q) → ∀ n ∈ classPatternNames ts, n.Each p
  | [],_ => by simp [classPatternNames]
  | t :: ts,sited => by
    obtain ⟨first,rest⟩ := List.forall_mem_cons.1 sited
    unfold classPatternNames
    split
    · exact List.forall_mem_append.2 ⟨each_loadedName first,each_patternNamesAll rest⟩
    · exact each_classPatternNames rest
theorem each_keywordPatternNames :
    ∀ {ts : List Tree}, (∀ t ∈ ts, t.Sited p q) → ∀ n ∈ keywordPatternNames ts, n.Each p
  | [],_ => by simp [keywordPatternNames]
  | t :: ts,sited => by
    obtain ⟨_,rest⟩ := List.forall_mem_cons.1 sited
    unfold keywordPatternNames
    split
    · exact each_patternNamesAll rest
    · exact each_keywordPatternNames rest
theorem each_loadedName : ∀ {t : Tree}, t.Sited p q → ∀ n ∈ loadedName t, n.Each p
  | .node l cs,sited => by
    intro n member
    unfold loadedName at member
    split at member
    · next named =>
      obtain rfl := List.mem_singleton.1 member
      exact sited.marked.1 (by simp [Tree.is,named])
    · exact each_loadedNames (fun c inside => sited.child inside) n member
    · cases member
theorem each_loadedNames :
    ∀ {ts : List Tree}, (∀ t ∈ ts, t.Sited p q) → ∀ n ∈ loadedNames ts, n.Each p
  | [],_ => by simp [loadedNames]
  | t :: ts,sited => by
    obtain ⟨first,rest⟩ := List.forall_mem_cons.1 sited
    unfold loadedNames
    split
    · exact each_loadedName first
    · exact each_loadedNames rest
end

theorem each_casePatterns {cs : List Tree} (sited : ∀ c ∈ cs, c.Sited p q) :
    ∀ n ∈ casePatterns cs, n.Each p := by
  intro n member
  obtain ⟨c,kept,inside⟩ := List.mem_flatMap.1 member
  exact each_patternNames (sited c (List.mem_filter.1 kept).1) n inside

theorem removed_assemble {t : Tree} {ps : Parts} (own : t.is .identifier → q ⟨t.text,t.line⟩)
    (first : t.is .dottedName → (ps.all.headD .blank).EachRemoved q)
    (items : ∀ k, t.is k → Tree.unpacks k → eachRemoved q ps.items) :
    (assemble t ps).EachRemoved q := by
  have unpacked {k : Kind} (same : t.kind? = some k) (unpacked : Tree.unpacks k) :=
    items k (is_of_kind? same) unpacked
  unfold assemble
  split
  case h_1 same => exact own (is_of_kind? same)
  -- Only the kinds that unpack hand the deletion on, and a path to its first part.
  all_goals first
    | trivial
    | exact unpacked ‹_› rfl
    | exact fun _ => unpacked ‹_› rfl
    | exact first (is_of_kind? ‹_›)
    | exact fun target => nomatch target
    | split <;> trivial

mutual
/-- What a deletion of an expression unbinds is told by the tree. -/
theorem removed_exprOf : ∀ {t : Tree}, (∀ u ∈ t.removals, q ⟨u.text,u.line⟩) → (exprOf t).EachRemoved q
  | .node l cs,gone => by
    have whole : (assemble (.node l cs) (exprsOf cs)).EachRemoved q := by
      refine removed_assemble (fun name => ?_) (fun path => ?_) fun k kind unpacked => ?_
      · exact gone _ (by simp [Tree.removals_identifier name])
      · exact removed_first fun u inside => gone u (by rwa [Tree.removals_dottedName path])
      · exact removed_items fun u inside => gone u (by rwa [Tree.removals_of_unpacks kind unpacked])
    unfold exprOf
    split
    · split
      · trivial
      · split
        · trivial
        · exact whole
    · exact whole
theorem removed_items : ∀ {ts : List Tree}, (∀ u ∈ Tree.removalsAll ts, q ⟨u.text,u.line⟩) →
    eachRemoved q (exprsOf ts).items
  | [],_ => trivial
  | t :: ts,gone => by
    obtain ⟨first,rest⟩ := List.forall_mem_append.1 gone
    rw [exprsOf,Parts.items,List.filter_cons]
    split
    · next item =>
      rw [if_pos (Bool.and_eq_true_iff.1 item).1] at first
      exact ⟨removed_exprOf first,removed_items rest⟩
    · exact removed_items rest
theorem removed_first : ∀ {ts : List Tree}, (∀ u ∈ Tree.firstRemovals ts, q ⟨u.text,u.line⟩) →
    ((exprsOf ts).all.headD .blank).EachRemoved q
  | [],_ => trivial
  | t :: ts,gone => by
    unfold Tree.firstRemovals at gone
    rw [exprsOf,Parts.all,List.filter_cons]
    split
    · next named =>
      rw [if_pos named] at gone
      exact removed_exprOf gone
    · next token =>
      rw [if_neg token] at gone
      exact removed_first gone
end

theorem eachStmt_append {ss rs : List Stmt} (first : eachStmt p q ss) (second : eachStmt p q rs) :
    eachStmt p q (ss ++ rs) := by
  induction ss with
  | nil => exact second
  | cons s ss ih => exact ⟨first.1,ih first.2⟩

theorem eachCase_append {cs ds : List Case} (first : eachCase p q cs) (second : eachCase p q ds) :
    eachCase p q (cs ++ ds) := by
  induction cs with
  | nil => exact second
  | cons c cs ih =>
    obtain ⟨patterns,condition,body⟩ := c
    obtain ⟨loaded,guarded,inside,rest⟩ := first
    exact ⟨loaded,guarded,inside,ih rest⟩

mutual
/-- The names of a statement stand in its tree, and so do the targets of its deletions. -/
theorem each_stmtOf : ∀ {t : Tree}, t.Sited p q → (stmtOf t).Each p q
  | .node l cs,sited => by
    have below : ∀ c ∈ cs, c.Sited p q := fun c member => sited.child member
    have items := Parts.each_items (each_exprsOf below)
    have condition (f : Field) := each_exprOfRole (f := f) below
    have body (f : Field) := each_bodyOfRole (f := f) below
    have removed (deletion : l.symbol = .named .deleteStatement) :=
      removed_items (sited.marked.2 (by simp [Tree.is,deletion]))
    unfold stmtOf
    split
    -- One alternative for each shape of statement.
    all_goals first
      | trivial
      | exact items
      | exact ⟨items,removed ‹_›⟩
      | exact ⟨List.forall_mem_nil _,each_definitionOf below (body _)⟩
      | exact ⟨each_decorationsOf below,each_decorated below⟩
      | exact ⟨condition _,body _,each_branchesOf below⟩
      | exact ⟨each_getD (condition _),each_getD (condition _),body _,each_otherwiseOf below⟩
      | exact ⟨each_getD (condition _),body _,each_otherwiseOf below⟩
      | exact ⟨body _,each_handlersOf below,each_otherwiseOf below,each_finalOf below⟩
      | exact ⟨each_withItems below,body _⟩
      | exact ⟨each_exprsOfRole below,each_casesIn below⟩
      | exact each_typeAliasOf below
theorem each_bodyOf : ∀ {ts : List Tree}, (∀ t ∈ ts, t.Sited p q) → eachStmt p q (bodyOf ts)
  | [],_ => trivial
  | t :: ts,sited => by
    obtain ⟨first,rest⟩ := List.forall_mem_cons.1 sited
    unfold bodyOf
    split
    · exact ⟨each_stmtOf first,each_bodyOf rest⟩
    · exact each_bodyOf rest
theorem each_bodyOfRole {f : Field} :
    ∀ {ts : List Tree}, (∀ t ∈ ts, t.Sited p q) → eachStmt p q (bodyOfRole f ts)
  | [],_ => trivial
  | .node l cs :: ts,sited => by
    obtain ⟨first,rest⟩ := List.forall_mem_cons.1 sited
    unfold bodyOfRole
    split
    · exact each_bodyOf fun c member => first.child member
    · exact each_bodyOfRole rest
theorem each_bodyOfBlocks :
    ∀ {ts : List Tree}, (∀ t ∈ ts, t.Sited p q) → eachStmt p q (bodyOfBlocks ts)
  | [],_ => trivial
  | .node l cs :: ts,sited => by
    obtain ⟨first,rest⟩ := List.forall_mem_cons.1 sited
    unfold bodyOfBlocks
    split
    · exact eachStmt_append (each_bodyOf fun c member => first.child member) (each_bodyOfBlocks rest)
    · exact each_bodyOfBlocks rest
theorem each_decorated : ∀ {ts : List Tree}, (∀ t ∈ ts, t.Sited p q) → (decorated ts).Each p q
  | [],_ => ⟨trivial,trivial⟩
  | .node l cs :: ts,sited => by
    obtain ⟨first,rest⟩ := List.forall_mem_cons.1 sited
    have below : ∀ c ∈ cs, c.Sited p q := fun c member => first.child member
    unfold decorated
    split
    · exact each_definitionOf below (each_bodyOfRole below)
    · exact each_decorated rest
theorem each_branchesOf :
    ∀ {ts : List Tree}, (∀ t ∈ ts, t.Sited p q) → eachBranch p q (branchesOf ts)
  | [],_ => trivial
  | .node l cs :: ts,sited => by
    obtain ⟨first,rest⟩ := List.forall_mem_cons.1 sited
    have below : ∀ c ∈ cs, c.Sited p q := fun c member => first.child member
    unfold branchesOf
    split
    · exact ⟨each_exprOfRole below,each_bodyOfRole below,each_branchesOf rest⟩
    · split
      · exact ⟨trivial,each_bodyOfRole below,each_branchesOf rest⟩
      · exact each_branchesOf rest
theorem each_otherwiseOf :
    ∀ {ts : List Tree}, (∀ t ∈ ts, t.Sited p q) → eachStmt p q (otherwiseOf ts)
  | [],_ => trivial
  | .node l cs :: ts,sited => by
    obtain ⟨first,rest⟩ := List.forall_mem_cons.1 sited
    unfold otherwiseOf
    split
    · exact each_bodyOfRole fun c member => first.child member
    · exact each_otherwiseOf rest
theorem each_handlersOf :
    ∀ {ts : List Tree}, (∀ t ∈ ts, t.Sited p q) → eachHandler p q (handlersOf ts)
  | [],_ => trivial
  | .node l cs :: ts,sited => by
    obtain ⟨first,rest⟩ := List.forall_mem_cons.1 sited
    have below : ∀ c ∈ cs, c.Sited p q := fun c member => first.child member
    unfold handlersOf
    split
    · exact ⟨each_handlerItems below,each_bodyOfBlocks below,each_handlersOf rest⟩
    · exact each_handlersOf rest
theorem each_finalOf : ∀ {ts : List Tree}, (∀ t ∈ ts, t.Sited p q) → eachStmt p q (finalOf ts)
  | [],_ => trivial
  | .node l cs :: ts,sited => by
    obtain ⟨first,rest⟩ := List.forall_mem_cons.1 sited
    unfold finalOf
    split
    · exact each_bodyOfBlocks fun c member => first.child member
    · exact each_finalOf rest
theorem each_casesIn : ∀ {ts : List Tree}, (∀ t ∈ ts, t.Sited p q) → eachCase p q (casesIn ts)
  | [],_ => trivial
  | .node l cs :: ts,sited => by
    obtain ⟨first,rest⟩ := List.forall_mem_cons.1 sited
    have below : ∀ c ∈ cs, c.Sited p q := fun c member => first.child member
    unfold casesIn
    split
    · exact ⟨each_casePatterns below,each_guardOf below,each_bodyOfBlocks below,each_casesIn rest⟩
    · split
      · exact eachCase_append (each_casesOf below) (each_casesIn rest)
      · exact each_casesIn rest
theorem each_casesOf : ∀ {ts : List Tree}, (∀ t ∈ ts, t.Sited p q) → eachCase p q (casesOf ts)
  | [],_ => trivial
  | .node l cs :: ts,sited => by
    obtain ⟨first,rest⟩ := List.forall_mem_cons.1 sited
    have below : ∀ c ∈ cs, c.Sited p q := fun c member => first.child member
    unfold casesOf
    split
    · exact ⟨each_casePatterns below,each_guardOf below,each_bodyOfBlocks below,each_casesOf rest⟩
    · exact each_casesOf rest
end

end Reading

end Excerpt.Program
