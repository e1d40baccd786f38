import Excerpt.Proofs.DefinitionForest

/-!
The units of a tree. Every class and function that is met on the way down, through nodes that define
nothing and through the bodies of definitions, has one unit, in the order of the source.
-/
namespace Excerpt
open Excerpt.Text Excerpt.Syntax

/-- The ways down from a node: to the node itself, through a node that defines nothing to each construct
in it, and through a definition to each construct in its body. -/
inductive Leads : Option Tree → Tree → Site → Prop
  | here {outer : Option Tree} {t : Tree} : Leads outer t ⟨[],outer,t⟩
  | part {outer : Option Tree} {t c : Tree} {i : Nat} {s : Site} (plain : t.isDefinition = false)
      (child : t.children[i]? = some c) (named : c.isNamed) (rest : Leads (some t) c s) :
      Leads outer t (s.under [i])
  | body {outer : Option Tree} {t b c : Tree} {i j : Nat} {s : Site} (defined : t.isDefinition)
      (first : t.children.findIdx? (·.field == some .body) = some i) (found : t.children[i]? = some b)
      (child : b.children[j]? = some c) (named : c.isNamed) (rest : Leads none c s) :
      Leads outer t (s.under [i,j])

/-- The nodes that are met on the ways down from the constructs directly below the root. -/
def Meets (root : Tree) (s : Site) : Prop :=
  ∃ i c r, root.children[i]? = some c ∧ c.isNamed ∧ Leads none c r ∧ s = r.under [i]

mutual
/-- All nodes that are met from a node on, in the order of the source. -/
def met (outer : Option Tree) : Tree → List Site
  | .node l cs => ⟨[],outer,.node l cs⟩ ::
      if (Syntax.Tree.node l cs).isDefinition then metInBody 0 cs
      else metAmong (some (.node l cs)) 0 cs
def metAmong (outer : Option Tree) (i : Nat) : List Tree → List Site
  | [] => []
  | t :: ts => (if t.isNamed then (met outer t).map (Site.under [i]) else []) ++
      metAmong outer (i + 1) ts
/-- The nodes that are met below the first child that is a body. -/
def metInBody (i : Nat) : List Tree → List Site
  | [] => []
  | .node l cs :: ts =>
    if l.field == some .body then (metAmong none 0 cs).map (Site.under [i])
    else metInBody (i + 1) ts
end

theorem met_eq (outer : Option Tree) (t : Tree) : met outer t = ⟨[],outer,t⟩ ::
    if t.isDefinition then metInBody 0 t.children else metAmong (some t) 0 t.children := by
  cases t
  rw [met]
  rfl

section Members

variable {outer : Option Tree} {s : Site}

theorem mem_metAmong {ts : List Tree} {k : Nat} : s ∈ metAmong outer k ts ↔
    ∃ i c r, ts[i]? = some c ∧ c.isNamed ∧ r ∈ met outer c ∧ s = r.under [k + i] := by
  induction ts generalizing k with
  | nil => simp [metAmong]
  | cons t ts ih =>
    rw [metAmong,List.mem_append,ih]
    constructor
    · rintro (own | ⟨i,c,r,child,named,member,rfl⟩)
      · split at own
        · next named =>
          obtain ⟨r,member,rfl⟩ := List.mem_map.1 own
          exact ⟨0,t,r,rfl,named,member,rfl⟩
        · cases own
      · exact ⟨i + 1,c,r,child,named,member,by rw [Nat.add_right_comm,Nat.add_assoc]⟩
    · rintro ⟨i,c,r,child,named,member,rfl⟩
      cases i with
      | zero =>
        cases child
        rw [if_pos named]
        exact .inl (List.mem_map_of_mem member)
      | succ i =>
        exact .inr ⟨i,c,r,child,named,member,by rw [Nat.add_right_comm,Nat.add_assoc]⟩

theorem mem_metInBody {cs : List Tree} {k : Nat} : s ∈ metInBody k cs ↔
    ∃ i b r, cs.findIdx? (·.field == some .body) = some i ∧ cs[i]? = some b ∧
      r ∈ metAmong none 0 b.children ∧ s = r.under [k + i] := by
  induction cs generalizing k with
  | nil => simp [metInBody]
  | cons c cs ih =>
    obtain ⟨l,ds⟩ := c
    rw [metInBody,List.findIdx?_cons]
    by_cases role : l.field == some .body
    · simp only [role,if_true,Syntax.Tree.field_node,List.mem_map]
      constructor
      · rintro ⟨r,member,rfl⟩
        exact ⟨0,_,r,rfl,rfl,member,rfl⟩
      · rintro ⟨i,b,r,first,found,member,rfl⟩
        cases first
        cases found
        exact ⟨r,member,rfl⟩
    · simp only [role,if_false,Syntax.Tree.field_node,ih,Bool.false_eq_true]
      constructor
      · rintro ⟨i,b,r,first,found,member,rfl⟩
        exact ⟨i + 1,b,r,by rw [first]; rfl,found,member,by rw [Nat.add_right_comm,Nat.add_assoc]⟩
      · rintro ⟨i,b,r,first,found,member,rfl⟩
        obtain ⟨j,later,rfl⟩ := Option.map_eq_some_iff.1 first
        exact ⟨j,b,r,later,found,member,by rw [Nat.add_right_comm,Nat.add_assoc]⟩

theorem mem_met {outer : Option Tree} {t : Tree} {s : Site} : s ∈ met outer t ↔ Leads outer t s := by
  have below {o : Option Tree} {c : Tree} {r : Site} (smaller : sizeOf c < sizeOf t) :
      r ∈ met o c ↔ Leads o c r := mem_met
  rw [met_eq,List.mem_cons]
  constructor
  · rintro (rfl | lower)
    · exact .here
    · split at lower
      · next defined =>
        obtain ⟨i,b,r,first,found,member,rfl⟩ := mem_metInBody.1 lower
        obtain ⟨j,c,q,child,named,reached,rfl⟩ := mem_metAmong.1 member
        have smaller := Nat.lt_trans (Tree.sizeOf_lt_of_mem (List.mem_of_getElem? child))
          (Tree.sizeOf_lt_of_mem (List.mem_of_getElem? found))
        rw [Site.under_under,Nat.zero_add,Nat.zero_add]
        exact .body defined first found child named ((below smaller).1 reached)
      · next plain =>
        obtain ⟨i,c,r,child,named,member,rfl⟩ := mem_metAmong.1 lower
        rw [Nat.zero_add]
        exact .part (by simpa using plain) child named
          ((below (Tree.sizeOf_lt_of_mem (List.mem_of_getElem? child))).1 member)
  · intro leads
    cases leads with
    | here => exact .inl rfl
    | part plain child named rest =>
      have member := (below (Tree.sizeOf_lt_of_mem (List.mem_of_getElem? child))).2 rest
      rw [plain]
      exact .inr (mem_metAmong.2 ⟨_,_,_,child,named,member,by rw [Nat.zero_add]⟩)
    | @body _ _ b c i j r defined first found child named rest =>
      have smaller := Nat.lt_trans (Tree.sizeOf_lt_of_mem (List.mem_of_getElem? child))
        (Tree.sizeOf_lt_of_mem (List.mem_of_getElem? found))
      have member : r.under [j] ∈ metAmong none 0 b.children :=
        mem_metAmong.2 ⟨j,c,r,child,named,(below smaller).2 rest,by rw [Nat.zero_add]⟩
      rw [defined]
      refine .inr (mem_metInBody.2 ⟨i,b,_,first,found,member,?_⟩)
      rw [Site.under_under,Nat.zero_add]
      rfl
termination_by sizeOf t

end Members

section Order

open Site

/-- Nodes below a later child come later. -/
theorem inOrder_metAmong {outer : Option Tree} {ts : List Tree} {k : Nat}
    (each : ∀ c ∈ ts, InOrder (met outer c)) : InOrder (metAmong outer k ts) := by
  induction ts generalizing k with
  | nil => exact .nil
  | cons t ts ih =>
    rw [metAmong]
    refine List.pairwise_append.2 ⟨?_,ih fun c child => each c (.tail t child),?_⟩
    · split
      · refine List.pairwise_map.2 ((each t List.mem_cons_self).imp fun before => ?_)
        exact List.cons_lt_cons_iff.2 (.inr ⟨rfl,before⟩)
      · exact .nil
    · intro a first b second
      split at first
      · obtain ⟨a,-,rfl⟩ := List.mem_map.1 first
        obtain ⟨i,c,b,-,-,-,rfl⟩ := mem_metAmong.1 second
        exact List.cons_lt_cons_iff.2 (.inl (by omega))
      · cases first

theorem inOrder_metInBody {cs : List Tree} {k : Nat}
    (each : ∀ b ∈ cs, InOrder (metAmong none 0 b.children)) : InOrder (metInBody k cs) := by
  induction cs generalizing k with
  | nil => exact .nil
  | cons b cs ih =>
    obtain ⟨l,ds⟩ := b
    rw [metInBody]
    split
    · refine List.pairwise_map.2 ((each _ List.mem_cons_self).imp fun before => ?_)
      exact List.cons_lt_cons_iff.2 (.inr ⟨rfl,before⟩)
    · exact ih fun b child => each b (.tail _ child)

theorem inOrder_met {outer : Option Tree} {t : Tree} : InOrder (met outer t) := by
  have below {c : Tree} (o : Option Tree) (smaller : sizeOf c < sizeOf t) : InOrder (met o c) :=
    inOrder_met
  rw [met_eq]
  refine List.pairwise_cons.2 ⟨fun s lower => ?_,?_⟩
  · split at lower
    · obtain ⟨i,b,r,-,-,-,rfl⟩ := mem_metInBody.1 lower
      exact List.nil_lt_cons _ _
    · obtain ⟨i,c,r,-,-,-,rfl⟩ := mem_metAmong.1 lower
      exact List.nil_lt_cons _ _
  · split
    · refine inOrder_metInBody fun b child => inOrder_metAmong fun c inside => below none ?_
      exact Nat.lt_trans (Tree.sizeOf_lt_of_mem inside) (Tree.sizeOf_lt_of_mem child)
    · exact inOrder_metAmong fun c child => below _ (Tree.sizeOf_lt_of_mem child)
termination_by sizeOf t

end Order

section Units

open Site

/-- The units of the definitions among nodes that are met, of which the outermost have the depth
`base`. -/
def unitsAmong (base : Nat) (met : List Site) : List ProgramUnit :=
  let sites := met.filter (·.node.isDefinition)
  sites.map (Site.unit base sites)

variable {d k : Nat} {outer : Option Tree}

theorem unitsAmong_under (front : List Nat) (met : List Site) :
    unitsAmong d (met.map (Site.under front)) = unitsAmong d met := by
  have same : (met.map (Site.under front)).filter (·.node.isDefinition) =
      (met.filter (·.node.isDefinition)).map (Site.under front) := by
    rw [List.filter_map]
    rfl
  rw [unitsAmong,same]
  exact map_unit_under

theorem unitsAmong_append {met others : List Site}
    (apart : ∀ s ∈ met, ∀ r ∈ others, ¬s.Encloses r ∧ ¬r.Encloses s) :
    unitsAmong d (met ++ others) = unitsAmong d met ++ unitsAmong d others := by
  rw [unitsAmong,List.filter_append]
  exact map_unit_append fun s first r second =>
    apart s (List.mem_of_mem_filter first) r (List.mem_of_mem_filter second)

theorem unitsInAll_eq {ts : List Tree} (each : ∀ c ∈ ts, unitsIn d c = unitsAmong d (met outer c)) :
    unitsInAll d ts = unitsAmong d (metAmong outer k ts) := by
  induction ts generalizing k with
  | nil => rfl
  | cons t ts ih =>
    rw [unitsInAll,metAmong,unitsAmong_append,ih fun c child => each c (.tail t child)]
    · congr 1
      split
      · rw [unitsAmong_under,each t List.mem_cons_self]
      · rfl
    · intro s first r second
      split at first
      · obtain ⟨s,-,rfl⟩ := List.mem_map.1 first
        obtain ⟨i,c,r,-,-,-,rfl⟩ := mem_metAmong.1 second
        exact ⟨not_encloses_of_heads rfl rfl (by omega),not_encloses_of_heads rfl rfl (by omega)⟩
      · cases first

theorem unitsInBody_eq {cs : List Tree}
    (each : ∀ b ∈ cs, unitsInAll d b.children = unitsAmong d (metAmong none 0 b.children)) :
    unitsInBody d cs = unitsAmong d (metInBody k cs) := by
  induction cs generalizing k with
  | nil => rfl
  | cons b cs ih =>
    obtain ⟨l,ds⟩ := b
    rw [unitsInBody,metInBody]
    split
    · rw [unitsAmong_under]
      exact each _ List.mem_cons_self
    · exact ih fun b child => each b (.tail _ child)

/-- A definition has its own unit, and those of its body are one deeper. -/
theorem unitsAmong_definition {t : Tree} (defined : t.isDefinition)
    (body : unitsInBody (d + 1) t.children = unitsAmong (d + 1) (metInBody 0 t.children)) :
    unitsAmong d (met outer t) =
      programUnit d ((outer.map ownDecorators).getD []) t (unitsInBody (d + 1) t.children) ::
        unitsInBody (d + 1) t.children := by
  have first (lower : List Site) : (⟨[],outer,t⟩ :: lower).filter (·.node.isDefinition) =
      ⟨[],outer,t⟩ :: lower.filter (·.node.isDefinition) := by simp [defined]
  rw [met_eq,if_pos defined,unitsAmong,first,body]
  refine map_unit_cons fun r member => ?_
  obtain ⟨i,b,q,-,-,-,rfl⟩ := mem_metInBody.1 (List.mem_of_mem_filter member)
  exact ⟨List.nil_prefix,by simp⟩

theorem node_mem_preorder {t : Tree} {s : Site} (leads : Leads outer t s) : s.node ∈ t.preorder := by
  induction leads with
  | here => exact Tree.mem_preorder_self _
  | part plain child named rest ih =>
    exact Tree.mem_preorder_of_child (List.mem_of_getElem? child) ih
  | body defined first found child named rest ih =>
    exact Tree.mem_preorder_of_child (List.mem_of_getElem? found)
      (Tree.mem_preorder_of_child (List.mem_of_getElem? child) ih)

/-- Among trees that define nothing no definition is met. -/
theorem unitsAmong_plain {ts : List Tree} (plain : ∀ c ∈ ts, c.Plain) :
    unitsAmong d (metAmong outer k ts) = [] := by
  have none : (metAmong outer k ts).filter (·.node.isDefinition) = [] := by
    refine List.filter_eq_nil_iff.2 fun s member => ?_
    obtain ⟨i,c,r,child,-,inside,rfl⟩ := mem_metAmong.1 member
    have within := node_mem_preorder (mem_met.1 inside)
    simpa using (plain c (List.mem_of_getElem? child) r.node within).1
  rw [unitsAmong,none]
  rfl

theorem metAmong_append (ts : List Tree) (t : Tree) : metAmong outer k (ts ++ [t]) =
    metAmong outer k ts ++ if t.isNamed then (met outer t).map (Site.under [k + ts.length]) else [] := by
  induction ts generalizing k with
  | nil => simp [metAmong]
  | cons c ts ih => simp [metAmong,ih,Nat.add_comm 1,Nat.add_assoc]

theorem isNamed_of_isDefinition {t : Tree} (defined : t.isDefinition) : t.isNamed := by
  rcases Bool.or_eq_true _ _ ▸ defined with isClass | isFunction
  · rw [Tree.isNamed,beq_iff_eq.1 isClass]
  · rw [Tree.isNamed,beq_iff_eq.1 isFunction]

theorem unitsIn_definition {t : Tree} (defined : t.isDefinition) : unitsIn d t =
    programUnit d [] t (unitsInBody (d + 1) t.children) :: unitsInBody (d + 1) t.children := by
  obtain ⟨l,cs⟩ := t
  rcases Bool.or_eq_true _ _ ▸ defined with isClass | isFunction
  · have symbol : l.symbol = .named .classDefinition := beq_iff_eq.1 isClass
    rw [unitsIn,symbol]
    rfl
  · have symbol : l.symbol = .named .functionDefinition := beq_iff_eq.1 isFunction
    rw [unitsIn,symbol]
    rfl

theorem unitsIn_decorated {t x : Tree} {front : List Tree} (decorated : t.is .decoratedDefinition)
    (children : t.children = front ++ [x]) (role : x.field = some .definition)
    (other : ∀ c ∈ front, c.field = none) : unitsIn d t =
      programUnit d (ownDecorators t) x (unitsInBody (d + 1) x.children) ::
        unitsInBody (d + 1) x.children := by
  have found : t.children.find? (·.field == some .definition) = some x := by
    rw [children,List.find?_append,List.find?_eq_none.2 fun c member => by simp [other c member]]
    simp [role]
  obtain ⟨l,cs⟩ := t
  have symbol : l.symbol = .named .decoratedDefinition := beq_iff_eq.1 decorated
  rw [unitsIn,symbol,ownDecorators,if_pos decorated]
  exact unitsInDefinition_of_find found

theorem unitsIn_other {t : Tree} (plain : t.isDefinition = false)
    (undecorated : t.is .decoratedDefinition = false) : unitsIn d t = unitsInAll d t.children := by
  obtain ⟨l,cs⟩ := t
  simp only [Tree.isDefinition,Tree.is,Tree.symbol_node,Bool.or_eq_false_iff,beq_eq_false_iff_ne]
    at plain undecorated
  rw [unitsIn]
  split
  · next isClass => exact absurd isClass plain.1
  · next isFunction => exact absurd isFunction plain.2
  · next decorated => exact absurd decorated undecorated
  · rfl

/-- The units at and below a node are those of the definitions that are met there. -/
theorem unitsIn_eq {outer : Option Tree} {t : Tree} (well : t.WellDecorated)
    (bare : (outer.map ownDecorators).getD [] = []) (d : Nat) :
    unitsIn d t = unitsAmong d (met outer t) := by
  obtain ⟨shape,inner⟩ := Tree.wellDecorated_iff.1 well
  have body {b : Tree} (smaller : sizeOf b < sizeOf t) (wellBody : b.WellDecorated) :
      unitsInAll (d + 1) b.children = unitsAmong (d + 1) (metAmong none 0 b.children) :=
    unitsInAll_eq fun c child =>
      have := Nat.lt_trans (Tree.sizeOf_lt_of_mem child) smaller
      unitsIn_eq ((Tree.wellDecorated_iff.1 wellBody).2 c child) rfl (d + 1)
  cases defined : t.isDefinition with
  | true =>
    rw [unitsAmong_definition defined,bare,unitsIn_definition defined]
    exact unitsInBody_eq fun b child => body (Tree.sizeOf_lt_of_mem child) (inner b child)
  | false =>
    have skip : unitsAmong d (met outer t) = unitsAmong d (metAmong (some t) 0 t.children) := by
      simp [met_eq,defined,unitsAmong]
    rw [skip]
    cases decorated : t.is .decoratedDefinition with
    | false =>
      have own : ownDecorators t = [] := by rw [ownDecorators,decorated,if_neg Bool.false_ne_true]
      rw [unitsIn_other defined decorated]
      exact unitsInAll_eq fun c child =>
        have := Tree.sizeOf_lt_of_mem child
        @unitsIn_eq (some t) c (inner c child) own d
    | true =>
      -- The decorators define nothing, and behind them stands the one definition.
      obtain ⟨front,x,children,role,isDef,plain⟩ := shape decorated
      have child : x ∈ t.children := by simp [children]
      have smaller := Tree.sizeOf_lt_of_mem child
      have wellInside := (Tree.wellDecorated_iff.1 (inner x child)).2
      have inside : unitsInBody (d + 1) x.children =
          unitsAmong (d + 1) (metInBody 0 x.children) := unitsInBody_eq fun b part =>
        body (Nat.lt_trans (Tree.sizeOf_lt_of_mem part) smaller) (wellInside b part)
      rw [unitsIn_decorated decorated children role fun c member => (plain c member).1,children,
        metAmong_append,if_pos (isNamed_of_isDefinition isDef),unitsAmong_append,unitsAmong_under,
        unitsAmong_plain fun c member => (plain c member).2,unitsAmong_definition isDef inside]
      · rfl
      · intro s first r second
        obtain ⟨i,c,s,before,-,-,rfl⟩ := mem_metAmong.1 first
        obtain ⟨r,-,rfl⟩ := List.mem_map.1 second
        have := (List.getElem?_eq_some_iff.1 before).1
        exact ⟨not_encloses_of_heads rfl rfl (by omega),not_encloses_of_heads rfl rfl (by omega)⟩
termination_by sizeOf t

end Units

/-- Whether a node is met on the ways down from the body of a definition. -/
def Site.InBody (a b : Site) : Prop :=
  ∃ i body r, a.node.children.findIdx? (·.field == some .body) = some i ∧
    a.node.children[i]? = some body ∧ Meets body r ∧ b = r.under (a.path ++ [i])

/-- Behind a definition all ways lead through its body. -/
theorem Leads.inBody {outer : Option Tree} {t : Tree} {a b : Site} (first : Leads outer t a)
    (second : Leads outer t b) (defined : a.node.isDefinition) (inside : a.Encloses b) : a.InBody b := by
  induction first generalizing b with
  | here =>
    cases second with
    | here => exact absurd rfl inside.2
    | part plain => exact absurd defined (by simp [plain])
    | @body _ _ part c i j r _ found child inner named rest =>
      exact ⟨i,part,r.under [j],found,child,⟨j,c,r,inner,named,rest,rfl⟩,by simp⟩
  | @part _ _ c i a plain child named rest ih =>
    cases second with
    | here => exact absurd (List.prefix_nil.1 inside.1) (by simp)
    | @part _ _ c' i' b _ child' named' rest' =>
      obtain rfl : i = i' := (List.cons_prefix_cons.1 inside.1).1
      obtain rfl : c = c' := Option.some.inj (child.symm.trans child')
      obtain ⟨k,body,r,found,part,meets,rfl⟩ := ih rest' defined (Site.encloses_under.1 inside)
      exact ⟨k,body,r,found,part,meets,by simp⟩
    | body defined' => exact absurd defined' (by simp [plain])
  | @body _ _ part c i j a defined' found child inner named rest ih =>
    cases second with
    | here => exact absurd (List.prefix_nil.1 inside.1) (by simp)
    | part plain => exact absurd defined' (by simp [plain])
    | @body _ _ part' c' i' j' b _ found' child' inner' named' rest' =>
      obtain rfl : i = i' := Option.some.inj (found.symm.trans found')
      obtain rfl : part = part' := Option.some.inj (child.symm.trans child')
      obtain rfl : j = j' := (List.cons_prefix_cons.1 (List.cons_prefix_cons.1 inside.1).2).1
      obtain rfl : c = c' := Option.some.inj (inner.symm.trans inner')
      obtain ⟨k,body,r,found,part,meets,rfl⟩ := ih rest' defined (Site.encloses_under.1 inside)
      exact ⟨k,body,r,found,part,meets,by simp⟩

theorem Meets.inBody {root : Tree} {a b : Site} (first : Meets root a) (second : Meets root b)
    (defined : a.node.isDefinition) (inside : a.Encloses b) : a.InBody b := by
  obtain ⟨i,c,a,child,-,leads,rfl⟩ := first
  obtain ⟨i',c',b,child',-,leads',rfl⟩ := second
  obtain rfl : i = i' := (List.cons_prefix_cons.1 inside.1).1
  obtain rfl : c = c' := Option.some.inj (child.symm.trans child')
  obtain ⟨k,body,r,found,part,meets,rfl⟩ := leads.inBody leads' defined (Site.encloses_under.1 inside)
  exact ⟨k,body,r,found,part,meets,by simp⟩

/-- The definitions of a tree in the order of the source, with their units. -/
structure Surveys (root : Tree) (sites : List Site) (units : List ProgramUnit) : Prop where
  /-- There is a site for each definition that is met, and for nothing else. -/
  each : ∀ s, s ∈ sites ↔ Meets root s ∧ s.node.isDefinition
  ordered : sites.Pairwise fun a b => a.path < b.path
  bodies : ∀ a ∈ sites, ∀ b ∈ sites, a.Encloses b ↔ a.InBody b
  /-- The depth is the number of definitions around one, and `nested` counts those for which it is the
  nearest. -/
  units_eq : units = sites.map (Site.unit 0 sites)
  leaf : ∀ s ∈ sites, (s.unit 0 sites).nested = 0 ↔ ∀ r ∈ sites, ¬s.Encloses r
  /-- What is inside a definition are the units behind it for as long as they are deeper. -/
  descendants : ∀ before s after, sites = before ++ s :: after →
    (after.map (Site.unit 0 sites)).takeWhile ((s.unit 0 sites).depth < ·.depth) =
      (sites.filter (s.Encloses ·)).map (Site.unit 0 sites)

theorem surveys_of_wellDecorated {root : Tree} (well : root.WellDecorated) :
    Surveys root ((metAmong none 0 root.children).filter (·.node.isDefinition))
      (unitsInAll 0 root.children) := by
  have each (s : Site) : s ∈ (metAmong none 0 root.children).filter (·.node.isDefinition) ↔
      Meets root s ∧ s.node.isDefinition := by
    rw [List.mem_filter,mem_metAmong]
    simp only [Nat.zero_add,mem_met,Meets]
  have ordered : Site.InOrder ((metAmong none 0 root.children).filter (·.node.isDefinition)) :=
    (inOrder_metAmong fun c _ => inOrder_met).filter _
  refine ⟨each,ordered,fun a first b second => ⟨fun inside => ?_,?_⟩,?_,
    fun s _ => Site.nested_eq_zero_iff,?_⟩
  · obtain ⟨meets,defined⟩ := (each a).1 first
    exact meets.inBody ((each b).1 second).1 defined inside
  · rintro ⟨i,body,r,-,-,-,rfl⟩
    exact ⟨by simp [List.append_assoc],by simp⟩
  · exact unitsInAll_eq fun c child =>
      unitsIn_eq ((Tree.wellDecorated_iff.1 well).2 c child) rfl 0
  · intro before s after whole
    rw [whole] at ordered ⊢
    rw [Site.filter_encloses ordered,← Site.takeWhile_depth ordered,List.takeWhile_map]
    simp only [Function.comp_def,Site.depth_unit,Nat.zero_add]

/-- The units of a tree are its definitions in the order of the source, one for each that is reached
through nodes that define nothing and through the bodies of definitions. Their depths and their numbers
of inner units give back which lies inside which. Every tree that is read has the form for this. -/
theorem units_survey_definitions :
    (∀ text source, Source.read text = .ok source →
      source.root.WellDecorated ∧ source.units = unitsInAll 0 source.root.children) ∧
    ∀ root : Tree, root.WellDecorated → ∃ sites, Surveys root sites (unitsInAll 0 root.children) := by
  refine ⟨fun text source read => ?_,fun root well => ⟨_,surveys_of_wellDecorated well⟩⟩
  have parsed := Source.readTree_of_read read
  have program := (placed_of_readTree parsed).1
  refine ⟨wellDecorated_of_readTree parsed,unitsIn_other ?_ ?_⟩
  · simp [Tree.isDefinition,Tree.is,program]
  · simp [Tree.is,program]

/-- Functions in a class, below a condition and a decorator, and one behind the class. -/
theorem units_survey_definitions_nested : ∃ source,
    Source.read "@a\nclass A:\n    if x:\n        @b\n        def f(): pass\n    else:\n        def g():\n            class B: pass\nasync def h(): pass\n" = .ok source ∧
    source.units.map (fun u => (u.name,u.depth,u.nested)) =
      [("A",0,2),("f",1,0),("g",1,1),("B",2,0),("h",0,0)] ∧
    ∃ sites, Surveys source.root sites source.units := by
  obtain ⟨source,read,units⟩ := @Execution.ok_of_any _ _
    (Source.read "@a\nclass A:\n    if x:\n        @b\n        def f(): pass\n    else:\n        def g():\n            class B: pass\nasync def h(): pass\n")
    (fun source => source.units.map (fun u => (u.name,u.depth,u.nested)) ==
      [("A",0,2),("f",1,0),("g",1,1),("B",2,0),("h",0,0)]) (by decide +kernel)
  obtain ⟨well,all⟩ := units_survey_definitions.1 _ source read
  refine ⟨source,read,beq_iff_eq.1 units,?_⟩
  rw [all]
  exact units_survey_definitions.2 source.root well

end Excerpt
