import Excerpt.Execution.Evaluation
import Excerpt.Program.Reading

/-!
Trees without line continuations. A continuation is a child like any other, so whoever counts children
or takes the first of them may be misled by it. A tree is joinable if no continuation in it stands at
such a place.
-/
namespace Excerpt.Syntax
open Excerpt.Execution Excerpt.Program

namespace Tree

/-- A line continuation. -/
def isBreak (t : Tree) : Bool := t.is .lineContinuation

/-- The constructs, and the line continuations among them. -/
def isItem (t : Tree) : Bool := t.isNamed && !t.is .comment

def isConstruct (t : Tree) : Bool := t.isItem && !t.isBreak

end Tree

mutual
/-- The tree without its line continuations. -/
def Tree.joined : Tree → Tree
  | .node l cs => .node l (joinedAll cs)
def joinedAll : List Tree → List Tree
  | [] => []
  | t :: ts => if t.isBreak then joinedAll ts else t.joined :: joinedAll ts
end

def broken (cs : List Tree) : Bool := cs.any Tree.isBreak

def constructs (cs : List Tree) : List Tree := cs.filter Tree.isConstruct

/-- No line continuation stands in front of the first construct. -/
def headed (cs : List Tree) : Bool := (cs.find? Tree.isItem).all (!·.isBreak)

/-- What a tree is read for: it is run, it is compared with an exception, or its names are collected. -/
inductive Use
  | live
  | handled
  | scanned
deriving DecidableEq, Repr

namespace Use

def ofLive (live : Bool) : Use := if live then .live else .scanned

/-- What a child is read for. Bodies of functions are not run with the definition, and of what a handler
names only the alias is. -/
def below : Use → Symbol → Tree → Use
  | .scanned,_,_ => .scanned
  | .handled,.named .asPattern,c => if c.field == some .alias then .live else .scanned
  | .handled,_,_ => .scanned
  | .live,.named .functionDefinition,c | .live,.named .lambda,c =>
    if c.field == some .body then .scanned else .live
  | .live,.named .listComprehension,c | .live,.named .setComprehension,c
  | .live,.named .dictionaryComprehension,c | .live,.named .generatorExpression,c =>
    if c.is .forInClause then .live else .scanned
  | .live,.named .exceptClause,c | .live,.named .exceptGroupClause,c =>
    if c.is .block then .live else .handled
  | .live,.named .caseClause,c => if c.is .casePattern then .scanned else .live
  | .live,.named .typeAliasStatement,_ => .scanned
  | .live,_,_ => .live

end Use

/-- The message of an exception can be told from its arguments: a single string is not told from one
among line continuations. -/
def tells (arguments : Tree) : Bool :=
  match constructs arguments.children with
  | [] => !broken arguments.children
  | [only] => !only.is .string || !broken arguments.children && !broken only.children
  | _ => true

/-- Constructs whose first part is read on its own, wherever they stand. -/
def headedAt : Symbol → List Tree → Bool
  | .named .typedParameter,cs | .named .asPattern,cs | .named .withItem,cs | .named .classPattern,cs
  | .named .keywordPattern,cs => headed cs
  | .named .dottedName,cs => headed cs && (!broken cs || decide (2 ≤ (constructs cs).length)) &&
    (cs.find? Tree.isNamed).all (·.is .identifier)
  | .named .typeAliasStatement,cs => headed cs && (cs.find? Tree.isNamed).all fun c => headed c.children
  | _,_ => true

/-- Constructs whose value depends on the number of their items or on the first of them. -/
def decidedAt : Symbol → List Tree → Bool
  | .named .parenthesizedExpression,cs | .named .conditionalExpression,cs => !broken cs
  | .named .tuple,cs | .named .list,cs | .named .set,cs | .named .dictionary,cs =>
    !broken cs || !(constructs cs).isEmpty
  | .named .comparisonOperator,cs =>
    !broken cs || decide (2 < (constructs cs).length) || (constructs cs).all fun c => !isNone (exprOf c)
  | .named .decorator,cs => headed cs
  | .named .exceptClause,cs | .named .exceptGroupClause,cs => headed (cs.filter (!·.is .block))
  | .named .raiseStatement,cs =>
    headed cs && (cs.find? Tree.isNamed).all fun c => !c.is .call || (c.child? .arguments).all tells
  | _,_ => true

mutual
/-- Whether line continuations are without effect in a tree that is read for `u`. They have no role and
no parts, and where the first construct or the number of items matters they change neither. -/
def Tree.joinable (u : Use) : Tree → Bool
  | .node l cs =>
    (cs.all fun c => !c.isBreak || c.field.isNone && c.children.isEmpty) && headedAt l.symbol cs &&
      (u != .live || decidedAt l.symbol cs) && joinableBelow u l.symbol cs
def joinableBelow (u : Use) (parent : Symbol) : List Tree → Bool
  | [] => true
  | c :: cs => c.joinable (u.below parent c) && joinableBelow u parent cs
end

section Joined
variable {t : Tree} {cs : List Tree} {u : Use}

@[simp] theorem Tree.symbol_joined (t : Tree) : t.joined.symbol = t.symbol := by cases t; rfl

@[simp] theorem Tree.field_joined (t : Tree) : t.joined.field = t.field := by cases t; rfl

@[simp] theorem Tree.text_joined (t : Tree) : t.joined.text = t.text := by cases t; rfl

@[simp] theorem Tree.start_joined (t : Tree) : t.joined.start = t.start := by cases t; rfl

@[simp] theorem Tree.line_joined (t : Tree) : t.joined.line = t.line := by cases t; rfl

@[simp] theorem Tree.startByte_joined (t : Tree) : t.joined.startByte = t.startByte := by cases t; rfl

@[simp] theorem Tree.endByte_joined (t : Tree) : t.joined.endByte = t.endByte := by cases t; rfl

@[simp] theorem Tree.children_joined (t : Tree) : t.joined.children = joinedAll t.children := by
  cases t; rfl

@[simp] theorem Tree.is_joined (t : Tree) (k : Kind) : t.joined.is k = t.is k := by simp [Tree.is]

@[simp] theorem Tree.isToken_joined (t : Tree) (spelling : String) :
    t.joined.isToken spelling = t.isToken spelling := by simp [Tree.isToken]

@[simp] theorem Tree.isNamed_joined (t : Tree) : t.joined.isNamed = t.isNamed := by simp [Tree.isNamed]

@[simp] theorem Tree.kind?_joined (t : Tree) : t.joined.kind? = t.kind? := by simp [Tree.kind?]

@[simp] theorem Tree.isItem_joined (t : Tree) : t.joined.isItem = t.isItem := by simp [Tree.isItem]

theorem Tree.symbol_of_isBreak (rest : t.isBreak) : t.symbol = .named .lineContinuation := beq_iff_eq.1 rest

theorem Tree.isItem_of_isBreak (rest : t.isBreak) : t.isItem := by
  simp [isItem,isNamed,is,symbol_of_isBreak rest]

theorem Tree.isNamed_of_isBreak (rest : t.isBreak) : t.isNamed := by simp [isNamed,symbol_of_isBreak rest]

/-- A construct of another kind is no line continuation. -/
theorem Tree.whole_of_is {k : Kind} (kind : t.is k) (other : k ≠ .lineContinuation) : t.isBreak = false := by
  rw [is,beq_iff_eq] at kind
  simpa [isBreak,is,kind] using other

/-- What holds of no children, and is kept by a child that stays and by one that is left out, holds of
all children and those without line continuations. -/
theorem joinedAll_induction {P : List Tree → List Tree → Prop} {cs : List Tree} (nil : P [] [])
    (stays : ∀ c ∈ cs, c.isBreak = false → ∀ {ds ds'}, P ds ds' → P (c :: ds) (c.joined :: ds'))
    (goes : ∀ c ∈ cs, c.isBreak → ∀ {ds ds'}, P ds ds' → P (c :: ds) ds') : P cs (joinedAll cs) := by
  induction cs with
  | nil => exact nil
  | cons c cs ih =>
    have later := ih (fun d member => stays d (.tail c member)) fun d member => goes d (.tail c member)
    rw [joinedAll]
    split
    · next rest => exact goes c (.head cs) rest later
    · next whole => exact stays c (.head cs) (by simpa using whole) later

/-- The same for functions that take the children apart. -/
theorem joinedAll_node_induction {P : List Tree → List Tree → Prop} {cs : List Tree} (nil : P [] [])
    (stays : ∀ l es, Tree.node l es ∈ cs → ∀ {ds ds'}, P ds ds' →
      P (.node l es :: ds) (.node l (joinedAll es) :: ds'))
    (goes : ∀ l es, Tree.node l es ∈ cs → l.symbol = .named .lineContinuation → ∀ {ds ds'}, P ds ds' →
      P (.node l es :: ds) ds') : P cs (joinedAll cs) := by
  refine joinedAll_induction nil (fun c member _ => ?_) fun c member rest => ?_
  · obtain ⟨l,es⟩ := c
    exact stays l es member
  · obtain ⟨l,es⟩ := c
    exact goes l es member (Tree.symbol_of_isBreak rest)

theorem joinedAll_append (ts us : List Tree) : joinedAll (ts ++ us) = joinedAll ts ++ joinedAll us := by
  induction ts with
  | nil => rfl
  | cons t ts ih =>
    rw [List.cons_append,joinedAll,joinedAll,ih]
    split <;> rfl

theorem filter_joinedAll {q : Tree → Bool} (stable : ∀ t : Tree, q t.joined = q t)
    (whole : ∀ c ∈ cs, q c → c.isBreak = false) :
    (joinedAll cs).filter q = (cs.filter q).map Tree.joined := by
  refine joinedAll_induction (P := fun ds ds' => ds'.filter q = (ds.filter q).map Tree.joined) rfl
    (fun c _ _ ds ds' same => ?_) fun c member rest ds ds' same => ?_
  · rw [List.filter_cons,List.filter_cons,stable,same]
    split <;> rfl
  · rw [List.filter_cons_of_neg (fun found => ?_),same]
    rw [whole c member found] at rest
    cases rest

theorem find_joinedAll {q : Tree → Bool} (stable : ∀ t : Tree, q t.joined = q t)
    (whole : (cs.find? q).all (!·.isBreak)) : (joinedAll cs).find? q = (cs.find? q).map Tree.joined := by
  induction cs with
  | nil => rfl
  | cons c cs ih =>
    cases found : q c with
    | false =>
      rw [List.find?_cons_of_neg (by simp [found])] at whole ⊢
      rw [← ih whole,joinedAll]
      split
      · rfl
      · rw [List.find?_cons_of_neg (by simp [stable,found])]
    | true =>
      rw [List.find?_cons_of_pos found] at whole ⊢
      have whole : c.isBreak = false := by simpa using whole
      rw [joinedAll,if_neg (by simp [whole]),List.find?_cons_of_pos (by rw [stable,found])]
      rfl

theorem filter_joinedAll_comm {q : Tree → Bool} (stable : ∀ t : Tree, q t.joined = q t) :
    (joinedAll cs).filter q = joinedAll (cs.filter q) := by
  refine joinedAll_induction (P := fun ds ds' => ds'.filter q = joinedAll (ds.filter q)) rfl
    (fun c _ whole ds ds' same => ?_) fun c _ rest ds ds' same => ?_
  · rw [List.filter_cons,List.filter_cons,stable,same]
    split
    · rw [joinedAll,if_neg (by simp [whole])]
    · rfl
  · rw [same,List.filter_cons]
    split
    · rw [joinedAll,if_pos rest]
    · rfl

theorem filter_is_joinedAll {k : Kind} (other : k ≠ .lineContinuation) :
    (joinedAll cs).filter (·.is k) = (cs.filter (·.is k)).map Tree.joined :=
  filter_joinedAll (fun t => t.is_joined k) fun _ _ kind => Tree.whole_of_is kind other

theorem find_item_joinedAll (head : headed cs) :
    (joinedAll cs).find? Tree.isItem = (cs.find? Tree.isItem).map Tree.joined :=
  find_joinedAll Tree.isItem_joined head

/-- Where a construct or a comment comes first, it comes first without line continuations too. -/
theorem find_named_joinedAll (head : headed cs) :
    (joinedAll cs).find? Tree.isNamed = (cs.find? Tree.isNamed).map Tree.joined := by
  refine find_joinedAll Tree.isNamed_joined ?_
  rw [headed] at head
  induction cs with
  | nil => rfl
  | cons c cs ih =>
    cases named : c.isNamed with
    | false =>
      rw [List.find?_cons_of_neg (by simp [named])]
      rw [List.find?_cons_of_neg (by simp [Tree.isItem,named])] at head
      exact ih head
    | true =>
      rw [List.find?_cons_of_pos named]
      cases rest : c.isBreak with
      | false => simp [rest]
      | true =>
        rw [List.find?_cons_of_pos (Tree.isItem_of_isBreak rest)] at head
        simp [rest] at head

theorem filter_item_joinedAll (cs : List Tree) :
    (joinedAll cs).filter Tree.isItem = (constructs cs).map Tree.joined := by
  rw [constructs]
  refine joinedAll_induction (P := fun ds ds' => ds'.filter Tree.isItem = (ds.filter _).map _) rfl
    (fun c _ whole ds ds' same => ?_) fun c _ rest ds ds' same => ?_
  · rw [List.filter_cons,List.filter_cons,Tree.isItem_joined,Tree.isConstruct,whole,same]
    cases c.isItem <;> rfl
  · rw [List.filter_cons_of_neg (by simp [Tree.isConstruct,rest]),same]

theorem constructs_sublist (cs : List Tree) : (constructs cs).Sublist (cs.filter Tree.isItem) := by
  have twice : constructs cs = (cs.filter Tree.isItem).filter (!·.isBreak) := by
    rw [List.filter_filter]
    exact List.filter_congr fun c _ => Bool.and_comm _ _
  exact twice ▸ List.filter_sublist

theorem filter_item_of_whole (whole : broken cs = false) : cs.filter Tree.isItem = constructs cs := by
  refine List.filter_congr fun c member => ?_
  have whole : c.isBreak = false := by
    simpa using List.any_eq_false.1 whole c member
  simp [Tree.isConstruct,whole]

/-- Line continuations have no role and no parts. -/
def BareBreaks (cs : List Tree) : Prop := ∀ c ∈ cs, c.isBreak → c.field = none ∧ c.children = []

theorem BareBreaks.field_eq {l : Label} {es : List Tree} (bare : BareBreaks cs) (member : .node l es ∈ cs)
    (symbol : l.symbol = .named .lineContinuation) : l.field = none :=
  (bare _ member (beq_iff_eq.2 symbol)).1

theorem find_field_joinedAll (bare : BareBreaks cs) (f : Field) :
    (joinedAll cs).find? (·.field == some f) = (cs.find? (·.field == some f)).map Tree.joined := by
  refine find_joinedAll (fun t => by rw [Tree.field_joined]) ?_
  cases found : cs.find? (·.field == some f) with
  | none => rfl
  | some c =>
    cases rest : c.isBreak with
    | false => simp [rest]
    | true =>
      have role := List.find?_some found
      simp [(bare c (List.mem_of_find?_eq_some found) rest).1] at role

theorem child?_joined (bare : BareBreaks t.children) (f : Field) :
    t.joined.child? f = (t.child? f).map Tree.joined := by
  rw [Tree.child?,Tree.children_joined,find_field_joinedAll bare]
  rfl

theorem childText_joined (bare : BareBreaks t.children) (f : Field) :
    t.joined.childText f = t.childText f := by
  rw [Tree.childText,child?_joined bare,Option.map_map,Tree.childText]
  exact congrArg (fun g => Option.map g (t.child? f)) (funext Tree.text_joined)

theorem joinableBelow_iff {parent : Symbol} :
    joinableBelow u parent cs ↔ ∀ c ∈ cs, c.joinable (u.below parent c) := by
  induction cs with
  | nil => simp [joinableBelow]
  | cons c cs ih => simp [joinableBelow,ih]

theorem Tree.joinable_iff : t.joinable u ↔ BareBreaks t.children ∧ headedAt t.symbol t.children ∧
    (u = .live → decidedAt t.symbol t.children) ∧ ∀ c ∈ t.children, c.joinable (u.below t.symbol c) := by
  obtain ⟨l,cs⟩ := t
  simp only [joinable,Bool.and_eq_true,joinableBelow_iff,and_assoc]
  refine and_congr ?_ (and_congr Iff.rfl (and_congr ?_ Iff.rfl))
  · simp only [List.all_eq_true,Bool.or_eq_true,Bool.not_eq_true',Bool.and_eq_true,
      Option.isNone_iff_eq_none,List.isEmpty_iff,BareBreaks,children_node]
    refine forall_congr' fun c => forall_congr' fun _ => ?_
    cases c.isBreak <;> simp
  · cases u <;> simp

/-- Where a tree is run its names are collected as well. -/
theorem Tree.joinable_scanned {t : Tree} {u : Use} (joinable : t.joinable u) : t.joinable .scanned := by
  obtain ⟨bare,head,_,below⟩ := joinable_iff.1 joinable
  refine joinable_iff.2 ⟨bare,head,by simp,fun c member => ?_⟩
  have := Tree.sizeOf_lt_of_mem member
  exact joinable_scanned (below c member)
termination_by sizeOf t

/-- Nothing but the line continuations is left out, and all else stays where it is. -/
theorem Tree.labels_joined {t : Tree} {u : Use} (joinable : t.joinable u) (whole : t.isBreak = false) :
    t.joined.preorder.map label = (t.preorder.filter (!·.isBreak)).map label := by
  obtain ⟨bare,_,_,below⟩ := joinable_iff.1 joinable
  have each (c : Tree) (member : c ∈ t.children) (whole : c.isBreak = false) :
      c.joined.preorder.map label = (c.preorder.filter (!·.isBreak)).map label := by
    have := Tree.sizeOf_lt_of_mem member
    exact labels_joined (below c member) whole
  have inside : (preorderAll (joinedAll t.children)).map label =
      ((preorderAll t.children).filter (!·.isBreak)).map label := by
    refine joinedAll_induction (P := fun ds ds' =>
      (preorderAll ds').map label = ((preorderAll ds).filter (!·.isBreak)).map label) rfl
      (fun c member whole ds ds' same => ?_) fun c member rest ds ds' same => ?_
    · simp only [preorderAll,List.filter_append,List.map_append,each c member whole,same]
    · obtain ⟨l,cs⟩ := c
      obtain rfl : cs = [] := (bare _ member rest).2
      simp [preorderAll,preorder,rest,same]
  obtain ⟨l,cs⟩ := t
  rw [joined,preorder,preorder,List.filter_cons_of_pos (by simp [whole]),List.map_cons,List.map_cons]
  exact congrArg (l :: ·) inside
termination_by sizeOf t

end Joined

section Below
variable {live : Bool} {t c : Tree}

/-- Below most constructs a child is read for what the construct is read for. -/
theorem Tree.joinable_child (joinable : t.joinable (.ofLive live)) (member : c ∈ t.children)
    (plain : Use.below .live t.symbol c = .live) : c.joinable (.ofLive live) := by
  have below := (joinable_iff.1 joinable).2.2.2 c member
  cases live with
  | false => exact below
  | true =>
    rw [show Use.ofLive true = .live from rfl,plain] at below
    exact below

theorem Tree.joinable_deferred (joinable : t.joinable (.ofLive live)) (member : c ∈ t.children)
    (deferred : Use.below .live t.symbol c = .scanned) : c.joinable (.ofLive false) := by
  have below := (joinable_iff.1 joinable).2.2.2 c member
  cases live with
  | false => exact below
  | true =>
    rw [show Use.ofLive true = .live from rfl,deferred] at below
    exact below

end Below

end Excerpt.Syntax
