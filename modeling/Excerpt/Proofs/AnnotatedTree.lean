import Excerpt.Proofs.Annotations
import Excerpt.Proofs.ExpressionNames
import Excerpt.Proofs.Relocation
import Excerpt.Validation

/-!
Annotations in trees. Two trees that differ in annotations only are read as programs that differ in
annotations only, so with lazy annotations they get the same verdict.
-/
namespace Excerpt.Syntax

/-- Whether a child in the role `f` annotates its parent. -/
def Symbol.annotatedBy : Symbol → Option Field → Bool
  | .named .typedParameter,some .type | .named .typedDefaultParameter,some .type
  | .named .assignment,some .type | .named .functionDefinition,some .returnType => true
  | _,_ => false

mutual
/-- Whether there is an annotation in a tree. -/
def Tree.isAnnotated : Tree → Bool
  | .node l cs => annotatedBelow l.symbol cs
def annotatedBelow (parent : Symbol) : List Tree → Bool
  | [] => false
  | .node l cs :: ts =>
    parent.annotatedBy l.field || Tree.isAnnotated (.node l cs) || annotatedBelow parent ts
end

/-- What stands for an annotation in the role `f`. -/
def Tree.unwritten (f : Option Field) : Tree := .node ⟨.named .typeExpression,f,default,""⟩ []

mutual
/-- A tree without what is written in its annotations. The text of a node holds the annotations in
it, so it is left out with them. -/
def Tree.stripped : Tree → Tree
  | .node l cs =>
    .node {l with text := if annotatedBelow l.symbol cs then "" else l.text} (strippedBelow l.symbol cs)
def strippedBelow (parent : Symbol) : List Tree → List Tree
  | [] => []
  | .node l cs :: ts =>
    (if parent.annotatedBy l.field then Tree.unwritten l.field else Tree.stripped (.node l cs)) ::
      strippedBelow parent ts
end

/-- The parts of a source in and below which annotations can stand. -/
inductive Region
  | program
  | statement
  | definition
  | block
  | clause
  | cases
  | parameters
  | parameter
  /-- A statement of its own, or the right side of an assignment. -/
  | assigned
  /-- Where there are no annotations. -/
  | plain
deriving DecidableEq, Repr

namespace Region

/-- Whether annotations can stand in or below a node in a region. -/
def holds : Region → Symbol → Bool
  | .program,.named k => k == .program
  | .statement,.named k => k.isCompound || k == .expressionStatement
  | .definition,.named k => k == .classDefinition || k == .functionDefinition
  | .block,.named k => k == .block
  | .clause,.named k => k.isClause
  | .cases,.named k => k == .block || k == .caseClause
  | .parameters,.named k => k == .parameters
  | .parameter,.named k => k == .typedParameter || k == .typedDefaultParameter
  | .assigned,.named k => k == .assignment
  | _,_ => false

/-- The regions below a statement. -/
def belowStatement : Kind → Option Field → Region
  | .expressionStatement,_ => .assigned
  | .matchStatement,some .subject => .plain
  | .matchStatement,_ => .cases
  | .decoratedDefinition,some .definition => .definition
  | .functionDefinition,some .parameters => .parameters
  | _,some .body | _,some .consequence => .block
  | _,some .alternative | _,none => .clause
  | _,some _ => .plain

def belowClause (k : Kind) (f : Option Field) : Region :=
  if k.isHandler || f == some .body || f == some .consequence then .block else .plain

/-- The region of a child of a node that stands in a region. -/
def below : Region → Symbol → Option Field → Region
  | .program,_,_ | .block,_,_ => .statement
  | .statement,.named k,f | .definition,.named k,f => belowStatement k f
  | .clause,.named k,f => belowClause k f
  | .cases,.named .block,_ => .cases
  | .cases,_,_ => .block
  | .parameters,_,_ => .parameter
  | .assigned,_,some .right => .assigned
  | _,_,_ => .plain

/-- Some regions hold one kind of nodes only. -/
theorem symbol_of_holds {r : Region} {symbol : Symbol} {k : Kind}
    (sole : ∀ own, r.holds (.named own) = (own == k)) (held : r.holds symbol) :
    symbol = .named k := by
  cases symbol with
  | named own =>
    rw [sole,beq_iff_eq] at held
    rw [held]
  | token spelling => cases r <;> cases held

theorem eq_definition {symbol : Symbol} (held : holds .definition symbol) :
    ∃ k, symbol = .named k ∧ (k = .classDefinition ∨ k = .functionDefinition) := by
  cases symbol <;> simp_all [holds]

theorem below_clause {r : Region} {k : Kind} (clause : k.isClause) (held : r.holds (.named k)) :
    r.below (.named k) = belowClause k := by
  cases k <;> cases clause <;> cases r <;> cases held <;> rfl

theorem below_case {r : Region} (held : r.holds (.named .caseClause)) :
    r.below (.named .caseClause) = fun _ => .block := by
  cases r <;> cases held
  rfl

theorem below_cases {f : Option Field}
    (held : (belowStatement .matchStatement f).holds (.named .block)) :
    (belowStatement .matchStatement f).below (.named .block) = fun _ => .cases := by
  rcases f with _ | f
  · rfl
  · cases f <;> first | rfl | cases held

end Region

/-- Whether no annotation stands before the end of the first construct. -/
def leads (parent : Symbol) : List Tree → Bool
  | [] => true
  | t :: ts => !parent.annotatedBy t.field && (t.isNamed || leads parent ts)

mutual
/-- Whether the annotations of a tree in a region stand where the language has them: on assignments
that are statements or the right sides of such assignments, and on functions and their parameters. -/
def Tree.settled (r : Region) : Tree → Bool
  | .node l cs =>
    !annotatedBelow l.symbol cs ||
      r.holds l.symbol && leads l.symbol cs && settledBelow l.symbol (r.below l.symbol) cs
def settledBelow (parent : Symbol) (region : Option Field → Region) : List Tree → Bool
  | [] => true
  | .node l cs :: ts =>
    (parent.annotatedBy l.field || Tree.settled (region l.field) (.node l cs)) &&
      settledBelow parent region ts
end

mutual
theorem Tree.stripped_eq_self : ∀ {t : Tree}, t.isAnnotated = false → t.stripped = t
  | .node l cs,plain => by
    simp only [Tree.isAnnotated] at plain
    simp only [Tree.stripped,plain,Bool.false_eq_true,if_false,strippedBelow_eq_self plain]
theorem strippedBelow_eq_self : ∀ {parent : Symbol} {ts : List Tree},
    annotatedBelow parent ts = false → strippedBelow parent ts = ts
  | _,[],_ => rfl
  | _,.node l cs :: ts,plain => by
    simp only [annotatedBelow,Bool.or_eq_false_iff] at plain
    obtain ⟨⟨free,own⟩,later⟩ := plain
    simp only [strippedBelow,free,Bool.false_eq_true,if_false,Tree.stripped_eq_self own,
      strippedBelow_eq_self later]
end

theorem settled_of_plain {r : Region} {t : Tree} (plain : t.isAnnotated = false) : t.settled r := by
  obtain ⟨l,cs⟩ := t
  rw [Tree.isAnnotated] at plain
  simp [Tree.settled,plain]

theorem settledBelow_of_plain {parent : Symbol} {region : Option Field → Region} {ts : List Tree}
    (plain : annotatedBelow parent ts = false) : settledBelow parent region ts := by
  induction ts with
  | nil => rfl
  | cons t ts ih =>
    obtain ⟨l,cs⟩ := t
    simp only [annotatedBelow,Bool.or_eq_false_iff] at plain
    simp [settledBelow,settled_of_plain plain.1.2,ih plain.2]

section Stripped

variable {r : Region} {parent : Symbol} {region : Option Field → Region} {t : Tree} {ts : List Tree}

@[simp] theorem symbol_stripped (t : Tree) : t.stripped.symbol = t.symbol := by cases t; rfl

@[simp] theorem field_stripped (t : Tree) : t.stripped.field = t.field := by cases t; rfl

@[simp] theorem is_stripped (t : Tree) (k : Kind) : t.stripped.is k = t.is k := by simp [Tree.is]

@[simp] theorem isNamed_stripped (t : Tree) : t.stripped.isNamed = t.isNamed := by simp [Tree.isNamed]

theorem children_stripped (t : Tree) : t.stripped.children = strippedBelow t.symbol t.children := by
  cases t; rfl

@[simp] theorem field_unwritten (f : Option Field) : (Tree.unwritten f).field = f := rfl

theorem strippedBelow_cons : strippedBelow parent (t :: ts) =
    (if parent.annotatedBy t.field then Tree.unwritten t.field else t.stripped) ::
      strippedBelow parent ts := by
  cases t; rfl

theorem settledBelow_cons : settledBelow parent region (t :: ts) ↔
    (parent.annotatedBy t.field ∨ t.settled (region t.field)) ∧ settledBelow parent region ts := by
  cases t
  simp only [settledBelow,Bool.and_eq_true,Bool.or_eq_true]
  rfl

/-- A settled tree has no annotations, or its node and its children stand where they can. -/
theorem stripped_or_holds (settled : t.settled r) : t.stripped = t ∨
    r.holds t.symbol ∧ leads t.symbol t.children ∧
      settledBelow t.symbol (r.below t.symbol) t.children := by
  obtain ⟨l,cs⟩ := t
  simp only [Tree.settled,Bool.or_eq_true,Bool.not_eq_true',Bool.and_eq_true,and_assoc] at settled
  exact settled.imp_left fun plain => Tree.stripped_eq_self plain

/-- The children of a settled tree are settled in the regions below its own. -/
theorem settledBelow_of_settled {l : Label} {k : Kind} (symbol : l.symbol = .named k)
    (agree : r.holds (.named k) → r.below (.named k) = region)
    (settled : (Tree.node l ts).settled r) : settledBelow (.named k) region ts := by
  simp only [Tree.settled,symbol,Bool.or_eq_true,Bool.not_eq_true',Bool.and_eq_true] at settled
  rcases settled with plain | ⟨⟨held,_⟩,below⟩
  · exact settledBelow_of_plain plain
  · rwa [agree held] at below

theorem stripped_of_plain (settled : t.settled .plain) : t.stripped = t :=
  (stripped_or_holds settled).resolve_right fun held => by simp [Region.holds] at held

theorem find_strippedBelow {f : Field} (free : parent.annotatedBy (some f) = false) :
    (strippedBelow parent ts).find? (·.field == some f) =
      (ts.find? (·.field == some f)).map Tree.stripped := by
  induction ts with
  | nil => rfl
  | cons t ts ih =>
    rw [strippedBelow_cons]
    by_cases role : t.field = some f
    · simp [role,free]
    · rw [List.find?_cons_of_neg (by split <;> simp [role]),List.find?_cons_of_neg (by simp [role]),ih]

theorem settled_of_find {f : Field} (free : parent.annotatedBy (some f) = false)
    (settled : settledBelow parent region ts) (found : ts.find? (·.field == some f) = some t) :
    t.settled (region (some f)) := by
  induction ts with
  | nil => cases found
  | cons u ts ih =>
    obtain ⟨own,later⟩ := settledBelow_cons.1 settled
    by_cases role : u.field = some f
    · rw [List.find?_cons_of_pos (by simp [role])] at found
      obtain rfl := Option.some.inj found
      simpa [role,free] using own
    · rw [List.find?_cons_of_neg (by simp [role])] at found
      exact ih later found

/-- The child in a role without annotations is left as it is. -/
theorem find_plain {f : Field} (free : parent.annotatedBy (some f) = false)
    (plain : region (some f) = .plain) (settled : settledBelow parent region ts) :
    (strippedBelow parent ts).find? (·.field == some f) = ts.find? (·.field == some f) := by
  rw [find_strippedBelow free]
  cases found : ts.find? (·.field == some f) with
  | none => rfl
  | some t =>
    have own := settled_of_find free settled found
    rw [plain] at own
    rw [Option.map_some,stripped_of_plain own]

/-- Children that can hold no annotations are left as they are. -/
theorem filter_strippedBelow {q : Tree → Bool} (free : ∀ f, parent.annotatedBy f = false)
    (same : ∀ t : Tree, q t.stripped = q t)
    (apart : ∀ t : Tree, q t → (region t.field).holds t.symbol = false)
    (settled : settledBelow parent region ts) : (strippedBelow parent ts).filter q = ts.filter q := by
  induction ts with
  | nil => rfl
  | cons t ts ih =>
    obtain ⟨own,later⟩ := settledBelow_cons.1 settled
    simp only [free,Bool.false_eq_true,false_or] at own
    rw [strippedBelow_cons,free,if_neg Bool.false_ne_true]
    by_cases among : q t
    · have kept : t.stripped = t := (stripped_or_holds own).resolve_right fun held => by
        simp [apart t among] at held
      rw [kept,List.filter_cons_of_pos among,List.filter_cons_of_pos among,ih later]
    · rw [List.filter_cons_of_neg (by rwa [same]),List.filter_cons_of_neg among,ih later]

theorem filter_is_strippedBelow {k : Kind} (free : ∀ f, parent.annotatedBy f = false)
    (unheld : ∀ r : Region, r.holds (.named k) = false) (settled : settledBelow parent region ts) :
    (strippedBelow parent ts).filter (·.is k) = ts.filter (·.is k) :=
  filter_strippedBelow free (is_stripped · k) (fun t is => by rw [beq_iff_eq.1 is,unheld]) settled

/-- The first construct of a node is left as it is. -/
theorem find_named_strippedBelow (plain : ∀ f, parent.annotatedBy f = false → region f = .plain)
    (first : leads parent ts) (settled : settledBelow parent region ts) :
    (strippedBelow parent ts).find? Tree.isNamed = ts.find? Tree.isNamed := by
  induction ts with
  | nil => rfl
  | cons t ts ih =>
    simp only [leads,Bool.and_eq_true,Bool.not_eq_true',Bool.or_eq_true] at first
    obtain ⟨own,later⟩ := settledBelow_cons.1 settled
    simp only [first.1,plain _ first.1,Bool.false_eq_true,false_or] at own
    rw [strippedBelow_cons,first.1,if_neg Bool.false_ne_true,stripped_of_plain own]
    by_cases named : t.isNamed
    · rw [List.find?_cons_of_pos named,List.find?_cons_of_pos named]
    · rw [List.find?_cons_of_neg named,List.find?_cons_of_neg named,
        ih (first.2.resolve_left named) later]

end Stripped

mutual
theorem Tree.eq_of_alike : ∀ {t u : Tree}, t.alike (· == ·) u → t = u
  | .node l cs,.node m ds,same => by
    simp only [Tree.alike,Bool.and_eq_true,beq_iff_eq] at same
    rw [same.1.2,eq_of_alikeAll same.2]
theorem eq_of_alikeAll : ∀ {ts us : List Tree}, alikeAll (· == ·) ts us → ts = us
  | [],[],_ => rfl
  | [],_ :: _,same | _ :: _,[],same => by cases same
  | t :: ts,u :: us,same => by
    simp only [alikeAll,Bool.and_eq_true] at same
    rw [Tree.eq_of_alike same.1,eq_of_alikeAll same.2]
end

end Excerpt.Syntax

namespace Excerpt.Program
open Excerpt.Syntax

variable {parent : Symbol} {region : Option Field → Region} {ts : List Tree}

theorem exprOfRole_eq_find (f : Field) (ts : List Tree) :
    exprOfRole f ts = (ts.find? (·.field == some f)).map exprOf := by
  induction ts with
  | nil => rfl
  | cons t ts ih =>
    rw [exprOfRole,List.find?_cons,ih]
    cases t.field == some f <;> rfl

theorem role_eq_exprOfRole (f : Field) (ts : List Tree) : (exprsOf ts).role? f = exprOfRole f ts := by
  rw [exprOfRole_eq_find,exprsOf_eq_map,Parts.role?,List.find?_map,Option.map_map]
  rfl

theorem head_all (ts : List Tree) : (exprsOf ts).all.head? = (ts.find? Tree.isNamed).map exprOf := by
  rw [exprsOf_eq_map,Parts.all,List.head?_map,List.head?_filter,List.find?_map,Option.map_map]
  rfl

theorem exprsOfRole_eq_filter (f : Field) (ts : List Tree) :
    exprsOfRole f ts = (ts.filter fun t => t.field == some f && t.isNamed).map exprOf := by
  induction ts with
  | nil => rfl
  | cons t ts ih =>
    rw [exprsOfRole,List.filter_cons]
    split <;> simp [ih]

theorem exprOfRole_stripped {f : Field} (free : parent.annotatedBy (some f) = false)
    (plain : region (some f) = .plain) (settled : settledBelow parent region ts) :
    exprOfRole f (strippedBelow parent ts) = exprOfRole f ts := by
  simp only [exprOfRole_eq_find,find_plain free plain settled]

theorem exprOf_assignment {t : Tree} (symbol : t.symbol = .named .assignment) :
    exprOf t = .assignment ((exprOfRole .left t.children).getD .blank) (exprOfRole .type t.children)
      (exprOfRole .right t.children) := by
  obtain ⟨⟨own,field,start,text⟩,cs⟩ := t
  obtain rfl : own = .named .assignment := symbol
  simp only [← role_eq_exprOfRole]
  rfl

mutual
/-- An assignment is read with the same targets and value, whatever its annotations are. -/
theorem exprOf_stripped : ∀ t : Tree, t.settled .assigned →
    (exprOf t.stripped).unhinted = (exprOf t).unhinted
  | .node l cs,settled => by
    rcases stripped_or_holds settled with same | ⟨held,_,below⟩
    · rw [same]
    · have symbol : (Syntax.Tree.node l cs).symbol = .named .assignment :=
        Region.symbol_of_holds (fun _ => rfl) held
      rw [symbol] at below
      rw [exprOf_assignment symbol,exprOf_assignment (by rw [symbol_stripped,symbol]),
        children_stripped,symbol]
      have target := exprOfRole_stripped (f := .left) rfl rfl below
      have value := assigned_stripped cs below
      simp only [Expr.unhinted,target]
      exact congrArg _ value
theorem assigned_stripped : ∀ ts : List Tree,
    settledBelow (.named .assignment) (Region.below .assigned (.named .assignment)) ts →
    unhintedOf (exprOfRole .right (strippedBelow (.named .assignment) ts)) =
      unhintedOf (exprOfRole .right ts)
  | [],_ => rfl
  | t :: ts,settled => by
    obtain ⟨own,later⟩ := settledBelow_cons.1 settled
    rw [strippedBelow_cons]
    by_cases role : t.field = some .right
    · have own : t.settled .assigned := by simpa [role,Symbol.annotatedBy,Region.below] using own
      have value := exprOf_stripped t own
      simpa [role,Symbol.annotatedBy,exprOfRole,unhintedOf] using value
    · have ih := assigned_stripped ts later
      rw [exprOfRole,exprOfRole,if_neg (by split <;> simp [role]),if_neg (by simp [role])]
      exact ih
end

theorem items_eq_filter (ts : List Tree) :
    (exprsOf ts).items = (ts.filter fun t => t.isNamed && !t.is .comment).map exprOf := by
  rw [exprsOf_eq_map,Parts.items,List.filter_map,List.map_map]
  rfl

theorem items_stripped (settled : settledBelow (.named .expressionStatement) (fun _ => .assigned) ts) :
    (exprsOf (strippedBelow (.named .expressionStatement) ts)).items.map Expr.unhinted =
      (exprsOf ts).items.map Expr.unhinted := by
  simp only [items_eq_filter]
  induction ts with
  | nil => rfl
  | cons t ts ih =>
    obtain ⟨own,later⟩ := settledBelow_cons.1 settled
    have same := exprOf_stripped t (own.resolve_left Bool.false_ne_true)
    have free : Symbol.annotatedBy (.named .expressionStatement) t.field = false := rfl
    simp only [strippedBelow_cons,free,Bool.false_eq_true,if_false,List.filter_cons,
      isNamed_stripped,is_stripped]
    split
    · simp only [List.map_cons,same,ih later]
    · exact ih later

theorem parametersOf_cons (t : Tree) (ts : List Tree) :
    parametersOf (t :: ts) = parametersOf [t] ++ parametersOf ts := by
  simp only [parametersOf]
  split
  · rfl
  · split
    · rfl
    · split <;> rfl

theorem parametersOf_default {t : Tree} (kind : t.symbol = .named .typedDefaultParameter) :
    parametersOf [t] = [.mk (exprOfRole .name t.children) (exprOfRole .type t.children)
      (exprOfRole .value t.children)] := by
  obtain ⟨⟨own,field,start,text⟩,cs⟩ := t
  obtain rfl : own = .named .typedDefaultParameter := kind
  simp only [← role_eq_exprOfRole]
  rfl

theorem parametersOf_typed {t : Tree} (kind : t.symbol = .named .typedParameter) :
    parametersOf [t] = [.mk ((t.children.find? Tree.isNamed).map exprOf)
      (exprOfRole .type t.children) none] := by
  obtain ⟨⟨own,field,start,text⟩,cs⟩ := t
  obtain rfl : own = .named .typedParameter := kind
  simp only [← role_eq_exprOfRole,← head_all]
  rfl

/-- A parameter is read with the same target and default, whatever its annotation is. -/
theorem parameter_stripped {t : Tree} (settled : t.settled .parameter) :
    (parametersOf [t.stripped]).map Parameter.unhinted = (parametersOf [t]).map Parameter.unhinted := by
  rcases stripped_or_holds settled with same | ⟨held,first,below⟩
  · rw [same]
  · have kind : t.symbol = .named .typedParameter ∨ t.symbol = .named .typedDefaultParameter := by
      cases own : t.symbol <;> simp_all [Region.holds]
    rcases kind with kind | kind
    · rw [kind] at first below
      have target := find_named_strippedBelow (fun _ _ => rfl) first below
      rw [parametersOf_typed kind,parametersOf_typed (by rw [symbol_stripped,kind]),
        children_stripped,kind,target]
      rfl
    · rw [kind] at below
      have target := exprOfRole_stripped (f := .name) rfl rfl below
      have default := exprOfRole_stripped (f := .value) rfl rfl below
      rw [parametersOf_default kind,parametersOf_default (by rw [symbol_stripped,kind]),
        children_stripped,kind,target,default]
      rfl

theorem parametersOf_stripped (settled : settledBelow (.named .parameters) (fun _ => .parameter) ts) :
    (parametersOf (strippedBelow (.named .parameters) ts)).map Parameter.unhinted =
      (parametersOf ts).map Parameter.unhinted := by
  induction ts with
  | nil => rfl
  | cons t ts ih =>
    obtain ⟨own,later⟩ := settledBelow_cons.1 settled
    have same := parameter_stripped (own.resolve_left Bool.false_ne_true)
    have free : Symbol.annotatedBy (.named .parameters) t.field = false := rfl
    rw [strippedBelow_cons,free,if_neg Bool.false_ne_true,parametersOf_cons,parametersOf_cons t,
      List.map_append,List.map_append,same,ih later]

theorem parametersOfRole_eq_find (ts : List Tree) : parametersOfRole ts =
    ((ts.find? (·.field == some .parameters)).map fun t => parametersOf t.children).getD [] := by
  induction ts with
  | nil => rfl
  | cons t ts ih =>
    obtain ⟨l,cs⟩ := t
    rw [parametersOfRole,List.find?_cons,ih,Tree.field_node]
    cases l.field == some .parameters <;> rfl

theorem parametersOfRole_stripped (free : parent.annotatedBy (some .parameters) = false)
    (role : region (some .parameters) = .parameters) (settled : settledBelow parent region ts) :
    (parametersOfRole (strippedBelow parent ts)).map Parameter.unhinted =
      (parametersOfRole ts).map Parameter.unhinted := by
  rw [parametersOfRole_eq_find,parametersOfRole_eq_find,find_strippedBelow free]
  cases found : ts.find? (·.field == some .parameters) with
  | none => rfl
  | some t =>
    have own := settled_of_find free settled found
    rw [role] at own
    simp only [Option.map_some,Option.getD_some]
    rcases stripped_or_holds own with same | ⟨held,_,below⟩
    · rw [same]
    · have symbol : t.symbol = .named .parameters := Region.symbol_of_holds (fun _ => rfl) held
      rw [symbol] at below
      rw [children_stripped,symbol]
      exact parametersOf_stripped below

/-- A class or a function is read as before if its body is. -/
theorem definitionOf_stripped {k : Kind} (kind : k = .classDefinition ∨ k = .functionDefinition)
    (settled : settledBelow (.named k) (Region.belowStatement k) ts) {body body' : List Stmt}
    (same : unhintedBody body' = unhintedBody body) :
    (definitionOf (.named k) (strippedBelow (.named k) ts) body').unhinted =
      (definitionOf (.named k) ts body).unhinted := by
  rcases kind with rfl | rfl
  · have name := find_plain (f := .name) rfl rfl settled
    have bases := find_plain (f := .superclasses) rfl rfl settled
    simp only [definitionOf,name,bases,BEq.rfl,if_true,Definition.unhinted,same]
  · have name := find_plain (f := .name) rfl rfl settled
    have parameters := parametersOfRole_stripped rfl rfl settled
    have other : (Symbol.named Kind.functionDefinition == .named .classDefinition) = false := rfl
    simp only [definitionOf,name,other,Bool.false_eq_true,if_false,Definition.unhinted,same,parameters]

theorem withItems_cons (t : Tree) (ts : List Tree) :
    withItems (t :: ts) = withItems [t] ++ withItems ts := by
  simp [withItems]

theorem withItems_stripped
    (settled : settledBelow (.named .withStatement) (Region.belowStatement .withStatement) ts) :
    withItems (strippedBelow (.named .withStatement) ts) = withItems ts := by
  induction ts with
  | nil => rfl
  | cons t ts ih =>
    obtain ⟨own,later⟩ := settledBelow_cons.1 settled
    have free : Symbol.annotatedBy (.named .withStatement) t.field = false := rfl
    rw [strippedBelow_cons,free,if_neg Bool.false_ne_true,withItems_cons,withItems_cons t,ih later]
    rcases stripped_or_holds (own.resolve_left Bool.false_ne_true) with same | ⟨held,_,_⟩
    · rw [same]
    · -- what can hold annotations is neither an item nor the clause around the items
      have apart {k : Kind} (unheld : ∀ r : Region, r.holds (.named k) = false) : t.is k = false :=
        beq_eq_false_iff_ne.2 fun symbol => by simp [symbol,unheld] at held
      have item := apart (k := .withItem) fun r => by cases r <;> rfl
      have clause := apart (k := .withClause) fun r => by cases r <;> rfl
      simp [withItems,item,clause]

theorem decorationsOf_stripped
    (settled : settledBelow (.named .decoratedDefinition)
      (Region.belowStatement .decoratedDefinition) ts) :
    decorationsOf (strippedBelow (.named .decoratedDefinition) ts) = decorationsOf ts := by
  rw [decorationsOf,decorationsOf,
    filter_is_strippedBelow (fun _ => rfl) (fun r => by cases r <;> rfl) settled]

theorem exprsOfRole_stripped {f : Field} (free : ∀ f, parent.annotatedBy f = false)
    (plain : region (some f) = .plain) (settled : settledBelow parent region ts) :
    exprsOfRole f (strippedBelow parent ts) = exprsOfRole f ts := by
  simp only [exprsOfRole_eq_filter]
  rw [filter_strippedBelow free (fun t => by simp) (fun t among => ?_) settled]
  have role : t.field = some f := by simp_all
  rw [role,plain]
  rfl

section Suite

variable (free : ∀ f, parent.annotatedBy f = false)
  (settled : settledBelow parent (fun _ => .block) ts)
include free settled

theorem handlerItems_stripped : handlerItems (strippedBelow parent ts) = handlerItems ts := by
  rw [handlerItems,handlerItems,
    filter_strippedBelow free (fun t => by simp) (fun t other => ?_) settled]
  cases symbol : t.symbol with
  | named k => simpa [Tree.is,symbol,Region.holds] using other
  | token spelling => rfl

theorem guardOf_stripped : guardOf (strippedBelow parent ts) = guardOf ts := by
  rw [guardOf,guardOf,filter_is_strippedBelow free (fun r => by cases r <;> rfl) settled]

theorem casePatterns_stripped : casePatterns (strippedBelow parent ts) = casePatterns ts := by
  rw [casePatterns,casePatterns,filter_is_strippedBelow free (fun r => by cases r <;> rfl) settled]

end Suite

theorem unhintedBody_append (ss ss' : List Stmt) :
    unhintedBody (ss ++ ss') = unhintedBody ss ++ unhintedBody ss' := by
  induction ss with
  | nil => rfl
  | cons s ss ih => simp only [List.cons_append,unhintedBody,ih]

theorem unhintedCases_append (cs cs' : List Case) :
    unhintedCases (cs ++ cs') = unhintedCases cs ++ unhintedCases cs' := by
  induction cs with
  | nil => rfl
  | cons c cs ih =>
    cases c
    simp only [List.cons_append,unhintedCases,ih]

mutual
/-- A statement is read as before, whatever its annotations are. -/
theorem stmtOf_stripped : ∀ t : Tree, t.settled .statement →
    (stmtOf t.stripped).unhinted = (stmtOf t).unhinted
  | .node ⟨symbol,field,start,text⟩ cs,settled => by
    rcases stripped_or_holds settled with same | ⟨held,_,below⟩
    · rw [same]
    cases symbol with
    | token spelling => cases held
    | named k =>
      replace below : settledBelow (.named k) (Region.belowStatement k) cs := below
      cases k
      case expressionStatement =>
        simp only [Tree.stripped,stmtOf,Stmt.unhinted]
        rw [items_stripped below]
      case classDefinition | functionDefinition =>
        have body := bodyOfRole_stripped .body cs rfl rfl below
        have same := definitionOf_stripped (by simp) below body
        simp only [Tree.stripped,stmtOf,Stmt.unhinted]
        rw [same]
      case decoratedDefinition =>
        simp only [Tree.stripped,stmtOf,Stmt.unhinted]
        rw [decorationsOf_stripped below,decorated_stripped cs below]
      case ifStatement =>
        have condition := exprOfRole_stripped (f := .condition) rfl rfl below
        have body := bodyOfRole_stripped .consequence cs rfl rfl below
        have branches := branchesOf_stripped cs (fun _ => rfl) below
        simp only [Tree.stripped,stmtOf,Stmt.unhinted,unhintedBranches]
        rw [condition,body,branches]
      case forStatement =>
        have target := exprOfRole_stripped (f := .left) rfl rfl below
        have iterable := exprOfRole_stripped (f := .right) rfl rfl below
        have body := bodyOfRole_stripped .body cs rfl rfl below
        have otherwise := otherwiseOf_stripped cs (fun _ => rfl) below
        simp only [Tree.stripped,stmtOf,Stmt.unhinted]
        rw [target,iterable,body,otherwise]
      case whileStatement =>
        have condition := exprOfRole_stripped (f := .condition) rfl rfl below
        have body := bodyOfRole_stripped .body cs rfl rfl below
        have otherwise := otherwiseOf_stripped cs (fun _ => rfl) below
        simp only [Tree.stripped,stmtOf,Stmt.unhinted]
        rw [condition,body,otherwise]
      case tryStatement =>
        have body := bodyOfRole_stripped .body cs rfl rfl below
        have handlers := handlersOf_stripped cs (fun _ => rfl) below
        have otherwise := otherwiseOf_stripped cs (fun _ => rfl) below
        have final := finalOf_stripped cs (fun _ => rfl) below
        simp only [Tree.stripped,stmtOf,Stmt.unhinted]
        rw [body,handlers,otherwise,final]
      case withStatement =>
        have body := bodyOfRole_stripped .body cs rfl rfl below
        simp only [Tree.stripped,stmtOf,Stmt.unhinted]
        rw [withItems_stripped below,body]
      case matchStatement =>
        have subjects := exprsOfRole_stripped (f := .subject) (fun _ => rfl) rfl below
        have cases_ := casesIn_stripped cs below
        simp only [Tree.stripped,stmtOf,Stmt.unhinted]
        rw [subjects,cases_]
      all_goals cases held
theorem bodyOf_stripped {parent : Symbol} : ∀ ts : List Tree, (∀ f, parent.annotatedBy f = false) →
    settledBelow parent (fun _ => .statement) ts →
    unhintedBody (bodyOf (strippedBelow parent ts)) = unhintedBody (bodyOf ts)
  | [],_,_ => rfl
  | t :: ts,free,settled => by
    obtain ⟨own,later⟩ := settledBelow_cons.1 settled
    have same := stmtOf_stripped t (by simpa [free] using own)
    have ih := bodyOf_stripped ts free later
    rw [strippedBelow_cons,free,if_neg Bool.false_ne_true,bodyOf,bodyOf,isNamed_stripped]
    split
    · simp only [unhintedBody,same,ih]
    · exact ih
theorem bodyOfRole_stripped {parent : Symbol} {region : Option Field → Region} (f : Field) :
    ∀ ts : List Tree, parent.annotatedBy (some f) = false → region (some f) = .block →
      settledBelow parent region ts →
      unhintedBody (bodyOfRole f (strippedBelow parent ts)) = unhintedBody (bodyOfRole f ts)
  | [],_,_,_ => rfl
  | .node l cs :: ts,free,block,settled => by
    obtain ⟨own,later⟩ := settledBelow_cons.1 settled
    have ih := bodyOfRole_stripped f ts free block later
    rw [strippedBelow]
    by_cases role : l.field = some f
    · replace own : (Syntax.Tree.node l cs).settled .block := by simpa [role,free,block] using own
      simp only [role,free,Bool.false_eq_true,if_false,Tree.stripped,bodyOfRole,BEq.rfl,if_true]
      rcases stripped_or_holds own with same | ⟨held,_,_⟩
      · rw [show strippedBelow l.symbol cs = cs from congrArg Syntax.Tree.children same]
      · have symbol : l.symbol = .named .block := Region.symbol_of_holds (fun _ => rfl) held
        rw [symbol]
        exact bodyOf_stripped cs (fun _ => rfl) (settledBelow_of_settled symbol (fun _ => rfl) own)
    · have other : (l.field == some f) = false := beq_eq_false_iff_ne.2 role
      split <;> simpa [Tree.unwritten,Tree.stripped,bodyOfRole,other] using ih
theorem bodyOfBlocks_stripped {parent : Symbol} : ∀ ts : List Tree,
    (∀ f, parent.annotatedBy f = false) → settledBelow parent (fun _ => .block) ts →
    unhintedBody (bodyOfBlocks (strippedBelow parent ts)) = unhintedBody (bodyOfBlocks ts)
  | [],_,_ => rfl
  | .node l cs :: ts,free,settled => by
    obtain ⟨own,later⟩ := settledBelow_cons.1 settled
    have ih := bodyOfBlocks_stripped ts free later
    simp only [strippedBelow,free,Bool.false_eq_true,if_false,Tree.stripped,bodyOfBlocks]
    split
    · next symbol =>
      rw [beq_iff_eq] at symbol
      have below := settledBelow_of_settled symbol (fun _ => rfl) (by simpa [free] using own)
      rw [symbol,unhintedBody_append,unhintedBody_append,bodyOf_stripped cs (fun _ => rfl) below,ih]
    · exact ih
theorem decorated_stripped : ∀ ts : List Tree,
    settledBelow (.named .decoratedDefinition) (Region.belowStatement .decoratedDefinition) ts →
    (decorated (strippedBelow (.named .decoratedDefinition) ts)).unhinted = (decorated ts).unhinted
  | [],_ => rfl
  | .node l cs :: ts,settled => by
    obtain ⟨own,later⟩ := settledBelow_cons.1 settled
    have ih := decorated_stripped ts later
    have free : Symbol.annotatedBy (.named .decoratedDefinition) l.field = false := rfl
    simp only [strippedBelow,free,Bool.false_eq_true,if_false,Tree.stripped,decorated]
    split
    · next role =>
      replace own : (Syntax.Tree.node l cs).settled .definition := by
        simpa [beq_iff_eq.1 role,Symbol.annotatedBy,Region.belowStatement] using own
      rcases stripped_or_holds own with same | ⟨held,_,_⟩
      · rw [show strippedBelow l.symbol cs = cs from congrArg Syntax.Tree.children same]
      · obtain ⟨k,symbol,kind⟩ := Region.eq_definition held
        rw [Tree.symbol_node] at symbol
        rw [symbol]
        have below := settledBelow_of_settled symbol (fun _ => rfl) own
        have block : Region.belowStatement k (some .body) = .block := by
          rcases kind with rfl | rfl <;> rfl
        have free : Symbol.annotatedBy (.named k) (some .body) = false := by
          rcases kind with rfl | rfl <;> rfl
        exact definitionOf_stripped kind below (bodyOfRole_stripped .body cs free block below)
    · exact ih
theorem branchesOf_stripped {parent : Symbol} {region : Option Field → Region} : ∀ ts : List Tree,
    (∀ f, parent.annotatedBy f = false) → settledBelow parent region ts →
    unhintedBranches (branchesOf (strippedBelow parent ts)) = unhintedBranches (branchesOf ts)
  | [],_,_ => rfl
  | .node l cs :: ts,free,settled => by
    obtain ⟨own,later⟩ := settledBelow_cons.1 settled
    replace own := own.resolve_left (by simp [free])
    have ih := branchesOf_stripped ts free later
    simp only [strippedBelow,free,Bool.false_eq_true,if_false,Tree.stripped,branchesOf]
    split
    · next symbol =>
      rw [beq_iff_eq] at symbol
      have below := settledBelow_of_settled symbol (Region.below_clause rfl) own
      have condition := exprOfRole_stripped (f := .condition) rfl rfl below
      have body := bodyOfRole_stripped .consequence cs rfl rfl below
      rw [symbol,unhintedBranches,unhintedBranches,condition,body,ih]
    · split
      · next symbol =>
        rw [beq_iff_eq] at symbol
        have below := settledBelow_of_settled symbol (Region.below_clause rfl) own
        have body := bodyOfRole_stripped .body cs rfl rfl below
        rw [symbol,unhintedBranches,unhintedBranches,body,ih]
      · exact ih
theorem otherwiseOf_stripped {parent : Symbol} {region : Option Field → Region} : ∀ ts : List Tree,
    (∀ f, parent.annotatedBy f = false) → settledBelow parent region ts →
    unhintedBody (otherwiseOf (strippedBelow parent ts)) = unhintedBody (otherwiseOf ts)
  | [],_,_ => rfl
  | .node l cs :: ts,free,settled => by
    obtain ⟨own,later⟩ := settledBelow_cons.1 settled
    replace own := own.resolve_left (by simp [free])
    have ih := otherwiseOf_stripped ts free later
    simp only [strippedBelow,free,Bool.false_eq_true,if_false,Tree.stripped,otherwiseOf]
    split
    · next symbol =>
      rw [beq_iff_eq] at symbol
      have below := settledBelow_of_settled symbol (Region.below_clause rfl) own
      rw [symbol]
      exact bodyOfRole_stripped .body cs rfl rfl below
    · exact ih
theorem handlersOf_stripped {parent : Symbol} {region : Option Field → Region} : ∀ ts : List Tree,
    (∀ f, parent.annotatedBy f = false) → settledBelow parent region ts →
    unhintedHandlers (handlersOf (strippedBelow parent ts)) = unhintedHandlers (handlersOf ts)
  | [],_,_ => rfl
  | .node l cs :: ts,free,settled => by
    obtain ⟨own,later⟩ := settledBelow_cons.1 settled
    replace own := own.resolve_left (by simp [free])
    have ih := handlersOf_stripped ts free later
    simp only [strippedBelow,free,Bool.false_eq_true,if_false,Tree.stripped,handlersOf]
    split
    · next symbol =>
      rw [Bool.or_eq_true,beq_iff_eq,beq_iff_eq] at symbol
      rcases symbol with symbol | symbol
      all_goals
        have below := settledBelow_of_settled symbol (Region.below_clause rfl) own
        have items := handlerItems_stripped (fun _ => rfl) below
        have body := bodyOfBlocks_stripped cs (fun _ => rfl) below
        rw [symbol,unhintedHandlers,unhintedHandlers,items,body,ih]
    · exact ih
theorem finalOf_stripped {parent : Symbol} {region : Option Field → Region} : ∀ ts : List Tree,
    (∀ f, parent.annotatedBy f = false) → settledBelow parent region ts →
    unhintedBody (finalOf (strippedBelow parent ts)) = unhintedBody (finalOf ts)
  | [],_,_ => rfl
  | .node l cs :: ts,free,settled => by
    obtain ⟨own,later⟩ := settledBelow_cons.1 settled
    replace own := own.resolve_left (by simp [free])
    have ih := finalOf_stripped ts free later
    simp only [strippedBelow,free,Bool.false_eq_true,if_false,Tree.stripped,finalOf]
    split
    · next symbol =>
      rw [beq_iff_eq] at symbol
      have below := settledBelow_of_settled symbol (Region.below_clause rfl) own
      rw [symbol]
      exact bodyOfBlocks_stripped cs (fun _ => rfl) below
    · exact ih
theorem casesIn_stripped : ∀ ts : List Tree,
    settledBelow (.named .matchStatement) (Region.belowStatement .matchStatement) ts →
    unhintedCases (casesIn (strippedBelow (.named .matchStatement) ts)) = unhintedCases (casesIn ts)
  | [],_ => rfl
  | .node l cs :: ts,settled => by
    obtain ⟨own,later⟩ := settledBelow_cons.1 settled
    replace own := own.resolve_left Bool.false_ne_true
    have ih := casesIn_stripped ts later
    have free : Symbol.annotatedBy (.named .matchStatement) l.field = false := rfl
    simp only [strippedBelow,free,Bool.false_eq_true,if_false,Tree.stripped,casesIn]
    split
    · next symbol =>
      rw [beq_iff_eq] at symbol
      have below := settledBelow_of_settled symbol Region.below_case own
      have same := bodyOfBlocks_stripped cs (fun _ => rfl) below
      rw [symbol,unhintedCases,unhintedCases,casePatterns_stripped (fun _ => rfl) below,
        guardOf_stripped (fun _ => rfl) below,same,ih]
    · split
      · next symbol =>
        rw [beq_iff_eq] at symbol
        have below := settledBelow_of_settled symbol Region.below_cases own
        rw [symbol,unhintedCases_append,unhintedCases_append,casesOf_stripped cs below,ih]
      · exact ih
theorem casesOf_stripped : ∀ ts : List Tree, settledBelow (.named .block) (fun _ => .cases) ts →
    unhintedCases (casesOf (strippedBelow (.named .block) ts)) = unhintedCases (casesOf ts)
  | [],_ => rfl
  | .node l cs :: ts,settled => by
    obtain ⟨own,later⟩ := settledBelow_cons.1 settled
    replace own := own.resolve_left Bool.false_ne_true
    have ih := casesOf_stripped ts later
    have free : Symbol.annotatedBy (.named .block) l.field = false := rfl
    simp only [strippedBelow,free,Bool.false_eq_true,if_false,Tree.stripped,casesOf]
    split
    · next symbol =>
      rw [beq_iff_eq] at symbol
      have below := settledBelow_of_settled symbol Region.below_case own
      have same := bodyOfBlocks_stripped cs (fun _ => rfl) below
      rw [symbol,unhintedCases,unhintedCases,casePatterns_stripped (fun _ => rfl) below,
        guardOf_stripped (fun _ => rfl) below,same,ih]
    · exact ih
end

end Excerpt.Program

namespace Excerpt.Execution
open Excerpt.Program Excerpt.Syntax

/-- Sources that differ in annotations only are read as the same program without annotations. -/
theorem unhintedBody_of_stripped {root root' : Tree} (settled : root.settled .program)
    (settled' : root'.settled .program) (alike : root.stripped = root'.stripped) :
    unhintedBody (ofTree root) = unhintedBody (ofTree root') := by
  have read {t : Tree} (settled : t.settled .program) :
      unhintedBody (bodyOf t.stripped.children) = unhintedBody (ofTree t) := by
    rcases stripped_or_holds settled with same | ⟨held,_,below⟩
    · rw [same,ofTree]
    · have symbol : t.symbol = .named .program := Region.symbol_of_holds (fun _ => rfl) held
      rw [symbol] at below
      rw [children_stripped,symbol]
      exact bodyOf_stripped t.children (fun _ => rfl) below
  rw [← read settled,← read settled',alike]

/-- With lazy annotations the verdict on a source does not depend on its annotations: two sources that
differ in nothing else get the same verdict, whatever modules are known. -/
theorem verdict_of_lazy_annotations (known : List String) {source source' : Source}
    (lazy : isLazy (ofTree source.root)) (settled : source.root.settled .program)
    (settled' : source'.root.settled .program) (alike : source.root.stripped = source'.root.stripped) :
    runStatically known source = runStatically known source' := by
  have same := unhintedBody_of_stripped settled settled' alike
  have lazy' : isLazy (ofTree source'.root) := by
    rwa [← isLazy_unhinted,← same,isLazy_unhinted]
  rw [runStatically,runStatically,← run_unhinted known lazy,← run_unhinted known lazy',same]

/-- A function whose parameter, result and variable are annotated with a missing name is valid, and it
stays so with other annotations. -/
theorem verdict_of_lazy_annotations_function : ∃ source source',
    Source.read "from __future__ import annotations\ndef f(y: A) -> A: x: A = y\n" = .ok source ∧
    Source.read "from __future__ import annotations\ndef f(y: B) -> 0: x: f = y\n" = .ok source' ∧
    runStatically [] source = .valid ∧ runStatically [] source' = .valid := by
  have computed : (Source.read
      "from __future__ import annotations\ndef f(y: A) -> A: x: A = y\n").toOption.any fun source =>
    (Source.read
      "from __future__ import annotations\ndef f(y: B) -> 0: x: f = y\n").toOption.any fun source' =>
    isLazy (ofTree source.root) && source.root.settled .program && source'.root.settled .program &&
      source.root.stripped.alike (· == ·) source'.root.stripped &&
      decide (runStatically [] source = .valid) := by decide +kernel
  obtain ⟨source,read,computed⟩ := ok_of_any computed
  obtain ⟨source',read',computed⟩ := ok_of_any computed
  simp only [Bool.and_eq_true,decide_eq_true_eq] at computed
  obtain ⟨⟨⟨⟨lazy,settled⟩,settled'⟩,alike⟩,valid⟩ := computed
  have same := verdict_of_lazy_annotations [] lazy settled settled' (Tree.eq_of_alike alike)
  exact ⟨source,source',read,read',valid,same ▸ valid⟩

end Excerpt.Execution
