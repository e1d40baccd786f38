import Excerpt.Proofs.Mention
import Excerpt.Proofs.Placement

/-!
The names that stand in the expression of a tree are in use in the tree. Which identifiers count
as names is decided twice, once where trees become programs and once where names in use are
collected; the second never counts less.
-/
namespace Excerpt.Program
open Excerpt.Syntax

theorem exprsOf_eq_map : ∀ cs : List Tree, exprsOf cs = cs.map fun c => (c,exprOf c)
  | [] => rfl
  | c :: cs => by rw [exprsOf,List.map_cons,exprsOf_eq_map cs]

namespace Parts

variable {ps : Parts} {n : String} {f : Field}

theorem mem_all_names (shown : n ∈ namesAll ps.all) :
    ∃ p ∈ ps, p.1.isNamed ∧ n ∈ p.2.names := by
  obtain ⟨e,member,inside⟩ := mem_namesAll.1 shown
  obtain ⟨p,kept,rfl⟩ := List.mem_map.1 member
  obtain ⟨among,named⟩ := List.mem_filter.1 kept
  exact ⟨p,among,named,inside⟩

theorem items_subset_all : ps.items ⊆ ps.all := by
  intro e member
  obtain ⟨p,kept,rfl⟩ := List.mem_map.1 member
  obtain ⟨among,named⟩ := List.mem_filter.1 kept
  exact List.mem_map.2 ⟨p,List.mem_filter.2 ⟨among,(Bool.and_eq_true_iff.1 named).1⟩,rfl⟩

theorem itemsBut_subset_all : ps.itemsBut f ⊆ ps.all := by
  intro e member
  obtain ⟨p,kept,rfl⟩ := List.mem_map.1 member
  obtain ⟨among,named⟩ := List.mem_filter.1 kept
  simp only [Bool.and_eq_true] at named
  exact List.mem_map.2 ⟨p,List.mem_filter.2 ⟨among,named.1.1⟩,rfl⟩

theorem mem_role_of_eq_some {e : Expr} (found : ps.role? f = some e) :
    ∃ p ∈ ps, p.1.field = some f ∧ p.2 = e := by
  obtain ⟨p,first,rfl⟩ := Option.map_eq_some_iff.1 found
  exact ⟨p,List.mem_of_find?_eq_some first,by simpa using List.find?_some first,rfl⟩

theorem mem_role_names (shown : n ∈ (ps.role f).names) :
    ∃ p ∈ ps, p.1.field = some f ∧ n ∈ p.2.names := by
  unfold role at shown
  cases found : ps.role? f with
  | none => simp [found,Expr.names] at shown
  | some e =>
    obtain ⟨p,member,role,rfl⟩ := mem_role_of_eq_some found
    exact ⟨p,member,role,by simpa [found] using shown⟩

end Parts

theorem namesAll_mono {es fs : List Expr} (included : es ⊆ fs) : namesAll es ⊆ namesAll fs := by
  intro n shown
  obtain ⟨e,member,inside⟩ := mem_namesAll.1 shown
  exact mem_namesAll.2 ⟨e,included member,inside⟩

theorem mem_headD_names {n : String} {es : List Expr} (shown : n ∈ (es.headD .blank).names) :
    n ∈ namesAll es := by
  cases es with
  | nil => simp [Expr.names] at shown
  | cons e es => exact List.mem_append_left _ shown

/-- Every name of the expression of a node, other than the node itself, stands in one of its
parts. -/
theorem mem_names_of_assemble {n : String} {t : Tree} {ps : Parts}
    (other : t.kind? ≠ some .identifier) (shown : n ∈ (assemble t ps).names) :
    ∃ p ∈ ps, n ∈ p.2.names := by
  have all (inside : n ∈ namesAll ps.all) : ∃ p ∈ ps, n ∈ p.2.names := by
    obtain ⟨p,member,_,inside⟩ := Parts.mem_all_names inside
    exact ⟨p,member,inside⟩
  have items (inside : n ∈ namesAll ps.items) := all (namesAll_mono Parts.items_subset_all inside)
  have head (inside : n ∈ (ps.items.headD .blank).names) := items (mem_headD_names inside)
  have first (inside : n ∈ (ps.all.headD .blank).names) := all (mem_headD_names inside)
  have others (f : Field) (inside : n ∈ namesAll (ps.itemsBut f)) :=
    all (namesAll_mono Parts.itemsBut_subset_all inside)
  have role (f : Field) (inside : n ∈ (ps.role f).names) : ∃ p ∈ ps, n ∈ p.2.names := by
    obtain ⟨p,member,_,inside⟩ := Parts.mem_role_names inside
    exact ⟨p,member,inside⟩
  have role? (f : Field) (inside : n ∈ namesOf (ps.role? f)) : ∃ p ∈ ps, n ∈ p.2.names := by
    obtain ⟨e,found,inside⟩ := mem_namesOf.1 inside
    obtain ⟨p,member,_,rfl⟩ := Parts.mem_role_of_eq_some found
    exact ⟨p,member,inside⟩
  unfold assemble at shown
  split at shown
  case h_1 same => exact absurd same other
  all_goals try split at shown
  all_goals try simp only [Expr.names,List.mem_append,List.not_mem_nil] at shown
  all_goals grind [namesAll]

theorem mem_namesInAll {n : String} {cs : List Tree} :
    n ∈ namesInAll cs ↔ ∃ c ∈ cs, c.isNamed ∧ n ∈ namesIn c := by
  induction cs with
  | nil => simp [namesInAll]
  | cons c cs ih =>
    rw [namesInAll,List.mem_append,ih]
    cases named : c.isNamed <;> simp [named]

/-- Only a child in the role of a name can be left out. -/
theorem mem_namesInUnnamed {n : String} {cs : List Tree} {c : Tree} (member : c ∈ cs)
    (role : c.field ≠ some .name) (named : c.isNamed) (inside : n ∈ namesIn c) :
    n ∈ namesInUnnamed cs := by
  induction cs with
  | nil => cases member
  | cons d ds ih =>
    rw [namesInUnnamed]
    split
    · next own =>
      refine mem_namesInAll.2 ⟨c,?_,named,inside⟩
      exact (List.mem_cons.1 member).resolve_left fun same => role (by simpa [same] using own)
    · rcases List.mem_cons.1 member with rfl | later
      · simp [named,inside]
      · exact List.mem_append_right _ (ih later)

/-- Kinds below which every name counts. -/
def isTransparent (k : Kind) : Bool :=
  !(k == .identifier || k == .member || k == .dottedName || carriesName k || hidesNames k)

/-- Only four kinds that can be evaluated hide names below them. -/
theorem kind_of_not_transparent (k : Kind) : isTransparent k = false → !k.isStructure →
    k = .identifier ∨ k = .member ∨ k = .dottedName ∨ k = .keywordArgument := by
  cases k <;> decide

theorem namesIn_of_transparent {t : Tree} {k : Kind} (symbol : t.symbol = .named k)
    (open_ : isTransparent k) : namesIn t = namesInAll t.children := by
  obtain ⟨l,cs⟩ := t
  have symbol : l.symbol = .named k := symbol
  simp only [isTransparent,Bool.not_eq_true',Bool.or_eq_false_iff] at open_
  simp [namesIn,symbol,open_,Tree.children]

theorem exprOf_extra {t : Tree} {k : Kind} (symbol : t.symbol = .named k) (extra : k.isExtra) :
    exprOf t = .blank := by
  obtain ⟨l,cs⟩ := t
  have symbol : l.symbol = .named k := symbol
  cases k <;> cases extra <;>
    simp [exprOf,symbol,isComprehension,assemble,Tree.kind?,Tree.symbol,Tree.label]

theorem exprOf_token {t : Tree} (token : t.isNamed = false) :
    exprOf t = assemble t (exprsOf t.children) := by
  obtain ⟨l,cs⟩ := t
  cases symbol : l.symbol with
  | named k => simp [Tree.isNamed,Tree.symbol,Tree.label,symbol] at token
  | token spelling => simp [exprOf,symbol,Tree.children]

/-- No name stands in a token. -/
theorem names_of_token {p : Place} (t : Tree) (placed : t.fits p) (token : t.isNamed = false) :
    (exprOf t).names = [] := by
  have symbol : ∃ spelling, t.symbol = .token spelling := by
    cases symbol : t.symbol with
    | named k => simp [Tree.isNamed,symbol] at token
    | token spelling => exact ⟨spelling,rfl⟩
  obtain ⟨spelling,symbol⟩ := symbol
  rw [List.eq_nil_iff_forall_not_mem]
  intro n shown
  rw [exprOf_token token,exprsOf_eq_map] at shown
  obtain ⟨q,member,shown⟩ := mem_names_of_assemble (by simp [Tree.kind?,symbol]) shown
  obtain ⟨c,among,rfl⟩ := List.mem_map.1 member
  have placed : c.fits .token := by
    simpa [symbol,Place.below] using (Tree.fits_iff.1 placed).2 c among
  cases kind : c.symbol with
  | named k =>
    have extra := (Tree.fits_iff.1 placed).1
    rw [kind] at extra
    simp [exprOf_extra kind extra,Expr.names] at shown
  | token inner =>
    have := Tree.sizeOf_lt_of_mem among
    simp [names_of_token c placed (by simp [Tree.isNamed,kind])] at shown
termination_by sizeOf t

/-- What a parameter with parts of its own is made of. -/
def hasParts (t : Tree) : Bool :=
  t.is .defaultParameter || t.is .typedDefaultParameter || t.is .typedParameter

/-- A name shows in a node, or in a child of a node that is taken apart. -/
def ShowsIn (n : String) (apart : Tree → Bool) (c : Tree) : Prop :=
  n ∈ (exprOf c).names ∨ apart c ∧ ∃ d ∈ c.children, n ∈ (exprOf d).names

theorem mem_defaultParameter {n : String} {c : Tree}
    (shown : n ∈ parameterNames [defaultParameter c]) : ∃ d ∈ c.children, n ∈ (exprOf d).names := by
  obtain ⟨l,cs⟩ := c
  simp only [defaultParameter,exprsOf_eq_map,parameterNames,List.append_nil,List.mem_append,
    mem_namesOf] at shown
  rcases shown with (⟨e,found,inside⟩ | ⟨e,found,inside⟩) | ⟨e,found,inside⟩
  all_goals
    obtain ⟨q,member,_,rfl⟩ := Parts.mem_role_of_eq_some found
    obtain ⟨d,among,rfl⟩ := List.mem_map.1 member
    exact ⟨d,among,inside⟩

theorem mem_typedParameter {n : String} {c : Tree}
    (shown : n ∈ parameterNames [typedParameter c]) : ∃ d ∈ c.children, n ∈ (exprOf d).names := by
  obtain ⟨l,cs⟩ := c
  simp only [typedParameter,exprsOf_eq_map,parameterNames,namesOf,List.append_nil,List.mem_append,
    mem_namesOf] at shown
  rcases shown with ⟨e,found,inside⟩ | ⟨e,found,inside⟩
  · have member := List.mem_of_mem_head? found
    obtain ⟨q,kept,rfl⟩ := List.mem_map.1 member
    obtain ⟨d,among,rfl⟩ := List.mem_map.1 (List.mem_filter.1 kept).1
    exact ⟨d,among,inside⟩
  · obtain ⟨q,member,_,rfl⟩ := Parts.mem_role_of_eq_some found
    obtain ⟨d,among,rfl⟩ := List.mem_map.1 member
    exact ⟨d,among,inside⟩

theorem parameterNames_cons (p : Parameter) (ps : List Parameter) :
    parameterNames (p :: ps) = parameterNames [p] ++ parameterNames ps := by
  obtain ⟨target,hint,default⟩ := p
  simp [parameterNames]

theorem mem_parametersOf {n : String} {cs : List Tree}
    (shown : n ∈ parameterNames (parametersOf cs)) :
    ∃ c ∈ cs, c.isNamed ∧ ShowsIn n hasParts c := by
  induction cs with
  | nil => simp [parametersOf,parameterNames] at shown
  | cons c cs ih =>
    have later (shown : n ∈ parameterNames (parametersOf cs)) :
        ∃ d ∈ c :: cs, d.isNamed ∧ ShowsIn n hasParts d := by
      obtain ⟨d,member,rest⟩ := ih shown
      exact ⟨d,List.mem_cons_of_mem _ member,rest⟩
    have named {k : Kind} (is : c.is k) : c.isNamed := by
      simp only [Tree.is,beq_iff_eq] at is
      simp [Tree.isNamed,is]
    rw [parametersOf] at shown
    split at shown
    · next plain =>
      rw [parameterNames_cons,List.mem_append] at shown
      refine shown.elim (fun own => ⟨c,List.mem_cons_self,?_,.inl ?_⟩) later
      · simp only [isPlainParameter,Bool.or_eq_true] at plain
        rcases plain with ((is | is) | is) | is <;> exact named is
      · simpa [parameterNames,namesOf] using own
    · split at shown
      · next default =>
        rw [parameterNames_cons,List.mem_append] at shown
        refine shown.elim (fun own => ⟨c,List.mem_cons_self,?_,.inr ⟨?_,mem_defaultParameter own⟩⟩)
          later
        · simp only [isDefaultParameter,Bool.or_eq_true] at default
          exact default.elim named named
        · simp only [isDefaultParameter] at default
          simp [hasParts,default]
      · split at shown
        · next typed =>
          rw [parameterNames_cons,List.mem_append] at shown
          exact shown.elim (fun own => ⟨c,List.mem_cons_self,named typed,
            .inr ⟨by simp [hasParts,typed],mem_typedParameter own⟩⟩) later
        · exact later shown

theorem mem_parametersOfRole {n : String} {cs : List Tree}
    (shown : n ∈ parameterNames (parametersOfRole cs)) :
    ∃ c ∈ cs, c.field = some .parameters ∧ n ∈ parameterNames (parametersOf c.children) := by
  induction cs with
  | nil => simp [parametersOfRole,parameterNames] at shown
  | cons c cs ih =>
    obtain ⟨l,ds⟩ := c
    rw [parametersOfRole] at shown
    split at shown
    · next role => exact ⟨.node l ds,List.mem_cons_self,beq_iff_eq.1 role,shown⟩
    · obtain ⟨d,member,rest⟩ := ih shown
      exact ⟨d,List.mem_cons_of_mem _ member,rest⟩

theorem mem_exprOfRole {n : String} {f : Field} {cs : List Tree}
    (shown : n ∈ namesOf (exprOfRole f cs)) :
    ∃ c ∈ cs, c.field = some f ∧ n ∈ (exprOf c).names := by
  induction cs with
  | nil => simp [exprOfRole,namesOf] at shown
  | cons c cs ih =>
    rw [exprOfRole] at shown
    split at shown
    · next role => exact ⟨c,List.mem_cons_self,beq_iff_eq.1 role,shown⟩
    · obtain ⟨d,member,rest⟩ := ih shown
      exact ⟨d,List.mem_cons_of_mem _ member,rest⟩

theorem mem_namesOf_of_getD {n : String} {e? : Option Expr} (shown : n ∈ (e?.getD .blank).names) :
    n ∈ namesOf e? := by
  cases e? with
  | none => simp [Expr.names] at shown
  | some e => exact shown

theorem mem_exprsOfRole {n : String} {f : Field} {cs : List Tree}
    (shown : n ∈ namesAll (exprsOfRole f cs)) :
    ∃ c ∈ cs, c.field = some f ∧ n ∈ (exprOf c).names := by
  induction cs with
  | nil => simp [exprsOfRole,namesAll] at shown
  | cons c cs ih =>
    have later (shown : n ∈ namesAll (exprsOfRole f cs)) :
        ∃ d ∈ c :: cs, d.field = some f ∧ n ∈ (exprOf d).names := by
      obtain ⟨d,member,rest⟩ := ih shown
      exact ⟨d,List.mem_cons_of_mem _ member,rest⟩
    rw [exprsOfRole] at shown
    split at shown
    · next found =>
      have role := beq_iff_eq.1 (Bool.and_eq_true_iff.1 found).1
      exact (List.mem_append.1 shown).elim (fun own => ⟨c,List.mem_cons_self,role,own⟩) later
    · exact later shown

theorem mem_partsOf {n : String} {cs : List Tree} (shown : n ∈ partNames (partsOf cs)) :
    ∃ c ∈ cs, c.isNamed ∧ ShowsIn n (·.is .forInClause) c := by
  induction cs with
  | nil => simp [partsOf,partNames] at shown
  | cons c cs ih =>
    have later (shown : n ∈ partNames (partsOf cs)) :
        ∃ d ∈ c :: cs, d.isNamed ∧ ShowsIn n (·.is .forInClause) d := by
      obtain ⟨d,member,rest⟩ := ih shown
      exact ⟨d,List.mem_cons_of_mem _ member,rest⟩
    rw [partsOf] at shown
    split at shown
    · next clause =>
      obtain ⟨l,ds⟩ := c
      simp only [clauseOf,partNames,List.mem_append] at shown
      have named : (Syntax.Tree.node l ds).isNamed := by
        simp only [Tree.is,beq_iff_eq] at clause
        simp [Tree.isNamed,clause]
      rcases shown with (target | iterable) | rest
      · obtain ⟨d,member,_,inside⟩ := mem_exprOfRole (mem_namesOf_of_getD target)
        exact ⟨_,List.mem_cons_self,named,.inr ⟨clause,d,member,inside⟩⟩
      · obtain ⟨d,member,_,inside⟩ := mem_exprsOfRole iterable
        exact ⟨_,List.mem_cons_self,named,.inr ⟨clause,d,member,inside⟩⟩
      · exact later rest
    · split at shown
      · next named =>
        simp only [partNames,List.mem_append] at shown
        exact shown.elim
          (fun own => ⟨c,List.mem_cons_self,(Bool.and_eq_true_iff.1 named).1,.inl own⟩) later
      · exact later shown

/-- Below what is evaluated, everything could be evaluated. -/
theorem fits_operand_of_mem {t c : Tree} (placed : t.fits .operand) (named : t.isNamed)
    (member : c ∈ t.children) : c.fits .operand := by
  obtain ⟨allowed,below⟩ := Tree.fits_iff.1 placed
  have placed := below c member
  cases symbol : t.symbol with
  | token spelling => simp [Tree.isNamed,symbol] at named
  | named k =>
    rw [symbol] at allowed placed
    rw [Place.below_operand allowed] at placed
    unfold Place.belowOperand at placed
    split at placed
    · exact fits_operand_of_parameters placed
    · exact placed

/-- If a name stands in the expression of a node, then the node is a construct in which the name is
in use. -/
def Counted (n : String) (t : Tree) : Prop :=
  t.fits .operand → n ∈ (exprOf t).names → t.isNamed ∧ n ∈ namesIn t

theorem mem_namesIn_of_child {n : String} {t c : Tree} {k : Kind} (symbol : t.symbol = .named k)
    (open_ : isTransparent k) (member : c ∈ t.children) (inside : c.isNamed ∧ n ∈ namesIn c) :
    n ∈ namesIn t := by
  rw [namesIn_of_transparent symbol open_]
  exact mem_namesInAll.2 ⟨c,member,inside⟩

theorem mem_namesIn_of_showsIn {n : String} {apart : Tree → Bool} {t : Tree}
    (open_ : apart t → ∃ k, t.symbol = .named k ∧ isTransparent k) (placed : t.fits .operand)
    (named : t.isNamed) (counted : ∀ u, sizeOf u ≤ sizeOf t → Counted n u)
    (shown : ShowsIn n apart t) : n ∈ namesIn t := by
  rcases shown with own | ⟨opened,c,member,inside⟩
  · exact (counted t (Nat.le_refl _) placed own).2
  · obtain ⟨k,symbol,open_⟩ := open_ opened
    exact mem_namesIn_of_child symbol open_ member
      (counted c (Nat.le_of_lt (Tree.sizeOf_lt_of_mem member))
        (fits_operand_of_mem placed named member) inside)

theorem hasParts_open {t : Tree} (parts : hasParts t) :
    ∃ k, t.symbol = .named k ∧ isTransparent k := by
  simp only [hasParts,Tree.is,Bool.or_eq_true,beq_iff_eq] at parts
  rcases parts with (symbol | symbol) | symbol <;> exact ⟨_,symbol,rfl⟩

/-- The names of parameters are in use in the node that holds them. -/
theorem mem_namesIn_of_parameters {n : String} {t : Tree} (placed : t.fits .parameters)
    (counted : ∀ u, sizeOf u < sizeOf t → Counted n u)
    (shown : n ∈ parameterNames (parametersOf t.children)) : t.isNamed ∧ n ∈ namesIn t := by
  have kind : ∃ k, t.symbol = .named k ∧ isTransparent k := by
    have allowed := (Tree.fits_iff.1 placed).1
    cases symbol : t.symbol with
    | token spelling => simp [symbol,Place.allows,Place.allowsTokens] at allowed
    | named k =>
      simp only [symbol,Place.allows,Place.allowsKind,Bool.or_eq_true,beq_iff_eq] at allowed
      rcases allowed with rfl | rfl <;> exact ⟨_,rfl,rfl⟩
  obtain ⟨k,symbol,open_⟩ := kind
  have named : t.isNamed := by simp [Tree.isNamed,symbol]
  obtain ⟨c,member,inner,shows⟩ := mem_parametersOf shown
  refine ⟨named,mem_namesIn_of_child symbol open_ member ⟨inner,?_⟩⟩
  refine mem_namesIn_of_showsIn hasParts_open
    (fits_operand_of_mem (fits_operand_of_parameters placed) named member) inner (fun u small => ?_)
    shows
  exact counted u (Nat.lt_of_le_of_lt small (Tree.sizeOf_lt_of_mem member))

theorem mem_namesInObject {n : String} {cs : List Tree}
    (shown : n ∈ ((exprsOf cs).role .object).names)
    (counted : ∀ c ∈ cs, n ∈ (exprOf c).names → c.isNamed ∧ n ∈ namesIn c) :
    n ∈ namesInObject cs := by
  rw [exprsOf_eq_map] at shown
  induction cs with
  | nil => simp [Parts.role,Parts.role?,Expr.names] at shown
  | cons c cs ih =>
    rw [namesInObject]
    split
    · next role =>
      refine (counted c List.mem_cons_self ?_).2
      simpa [Parts.role,Parts.role?,role] using shown
    · next role =>
      refine ih ?_ fun d member => counted d (List.mem_cons_of_mem _ member)
      simpa [Parts.role,Parts.role?,role] using shown

theorem mem_namesInFirst {n : String} {cs : List Tree}
    (shown : n ∈ ((exprsOf cs).all.headD .blank).names)
    (counted : ∀ c ∈ cs, n ∈ (exprOf c).names → c.isNamed ∧ n ∈ namesIn c) :
    n ∈ namesInFirst cs := by
  rw [exprsOf_eq_map] at shown
  induction cs with
  | nil => simp [Parts.all,Expr.names] at shown
  | cons c cs ih =>
    rw [namesInFirst]
    split
    · next named =>
      refine (counted c List.mem_cons_self ?_).2
      simpa [Parts.all,named] using shown
    · next token =>
      refine ih ?_ fun d member => counted d (List.mem_cons_of_mem _ member)
      simpa [Parts.all,token] using shown

theorem mem_namesIn_of_assemble {n : String} {t : Tree} {k : Kind} (symbol : t.symbol = .named k)
    (placed : t.fits .operand)
    (counted : ∀ c ∈ t.children, n ∈ (exprOf c).names → c.isNamed ∧ n ∈ namesIn c)
    (shown : n ∈ (assemble t (exprsOf t.children)).names) : n ∈ namesIn t := by
  obtain ⟨l,cs⟩ := t
  have own : l.symbol = .named k := symbol
  have kind : (Syntax.Tree.node l cs).kind? = some k := by simp [Tree.kind?,symbol]
  cases open_ : isTransparent k with
  | true =>
    have other : k ≠ .identifier := by rintro rfl; cases open_
    obtain ⟨q,member,inside⟩ := mem_names_of_assemble (by simpa [kind] using other) shown
    rw [exprsOf_eq_map] at member
    obtain ⟨c,among,rfl⟩ := List.mem_map.1 member
    exact mem_namesIn_of_child symbol open_ among (counted c among inside)
  | false =>
    have allowed : !k.isStructure := by
      have allowed := (Tree.fits_iff.1 placed).1
      rwa [symbol] at allowed
    unfold assemble at shown
    rcases kind_of_not_transparent k open_ allowed with rfl | rfl | rfl | rfl <;>
      simp only [kind] at shown
    · simpa [namesIn,own,Expr.names] using shown
    · simpa [namesIn,own] using mem_namesInObject shown counted
    · simpa [namesIn,own] using mem_namesInFirst shown counted
    · obtain ⟨q,member,role,inside⟩ := Parts.mem_role_names shown
      rw [exprsOf_eq_map] at member
      obtain ⟨c,among,rfl⟩ := List.mem_map.1 member
      obtain ⟨named,inside⟩ := counted c among inside
      have unnamed := mem_namesInUnnamed among (by simp [role]) named inside
      simpa [namesIn,own,carriesName] using unnamed

/-- A name that stands in the expression of a node is in use in the node. -/
theorem exprOf_counted {n : String} (t : Tree) : Counted n t := by
  intro placed shown
  cases named : t.isNamed with
  | false => simp [names_of_token t placed named] at shown
  | true =>
  refine ⟨rfl,?_⟩
  have counted (u : Tree) (small : sizeOf u < sizeOf t) : Counted n u := exprOf_counted u
  have operand {c : Tree} (member : c ∈ t.children) := fits_operand_of_mem placed named member
  have child {c : Tree} (member : c ∈ t.children) (inside : n ∈ (exprOf c).names) :
      c.isNamed ∧ n ∈ namesIn c :=
    counted c (Tree.sizeOf_lt_of_mem member) (operand member) inside
  cases symbol : t.symbol with
  | token spelling => simp [Tree.isNamed,symbol] at named
  | named k =>
  have read : exprOf t = if k == .lambda then
      .lambda (parametersOfRole t.children) ((exprOfRole .body t.children).getD .blank)
      else if isComprehension k then .comprehension (partsOf t.children)
      else assemble t (exprsOf t.children) := by
    obtain ⟨l,cs⟩ := t
    have own : l.symbol = .named k := symbol
    simp only [exprOf,own]
    rfl
  rw [read] at shown
  split at shown
  · next lambda =>
    obtain rfl := beq_iff_eq.1 lambda
    rcases List.mem_append.1 shown with parameter | body
    · obtain ⟨c,member,role,inside⟩ := mem_parametersOfRole parameter
      have below := (Tree.fits_iff.1 placed).2 c member
      rw [symbol,role] at below
      exact mem_namesIn_of_child symbol rfl member (mem_namesIn_of_parameters below
        (fun u small => counted u (Nat.lt_trans small (Tree.sizeOf_lt_of_mem member))) inside)
    · obtain ⟨c,member,_,inside⟩ := mem_exprOfRole (mem_namesOf_of_getD body)
      exact mem_namesIn_of_child symbol rfl member (child member inside)
  · split at shown
    · next comprehension =>
      have open_ : isTransparent k := by
        simp only [isComprehension,Bool.or_eq_true,beq_iff_eq] at comprehension
        rcases comprehension with ((rfl | rfl) | rfl) | rfl <;> rfl
      obtain ⟨c,member,inner,shows⟩ := mem_partsOf shown
      refine mem_namesIn_of_child symbol open_ member ⟨inner,?_⟩
      refine mem_namesIn_of_showsIn (fun clause => ⟨_,beq_iff_eq.1 clause,rfl⟩) (operand member)
        inner (fun u small => ?_) shows
      exact counted u (Nat.lt_of_le_of_lt small (Tree.sizeOf_lt_of_mem member))
    · exact mem_namesIn_of_assemble symbol placed (fun c => child) shown
termination_by sizeOf t

end Excerpt.Program
