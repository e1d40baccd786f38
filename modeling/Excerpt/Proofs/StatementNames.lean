import Excerpt.Proofs.ExpressionNames

/-!
The names that stand in the statement of a tree are in use in the tree.
-/
namespace Excerpt.Program
open Excerpt.Syntax

/-- Outside patterns and tokens, whatever is no structure can be evaluated. -/
theorem fits_operand {p : Place} {t : Tree} (pattern : p ≠ .pattern) (token : p ≠ .token)
    (ordinary : ∀ k, t.symbol = .named k → k.isStructure = false) (placed : t.fits p) :
    t.fits .operand := by
  obtain ⟨allowed,below⟩ := Tree.fits_iff.1 placed
  refine Tree.fits_iff.2 ?_
  cases symbol : t.symbol with
  | token spelling =>
    rw [symbol] at below
    exact ⟨rfl,below⟩
  | named k =>
    have ordinary := ordinary k symbol
    rw [symbol] at allowed below
    have operand : Place.allowsKind .operand k := by simp [Place.allowsKind,ordinary]
    refine ⟨operand,fun c member => ?_⟩
    have placed := below c member
    simp only [Place.below] at placed ⊢
    rw [Place.below_ordinary ordinary pattern token allowed] at placed
    rwa [Place.below_ordinary ordinary (by simp) (by simp) operand]

theorem fits_operand_of_is {p : Place} {t : Tree} {k : Kind} (pattern : p ≠ .pattern)
    (token : p ≠ .token) (is : t.is k) (ordinary : k.isStructure = false) (placed : t.fits p) :
    t.fits .operand := by
  refine fits_operand pattern token (fun own symbol => ?_) placed
  obtain rfl : k = own := by
    have same := beq_iff_eq.1 is
    rw [symbol] at same
    exact (Symbol.named.inj same).symm
  exact ordinary

theorem bodyNames_append (ss ts : List Stmt) : bodyNames (ss ++ ts) = bodyNames ss ++ bodyNames ts := by
  induction ss with
  | nil => rfl
  | cons s ss ih => simp [bodyNames,ih]

theorem caseNames_append (cs ds : List Case) : caseNames (cs ++ ds) = caseNames cs ++ caseNames ds := by
  induction cs with
  | nil => rfl
  | cons c cs ih =>
    obtain ⟨patterns,condition,body⟩ := c
    simp [caseNames,ih]

def loads (ps : List PatternName) : List String := ps.filterMap PatternName.loaded?

@[simp] theorem loads_append (ps qs : List PatternName) : loads (ps ++ qs) = loads ps ++ loads qs :=
  List.filterMap_append

mutual
theorem loadedName_counted {n : String} : ∀ t : Tree, n ∈ loads (loadedName t) → n ∈ namesIn t
  | .node l cs, shown => by
    unfold loadedName at shown
    split at shown
    · next own => simpa [loads,PatternName.loaded?,namesIn,own] using shown
    · next own => simpa [namesIn,own] using loadedNames_counted cs shown
    · simp [loads] at shown
theorem loadedNames_counted {n : String} :
    ∀ cs : List Tree, n ∈ loads (loadedNames cs) → n ∈ namesInFirst cs
  | [], shown => by simp [loadedNames,loads] at shown
  | c :: cs, shown => by
    rw [loadedNames] at shown
    rw [namesInFirst]
    cases named : c.isNamed with
    | true =>
      simp only [named,if_true] at shown ⊢
      exact loadedName_counted c shown
    | false =>
      simp only [named,Bool.false_eq_true,if_false] at shown ⊢
      exact loadedNames_counted cs shown
end

/-- Below a pattern stand patterns, except in strings, and below a token nothing that counts. -/
theorem fits_pattern_of_mem {p : Place} {t c : Tree} (place : p = .pattern ∨ p = .token)
    (literal : !(t.is .string || t.is .concatenatedString)) (placed : t.fits p)
    (member : c ∈ t.children) : ∃ q, (q = .pattern ∨ q = .token) ∧ c.fits q := by
  have below := (Tree.fits_iff.1 placed).2 c member
  simp only [Bool.not_eq_true',Bool.or_eq_false_iff,Tree.is] at literal
  cases symbol : t.symbol with
  | token spelling =>
    rw [symbol] at below
    exact ⟨.token,.inr rfl,below⟩
  | named k =>
    simp only [symbol,beq_eq_false_iff_ne,ne_eq,Symbol.named.injEq] at literal
    rw [symbol] at below
    rcases place with rfl | rfl
    · refine ⟨.pattern,.inl rfl,?_⟩
      simpa [Place.below,Place.belowKind,literal] using below
    · exact ⟨.token,.inr rfl,below⟩

/-- A construct in a pattern is a name, a path, or lets all names count. -/
theorem isTransparent_of_pattern {p : Place} {k : Kind} (place : p = .pattern ∨ p = .token)
    (allowed : p.allowsKind k) (name : k ≠ .identifier) (path : k ≠ .dottedName) :
    isTransparent k := by
  have either : k.isExtra ∨ k.isPattern := by
    rcases place with rfl | rfl
    · simpa [Place.allowsKind] using allowed
    · exact .inl allowed
  cases k <;> simp_all [Kind.isExtra,Kind.isPattern,isTransparent,carriesName,hidesNames]

mutual
/-- The names that a pattern looks up are in use in it. -/
theorem patternNames_counted {n : String} {p : Place} (place : p = .pattern ∨ p = .token) :
    ∀ t : Tree, t.fits p → n ∈ loads (patternNames t) → n ∈ namesIn t
  | .node l cs, placed, shown => by
    have allowed := (Tree.fits_iff.1 placed).1
    have below (literal : !((Syntax.Tree.node l cs).is .string || (Syntax.Tree.node l cs).is .concatenatedString))
        (c : Tree) (member : c ∈ cs) := fits_pattern_of_mem place literal placed member
    unfold patternNames at shown
    split at shown
    · next own =>
      split at shown
      · split at shown <;> simp [loads,PatternName.loaded?] at shown
      · simpa [namesIn,own] using loadedNames_counted cs shown
    · simp [loads,PatternName.loaded?] at shown
    · next own =>
      rw [namesIn_of_transparent (t := .node l cs) own rfl]
      exact classPatternNames_counted cs (below (by simp [Tree.is,own])) shown
    · next own =>
      rw [namesIn_of_transparent (t := .node l cs) own rfl]
      exact keywordPatternNames_counted cs (below (by simp [Tree.is,own])) shown
    · simp [loads] at shown
    · simp [loads] at shown
    · simp [loads] at shown
    · simp [loads] at shown
    · next path name _ _ string strings _ _ =>
      have literal : !((Syntax.Tree.node l cs).is .string || (Syntax.Tree.node l cs).is .concatenatedString) := by
        simp [Tree.is,show l.symbol ≠ _ from string,show l.symbol ≠ _ from strings]
      have inside := patternNamesAll_counted cs (below literal) shown
      cases symbol : l.symbol with
      | token spelling => simpa [namesIn,symbol] using inside
      | named k =>
        rw [Tree.symbol_node,symbol] at allowed
        have open_ := isTransparent_of_pattern place allowed (by rintro rfl; exact name symbol)
          (by rintro rfl; exact path symbol)
        rwa [namesIn_of_transparent (t := .node l cs) symbol open_]
theorem patternNamesAll_counted {n : String} : ∀ cs : List Tree,
    (∀ c ∈ cs, ∃ q, (q = .pattern ∨ q = .token) ∧ c.fits q) →
    n ∈ loads (patternNamesAll cs) → n ∈ namesInAll cs
  | [], _, shown => by simp [patternNamesAll,loads] at shown
  | c :: cs, placed, shown => by
    obtain ⟨q,place,own⟩ := placed c List.mem_cons_self
    simp only [patternNamesAll,loads_append,List.mem_append] at shown
    simp only [namesInAll,List.mem_append]
    refine shown.imp (fun inside => ?_) fun later =>
      patternNamesAll_counted cs (fun d member => placed d (List.mem_cons_of_mem _ member)) later
    split at inside
    · next named => simpa [named] using patternNames_counted place c own inside
    · simp [loads] at inside
theorem classPatternNames_counted {n : String} : ∀ cs : List Tree,
    (∀ c ∈ cs, ∃ q, (q = .pattern ∨ q = .token) ∧ c.fits q) →
    n ∈ loads (classPatternNames cs) → n ∈ namesInAll cs
  | [], _, shown => by simp [classPatternNames,loads] at shown
  | c :: cs, placed, shown => by
    rw [classPatternNames] at shown
    simp only [namesInAll,List.mem_append]
    have later := fun d member => placed d (List.mem_cons_of_mem c member)
    split at shown
    · next named =>
      rw [loads_append,List.mem_append] at shown
      refine shown.imp (fun inside => ?_) (patternNamesAll_counted cs later)
      simpa [named] using loadedName_counted c inside
    · exact .inr (classPatternNames_counted cs later shown)
theorem keywordPatternNames_counted {n : String} : ∀ cs : List Tree,
    (∀ c ∈ cs, ∃ q, (q = .pattern ∨ q = .token) ∧ c.fits q) →
    n ∈ loads (keywordPatternNames cs) → n ∈ namesInAll cs
  | [], _, shown => by simp [keywordPatternNames,loads] at shown
  | c :: cs, placed, shown => by
    rw [keywordPatternNames] at shown
    simp only [namesInAll,List.mem_append]
    have later := fun d member => placed d (List.mem_cons_of_mem c member)
    right
    split at shown
    · exact patternNamesAll_counted cs later shown
    · exact keywordPatternNames_counted cs later shown
end

theorem isNamed_of_is {t : Tree} {k : Kind} (is : t.is k) : t.isNamed := by
  simp only [Tree.is,beq_iff_eq] at is
  simp [Tree.isNamed,is]

/-- A name of an expression in some role is in use in the child that plays it. -/
theorem exprOfRole_counted {n : String} {f : Field} {cs : List Tree}
    (placed : ∀ c ∈ cs, c.field = some f → c.fits .operand)
    (shown : n ∈ namesOf (exprOfRole f cs)) :
    ∃ c ∈ cs, c.field = some f ∧ c.isNamed ∧ n ∈ namesIn c := by
  obtain ⟨c,member,role,inside⟩ := mem_exprOfRole shown
  exact ⟨c,member,role,exprOf_counted c (placed c member role) inside⟩

theorem all_counted {n : String} {cs : List Tree} (placed : ∀ c ∈ cs, c.fits .operand)
    (shown : n ∈ namesAll (exprsOf cs).all) : n ∈ namesInAll cs := by
  rw [exprsOf_eq_map] at shown
  obtain ⟨q,member,_,inside⟩ := Parts.mem_all_names shown
  obtain ⟨c,among,rfl⟩ := List.mem_map.1 member
  exact mem_namesInAll.2 ⟨c,among,exprOf_counted c (placed c among) inside⟩

theorem items_counted {n : String} {cs : List Tree} (placed : ∀ c ∈ cs, c.fits .operand)
    (shown : n ∈ namesAll (exprsOf cs).items) : n ∈ namesInAll cs :=
  all_counted placed (namesAll_mono Parts.items_subset_all shown)

/-- A name in one of the parts of an ordinary construct is in use in the construct. -/
theorem mem_namesIn_of_all {n : String} {t : Tree} {k : Kind} (is : t.is k)
    (open_ : isTransparent k) (placed : t.fits .operand)
    (shown : n ∈ namesAll (exprsOf t.children).all) : n ∈ namesIn t := by
  rw [namesIn_of_transparent (beq_iff_eq.1 is) open_]
  exact all_counted (fun c member => fits_operand_of_mem placed (isNamed_of_is is) member) shown

theorem decorationsOf_counted {n : String} {cs : List Tree}
    (placed : ∀ c ∈ cs, c.fits (Place.belowCompound c.field))
    (shown : n ∈ (decorationsOf cs).flatMap (namesAll ·.items)) : n ∈ namesInAll cs := by
  obtain ⟨d,member,inside⟩ := List.mem_flatMap.1 shown
  obtain ⟨c,kept,rfl⟩ := List.mem_map.1 member
  obtain ⟨among,is⟩ := List.mem_filter.1 kept
  obtain ⟨pattern,token⟩ := Place.belowCompound_ne c.field
  exact mem_namesInAll.2 ⟨c,among,isNamed_of_is is,
    mem_namesIn_of_all is rfl (fits_operand_of_is pattern token is rfl (placed c among)) inside⟩

/-- The item of a `with` statement is one of the constructs in it. -/
theorem withItem_counted {n : String} {t : Tree} (is : t.is .withItem) (placed : t.fits .operand)
    (shown : n ∈ (((exprsOf t.children).role? .value).getD
      ((exprsOf t.children).all.headD .blank)).names) : n ∈ namesIn t := by
  cases found : (exprsOf t.children).role? .value with
  | none =>
    rw [found] at shown
    exact mem_namesIn_of_all is rfl placed (mem_headD_names shown)
  | some e =>
    rw [found] at shown
    obtain ⟨q,member,_,rfl⟩ := Parts.mem_role_of_eq_some found
    rw [exprsOf_eq_map] at member
    obtain ⟨c,among,rfl⟩ := List.mem_map.1 member
    exact mem_namesIn_of_child (beq_iff_eq.1 is) rfl among (exprOf_counted c
      (fits_operand_of_mem placed (isNamed_of_is is) among) shown)

theorem withItems_counted {n : String} {cs : List Tree}
    (placed : ∀ c ∈ cs, c.fits (Place.belowCompound c.field))
    (shown : n ∈ namesAll (withItems cs)) : n ∈ namesInAll cs := by
  have operand {c : Tree} {k : Kind} (member : c ∈ cs) (is : c.is k)
      (ordinary : k.isStructure = false) : c.fits .operand := by
    obtain ⟨pattern,token⟩ := Place.belowCompound_ne c.field
    exact fits_operand_of_is pattern token is ordinary (placed c member)
  obtain ⟨e,member,inside⟩ := mem_namesAll.1 shown
  obtain ⟨t,kept,rfl⟩ := List.mem_map.1 member
  obtain ⟨among,is⟩ := List.mem_filter.1 kept
  obtain ⟨c,outer,among⟩ := List.mem_flatMap.1 among
  refine mem_namesInAll.2 ⟨c,outer,?_⟩
  cases clause : c.is .withClause with
  | true =>
    simp only [clause,if_true] at among
    have named := isNamed_of_is clause
    have item := fits_operand_of_mem (operand outer clause rfl) named among
    exact ⟨named,mem_namesIn_of_child (beq_iff_eq.1 clause) rfl among
      ⟨isNamed_of_is is,withItem_counted is item inside⟩⟩
  | false =>
    simp only [clause,Bool.false_eq_true,if_false,List.mem_singleton] at among
    subst among
    exact ⟨isNamed_of_is is,withItem_counted is (operand outer is rfl) inside⟩

theorem typeAliasOf_counted {n : String} {cs : List Tree} (placed : ∀ c ∈ cs, c.fits .hint)
    (shown : n ∈ (typeAliasOf cs).names) : n ∈ namesInAll cs := by
  have operand {c : Tree} (member : c ∈ cs) : c.fits .operand := by
    refine fits_operand (by simp) (by simp) (fun k symbol => ?_) (placed c member)
    have allowed := (Tree.fits_iff.1 (placed c member)).1
    rw [symbol] at allowed
    cases k <;> cases allowed <;> rfl
  simp only [typeAliasOf,Stmt.names,List.mem_append] at shown
  rcases shown with target | value
  · obtain ⟨e,read,inside⟩ := mem_namesOf.1 target
    obtain ⟨d,found,rfl⟩ := Option.map_eq_some_iff.1 read
    obtain ⟨c,first,second⟩ := Option.bind_eq_some_iff.1 found
    obtain ⟨among,named⟩ := List.mem_filter.1 (List.mem_of_mem_head? first)
    obtain ⟨inner,_⟩ := List.mem_filter.1 (List.mem_of_mem_head? second)
    have open_ : ∃ k, c.symbol = .named k ∧ isTransparent k := by
      have allowed := (Tree.fits_iff.1 (placed c among)).1
      cases symbol : c.symbol with
      | token spelling => simp [Tree.isNamed,symbol] at named
      | named k =>
        rw [symbol] at allowed
        exact ⟨k,rfl,by cases k <;> cases allowed <;> rfl⟩
    obtain ⟨k,symbol,open_⟩ := open_
    exact mem_namesInAll.2 ⟨c,among,named,mem_namesIn_of_child symbol open_ inner
      (exprOf_counted d (fits_operand_of_mem (operand among) named inner) inside)⟩
  · obtain ⟨e,found,inside⟩ := mem_namesOf.1 value
    obtain ⟨q,member,_,rfl⟩ := Parts.mem_role_of_eq_some found
    rw [exprsOf_eq_map] at member
    obtain ⟨c,among,rfl⟩ := List.mem_map.1 member
    exact mem_namesInAll.2 ⟨c,among,exprOf_counted c (operand among) inside⟩

/-- A name of a definition stands in its body or in a child that is not its name. -/
theorem definitionOf_counted {n : String} {symbol : Symbol} {cs : List Tree} {body : List Stmt}
    (placed : ∀ c ∈ cs, c.fits (Place.belowCompound c.field))
    (shown : n ∈ (definitionOf symbol cs body).names) :
    n ∈ bodyNames body ∨ ∃ c ∈ cs, c.field ≠ some .name ∧ c.isNamed ∧ n ∈ namesIn c := by
  have inRole {c : Tree} {f : Field} (member : c ∈ cs) (role : c.field = some f) :
      c.fits (Place.belowCompound (some f)) := role ▸ placed c member
  unfold definitionOf at shown
  simp only at shown
  split at shown
  · simp only [Definition.names,List.mem_append] at shown
    refine shown.symm.imp id fun bases => ?_
    cases found : cs.find? (·.field == some .superclasses) with
    | none => simp [found,exprsOf,Parts.items,namesAll] at bases
    | some c =>
      have member := List.mem_of_find?_eq_some found
      have role : c.field = some .superclasses := by simpa using List.find?_some found
      have placed := inRole member role
      have is : c.is .argumentList := by
        have allowed := (Tree.fits_iff.1 placed).1
        cases symbol : c.symbol with
        | token spelling => rw [symbol] at allowed; cases allowed
        | named k => simpa [symbol,Place.allows,Place.belowCompound,Place.allowsKind,Tree.is] using allowed
      refine ⟨c,member,by simp [role],isNamed_of_is is,?_⟩
      refine mem_namesIn_of_all is rfl (fits_operand_of_is (by simp [Place.belowCompound])
        (by simp [Place.belowCompound]) is rfl placed) ?_
      exact namesAll_mono Parts.items_subset_all (by simpa [found] using bases)
  · simp only [Definition.names,List.mem_append] at shown
    rcases shown with (parameter | hint) | inside
    · obtain ⟨c,member,role,inside⟩ := mem_parametersOfRole parameter
      exact .inr ⟨c,member,by simp [role],mem_namesIn_of_parameters (inRole member role)
        (fun u _ => exprOf_counted u) inside⟩
    · obtain ⟨c,member,role,inside⟩ :=
        exprOfRole_counted (fun c member (role : c.field = some .returnType) => inRole member role)
          hint
      exact .inr ⟨c,member,by simp [role],inside⟩
    · exact .inl inside

theorem fits_of_clause {p : Place} {l : Label} {cs : List Tree} {k : Kind}
    (symbol : l.symbol = .named k) (clause : k.isClause) (other : k.isHandler = false)
    (placed : Tree.fits p (.node l cs)) : ∀ c ∈ cs, c.fits (Place.belowClause c.field) := by
  obtain ⟨allowed,below⟩ := Tree.fits_iff.1 placed
  simp only [Tree.symbol_node,symbol] at allowed below
  intro c member
  rw [← Place.below_clause clause other allowed]
  exact below c member

theorem fits_of_handler {p : Place} {l : Label} {cs : List Tree} {k : Kind}
    (symbol : l.symbol = .named k) (handler : k.isHandler) (placed : Tree.fits p (.node l cs)) :
    ∀ c ∈ cs, c.fits .interior := by
  obtain ⟨allowed,below⟩ := Tree.fits_iff.1 placed
  simp only [Tree.symbol_node,symbol] at allowed below
  intro c member
  rw [← Place.below_handler handler allowed c.field]
  exact below c member

theorem fits_of_compound {p : Place} {l : Label} {cs : List Tree} {k : Kind}
    (symbol : l.symbol = .named k) (compound : k.isCompound)
    (other : (k == .matchStatement) = false) (placed : Tree.fits p (.node l cs)) : ∀ c ∈ cs, c.fits (Place.belowCompound c.field) := by
  obtain ⟨allowed,below⟩ := Tree.fits_iff.1 placed
  simp only [Tree.symbol_node,symbol] at allowed below
  intro c member
  rw [← Place.below_compound compound other allowed]
  exact below c member

theorem fits_of_block {p : Place} {t : Tree} (is : t.is .block) (cases_ : p ≠ .cases)
    (placed : t.fits p) : ∀ c ∈ t.children, c.fits .statement := by
  obtain ⟨allowed,below⟩ := Tree.fits_iff.1 placed
  rw [beq_iff_eq.1 is] at allowed below
  intro c member
  rw [← Place.below_block cases_ allowed c.field]
  exact below c member

/-- What stands in front of the body of a handler can be evaluated. -/
theorem fits_operand_of_header {t : Tree} (body : t.is .block = false)
    (placed : t.fits .interior) : t.fits .operand := by
  have allowed := (Tree.fits_iff.1 placed).1
  refine fits_operand (by simp) (by simp) (fun k symbol => ?_) placed
  have other : (k == .block) = false := by simpa [Tree.is,symbol] using body
  rw [symbol] at allowed
  simpa [Place.allows,Place.allowsKind,other] using allowed

theorem handlerItems_counted {n : String} {cs : List Tree} (placed : ∀ c ∈ cs, c.fits .interior)
    (shown : n ∈ namesAll (handlerItems cs)) : n ∈ namesInAll cs := by
  have inside := items_counted (fun c member => ?_) shown
  · obtain ⟨c,member,inside⟩ := mem_namesInAll.1 inside
    exact mem_namesInAll.2 ⟨c,(List.mem_filter.1 member).1,inside⟩
  · obtain ⟨among,body⟩ := List.mem_filter.1 member
    exact fits_operand_of_header (by simpa using body) (placed c among)

theorem guardOf_counted {n : String} {cs : List Tree}
    (placed : ∀ c ∈ cs, c.fits (Place.belowCase c.field))
    (shown : n ∈ namesAll (guardOf cs)) : n ∈ namesInAll cs := by
  obtain ⟨e,member,inside⟩ := mem_namesAll.1 shown
  obtain ⟨c,kept,member⟩ := List.mem_flatMap.1 member
  obtain ⟨among,is⟩ := List.mem_filter.1 kept
  have placed := placed c among
  have allowed := (Tree.fits_iff.1 placed).1
  rw [beq_iff_eq.1 is] at allowed
  rcases Place.belowCase_cases c.field with place | place | place <;> rw [place] at placed allowed
  · cases allowed
  · refine mem_namesInAll.2 ⟨c,among,isNamed_of_is is,mem_namesIn_of_all is rfl
      (fits_operand_of_is (by simp) (by simp) is rfl placed) ?_⟩
    exact namesAll_mono Parts.items_subset_all (mem_namesAll.2 ⟨e,member,inside⟩)
  · cases allowed

theorem casePatterns_counted {n : String} {cs : List Tree}
    (placed : ∀ c ∈ cs, c.fits (Place.belowCase c.field))
    (shown : n ∈ loads (casePatterns cs)) : n ∈ namesInAll cs := by
  obtain ⟨q,member,looked⟩ := List.mem_filterMap.1 shown
  obtain ⟨c,kept,member⟩ := List.mem_flatMap.1 member
  obtain ⟨among,is⟩ := List.mem_filter.1 kept
  have placed := placed c among
  have allowed := (Tree.fits_iff.1 placed).1
  rw [beq_iff_eq.1 is] at allowed
  rcases Place.belowCase_cases c.field with place | place | place <;> rw [place] at placed allowed
  · cases allowed
  · cases allowed
  · exact mem_namesInAll.2 ⟨c,among,isNamed_of_is is,
      patternNames_counted (.inl rfl) c placed (List.mem_filterMap.2 ⟨q,member,looked⟩)⟩

/-- Blocks in a handler hold statements. -/
theorem fits_of_interior {cs : List Tree} (placed : ∀ c ∈ cs, c.fits .interior) :
    ∀ c ∈ cs, c.is .block → ∀ d ∈ c.children, d.fits .statement := by
  intro c member is
  exact fits_of_block is (p := .interior) (by decide) (placed c member)

theorem fits_of_cases {cs : List Tree} (placed : ∀ c ∈ cs, c.fits (Place.belowCase c.field)) :
    ∀ c ∈ cs, c.is .block → ∀ d ∈ c.children, d.fits .statement := by
  intro c member is
  refine fits_of_block is ?_ (placed c member)
  rcases Place.belowCase_cases c.field with place | place | place <;> simp [place]

theorem fits_of_role {place : Option Field → Place} {cs : List Tree}
    (placed : ∀ c ∈ cs, c.fits (place c.field)) (f : Field) :
    ∀ c ∈ cs, c.field = some f → c.fits (place (some f)) :=
  fun c member role => role ▸ placed c member

/-- Below a construct that lets all names count, what counts are the names of its children. -/
theorem names_of_transparent {l : Label} {cs : List Tree} {k : Kind} (symbol : l.symbol = .named k)
    (open_ : isTransparent k) :
    (if (Syntax.Tree.node l cs).isNamed then namesIn (.node l cs) else []) = namesInAll cs := by
  rw [if_pos (by simp [Tree.isNamed,symbol]),namesIn_of_transparent (t := .node l cs) symbol open_,
    Tree.children_node]

theorem namesIn_of_definition {l : Label} {cs : List Tree} {k : Kind} (symbol : l.symbol = .named k)
    (definition : Place.allowsKind .definition k) :
    namesIn (.node l cs) = namesInUnnamed cs := by
  simp only [Place.allowsKind,Bool.or_eq_true,beq_iff_eq] at definition
  rcases definition with rfl | rfl <;> simp [namesIn,symbol,carriesName]

/-- The names of a whole definition, given those of its body. -/
theorem definition_counted {n : String} {symbol : Symbol} {cs : List Tree}
    (placed : ∀ c ∈ cs, c.fits (Place.belowCompound c.field))
    (body : n ∈ bodyNames (bodyOfRole .body cs) →
      ∃ c ∈ cs, c.field = some .body ∧ c.isNamed ∧ n ∈ namesIn c)
    (shown : n ∈ (definitionOf symbol cs (bodyOfRole .body cs)).names) :
    n ∈ namesInUnnamed cs := by
  rcases definitionOf_counted placed shown with inside | ⟨c,member,role,named,inside⟩
  · obtain ⟨c,member,role,named,inside⟩ := body inside
    exact mem_namesInUnnamed member (by simp [role]) named inside
  · exact mem_namesInUnnamed member role named inside

theorem fits_of_case {p : Place} {l : Label} {cs : List Tree}
    (symbol : l.symbol = .named .caseClause) (placed : Tree.fits p (.node l cs)) :
    ∀ c ∈ cs, c.fits (Place.belowCase c.field) := by
  obtain ⟨allowed,below⟩ := Tree.fits_iff.1 placed
  simp only [Tree.symbol_node,symbol] at allowed below
  cases p with
  | caseItem => exact below
  | _ => cases allowed

/-- The parts of a `match` that hold cases are its body. -/
theorem fits_cases_of_block {t : Tree} (is : t.is .block)
    (placed : t.fits (Place.belowMatch t.field)) : ∀ c ∈ t.children, c.fits .caseItem := by
  obtain ⟨allowed,below⟩ := Tree.fits_iff.1 placed
  rw [beq_iff_eq.1 is] at allowed below
  unfold Place.belowMatch at allowed below
  split at below
  · exact below
  · exact below
  · simp_all [Place.allows,Place.allowsKind,Kind.isStructure]
  · simp_all [Place.allows,Place.allowsKind,Kind.isStructure,Kind.isClause]

theorem fits_of_simple {l : Label} {cs : List Tree} {k : Kind} (symbol : l.symbol = .named k)
    (simple : k.isSimple) (other : (k == .typeAliasStatement) = false)
    (placed : Tree.fits .statement (.node l cs)) : ∀ c ∈ cs, c.fits .operand := by
  have below := (Tree.fits_iff.1 placed).2
  simp only [Tree.symbol_node,symbol] at below
  intro c member
  have ordinary : Place.below .statement (.named k) = Place.belowOperand := by
    cases k <;> cases simple <;> cases other <;> rfl
  have placed := below c member
  rw [ordinary] at placed
  unfold Place.belowOperand at placed
  split at placed
  · exact fits_operand_of_parameters placed
  · exact placed

/-- The names of a statement that only evaluates its parts. -/
theorem simple_counted {n : String} {l : Label} {cs : List Tree} {k : Kind}
    (symbol : l.symbol = .named k) (simple : k.isSimple)
    (other : (k == .typeAliasStatement) = false) (open_ : isTransparent k)
    (placed : Tree.fits .statement (.node l cs)) (shown : n ∈ namesAll (exprsOf cs).items) :
    n ∈ namesIn (.node l cs) := by
  rw [namesIn_of_transparent (t := .node l cs) symbol open_]
  exact items_counted (fits_of_simple symbol simple other placed) shown

theorem mem_namesInAll_of_role {n : String} {f : Field} {cs : List Tree}
    (shown : ∃ c ∈ cs, c.field = some f ∧ c.isNamed ∧ n ∈ namesIn c) : n ∈ namesInAll cs := by
  obtain ⟨c,member,_,inside⟩ := shown
  exact mem_namesInAll.2 ⟨c,member,inside⟩

mutual
/-- A name that stands in the statement of a node is in use in the node. -/
theorem stmtOf_counted {n : String} :
    ∀ t : Tree, t.isNamed → t.fits .statement → n ∈ (stmtOf t).names → n ∈ namesIn t
  | .node l cs, named, placed, shown => by
    have allowed := (Tree.fits_iff.1 placed).1
    unfold stmtOf at shown
    split at shown
    iterate 8 next => simp [Stmt.names] at shown
    iterate 2 next symbol =>
      have below := fits_of_compound symbol rfl rfl placed
      rw [namesIn_of_definition symbol rfl]
      exact definition_counted below (bodyOfRole_counted cs (fits_of_role below .body)) shown
    · next symbol =>
      have below := fits_of_compound symbol rfl rfl placed
      rw [namesIn_of_transparent (t := .node l cs) symbol rfl]
      exact (List.mem_append.1 shown).elim (decorationsOf_counted below)
        (decorated_counted cs (fits_of_role below .definition))
    · next symbol =>
      have below := fits_of_compound symbol rfl rfl placed
      rw [namesIn_of_transparent (t := .node l cs) symbol rfl]
      simp only [Stmt.names,branchNames,List.mem_append] at shown
      rcases shown with (condition | body) | others
      · exact mem_namesInAll_of_role
          (exprOfRole_counted (fits_of_role below .condition) condition)
      · exact mem_namesInAll_of_role
          (bodyOfRole_counted cs (fits_of_role below .consequence) body)
      · exact branchesOf_counted cs below others
    · next symbol =>
      have below := fits_of_compound symbol rfl rfl placed
      rw [namesIn_of_transparent (t := .node l cs) symbol rfl]
      simp only [Stmt.names,List.mem_append] at shown
      rcases shown with ((target | iterable) | body) | otherwise
      · exact mem_namesInAll_of_role
          (exprOfRole_counted (fits_of_role below .left) (mem_namesOf_of_getD target))
      · exact mem_namesInAll_of_role
          (exprOfRole_counted (fits_of_role below .right) (mem_namesOf_of_getD iterable))
      · exact mem_namesInAll_of_role (bodyOfRole_counted cs (fits_of_role below .body) body)
      · exact otherwiseOf_counted cs below otherwise
    · next symbol =>
      have below := fits_of_compound symbol rfl rfl placed
      rw [namesIn_of_transparent (t := .node l cs) symbol rfl]
      simp only [Stmt.names,List.mem_append] at shown
      rcases shown with (condition | body) | otherwise
      · exact mem_namesInAll_of_role
          (exprOfRole_counted (fits_of_role below .condition) (mem_namesOf_of_getD condition))
      · exact mem_namesInAll_of_role (bodyOfRole_counted cs (fits_of_role below .body) body)
      · exact otherwiseOf_counted cs below otherwise
    · next symbol =>
      have below := fits_of_compound symbol rfl rfl placed
      rw [namesIn_of_transparent (t := .node l cs) symbol rfl]
      simp only [Stmt.names,List.mem_append] at shown
      rcases shown with ((body | handlers) | otherwise) | final
      · exact mem_namesInAll_of_role (bodyOfRole_counted cs (fits_of_role below .body) body)
      · exact handlersOf_counted cs below handlers
      · exact otherwiseOf_counted cs below otherwise
      · exact finalOf_counted cs below final
    · next symbol =>
      have below := fits_of_compound symbol rfl rfl placed
      rw [namesIn_of_transparent (t := .node l cs) symbol rfl]
      exact (List.mem_append.1 shown).elim (withItems_counted below) fun body =>
        mem_namesInAll_of_role (bodyOfRole_counted cs (fits_of_role below .body) body)
    · next symbol =>
      have below := (Tree.fits_iff.1 placed).2
      simp only [Tree.symbol_node,symbol] at below
      rw [namesIn_of_transparent (t := .node l cs) symbol rfl]
      refine (List.mem_append.1 shown).elim (fun subject => ?_) (casesIn_counted cs below)
      obtain ⟨c,member,role,inside⟩ := mem_exprsOfRole subject
      have placed := fits_of_role below .subject c member role
      exact mem_namesInAll.2 ⟨c,member,exprOf_counted c placed inside⟩
    iterate 3 next symbol => exact simple_counted symbol rfl rfl rfl placed shown
    iterate 2 next => simp [Stmt.names] at shown
    · next symbol =>
      have below := (Tree.fits_iff.1 placed).2
      simp only [Tree.symbol_node,symbol] at below
      rw [namesIn_of_transparent (t := .node l cs) symbol rfl]
      exact typeAliasOf_counted below shown
    · cases symbol : l.symbol with
      | token spelling => simp [Tree.isNamed,symbol] at named
      | named k =>
        rw [Tree.symbol_node,symbol] at allowed
        have kind : k.isSimple ∧ (k == .typeAliasStatement) = false ∧ isTransparent k := by
          cases k <;> cases allowed <;>
            simp_all [isTransparent,Kind.isSimple,carriesName,hidesNames]
        exact simple_counted symbol kind.1 kind.2.1 kind.2.2 placed shown
theorem bodyOf_counted {n : String} : ∀ cs : List Tree, (∀ c ∈ cs, c.fits .statement) →
    n ∈ bodyNames (bodyOf cs) → n ∈ namesInAll cs
  | [], _, shown => by simp [bodyOf,bodyNames] at shown
  | c :: cs, placed, shown => by
    have later := fun d member => placed d (List.mem_cons_of_mem c member)
    simp only [namesInAll,List.mem_append]
    rw [bodyOf] at shown
    split at shown
    · next named =>
      rw [bodyNames,List.mem_append] at shown
      refine shown.imp (fun own => ?_) (bodyOf_counted cs later)
      simpa [named] using stmtOf_counted c named (placed c List.mem_cons_self) own
    · exact .inr (bodyOf_counted cs later shown)
theorem bodyOfRole_counted {n : String} {f : Field} : ∀ cs : List Tree,
    (∀ c ∈ cs, c.field = some f → c.fits .block) → n ∈ bodyNames (bodyOfRole f cs) →
    ∃ c ∈ cs, c.field = some f ∧ c.isNamed ∧ n ∈ namesIn c
  | [], _, shown => by simp [bodyOfRole,bodyNames] at shown
  | .node l ds :: cs, placed, shown => by
    rw [bodyOfRole] at shown
    split at shown
    · next role =>
      have placed := placed _ List.mem_cons_self (beq_iff_eq.1 role)
      have is : (Syntax.Tree.node l ds).is .block := by
        have allowed := (Tree.fits_iff.1 placed).1
        cases symbol : l.symbol with
        | token spelling => rw [Tree.symbol_node,symbol] at allowed; cases allowed
        | named k =>
          rw [Tree.symbol_node,symbol] at allowed
          simp [Tree.is,symbol,beq_iff_eq.1 allowed]
      refine ⟨.node l ds,List.mem_cons_self,beq_iff_eq.1 role,isNamed_of_is is,?_⟩
      rw [namesIn_of_transparent (beq_iff_eq.1 is) rfl]
      exact bodyOf_counted ds (fits_of_block is (by simp) placed) shown
    · obtain ⟨c,member,rest⟩ := bodyOfRole_counted cs
        (fun d member => placed d (List.mem_cons_of_mem _ member)) shown
      exact ⟨c,List.mem_cons_of_mem _ member,rest⟩
theorem bodyOfBlocks_counted {n : String} : ∀ cs : List Tree,
    (∀ c ∈ cs, c.is .block → ∀ d ∈ c.children, d.fits .statement) →
    n ∈ bodyNames (bodyOfBlocks cs) → n ∈ namesInAll cs
  | [], _, shown => by simp [bodyOfBlocks,bodyNames] at shown
  | .node l ds :: cs, placed, shown => by
    have later := fun d member => placed d (List.mem_cons_of_mem (Syntax.Tree.node l ds) member)
    simp only [namesInAll,List.mem_append]
    rw [bodyOfBlocks] at shown
    split at shown
    · next is =>
      rw [bodyNames_append,List.mem_append] at shown
      refine shown.imp (fun own => ?_) (bodyOfBlocks_counted cs later)
      rw [names_of_transparent (beq_iff_eq.1 is) rfl]
      exact bodyOf_counted ds (placed _ List.mem_cons_self is) own
    · exact .inr (bodyOfBlocks_counted cs later shown)
theorem decorated_counted {n : String} : ∀ cs : List Tree,
    (∀ c ∈ cs, c.field = some .definition → c.fits .definition) → n ∈ (decorated cs).names →
    n ∈ namesInAll cs
  | [], _, shown => by simp [decorated,Definition.names,namesAll,bodyNames] at shown
  | .node l ds :: cs, placed, shown => by
    simp only [namesInAll,List.mem_append]
    rw [decorated] at shown
    split at shown
    · next role =>
      have placed := placed _ List.mem_cons_self (beq_iff_eq.1 role)
      have allowed := (Tree.fits_iff.1 placed).1
      cases symbol : l.symbol with
      | token spelling => rw [Tree.symbol_node,symbol] at allowed; cases allowed
      | named k =>
        rw [Tree.symbol_node,symbol] at allowed
        have kind := allowed
        simp only [Place.allows,Place.allowsKind,Bool.or_eq_true,beq_iff_eq] at kind
        have below := fits_of_compound symbol (by rcases kind with rfl | rfl <;> rfl)
          (by rcases kind with rfl | rfl <;> rfl) placed
        left
        rw [if_pos (by simp [Tree.isNamed,symbol]),namesIn_of_definition symbol allowed]
        exact definition_counted below
          (bodyOfRole_counted ds (fits_of_role below .body)) shown
    · exact .inr (decorated_counted cs
        (fun d member => placed d (List.mem_cons_of_mem _ member)) shown)
theorem branchesOf_counted {n : String} : ∀ cs : List Tree,
    (∀ c ∈ cs, c.fits (Place.belowCompound c.field)) → n ∈ branchNames (branchesOf cs) →
    n ∈ namesInAll cs
  | [], _, shown => by simp [branchesOf,branchNames] at shown
  | .node l ds :: cs, placed, shown => by
    have later := fun d member => placed d (List.mem_cons_of_mem (Syntax.Tree.node l ds) member)
    have own := placed _ List.mem_cons_self
    simp only [namesInAll,List.mem_append]
    rw [branchesOf] at shown
    split at shown
    · next is =>
      have below := fits_of_clause (beq_iff_eq.1 is) rfl rfl own
      simp only [branchNames,List.mem_append] at shown
      refine shown.imp (fun own => ?_) (branchesOf_counted cs later)
      rw [names_of_transparent (beq_iff_eq.1 is) rfl]
      refine own.elim (fun condition => ?_) fun body => ?_
      · exact mem_namesInAll_of_role
          (exprOfRole_counted (fits_of_role below .condition) condition)
      · exact mem_namesInAll_of_role
          (bodyOfRole_counted ds (fits_of_role below .consequence) body)
    · split at shown
      · next is =>
        have below := fits_of_clause (beq_iff_eq.1 is) rfl rfl own
        simp only [branchNames,namesOf,List.nil_append,List.mem_append] at shown
        refine shown.imp (fun body => ?_) (branchesOf_counted cs later)
        rw [names_of_transparent (beq_iff_eq.1 is) rfl]
        exact mem_namesInAll_of_role (bodyOfRole_counted ds (fits_of_role below .body) body)
      · exact .inr (branchesOf_counted cs later shown)
theorem otherwiseOf_counted {n : String} : ∀ cs : List Tree,
    (∀ c ∈ cs, c.fits (Place.belowCompound c.field)) → n ∈ bodyNames (otherwiseOf cs) →
    n ∈ namesInAll cs
  | [], _, shown => by simp [otherwiseOf,bodyNames] at shown
  | .node l ds :: cs, placed, shown => by
    simp only [namesInAll,List.mem_append]
    rw [otherwiseOf] at shown
    split at shown
    · next is =>
      have below := fits_of_clause (beq_iff_eq.1 is) rfl rfl (placed _ List.mem_cons_self)
      rw [names_of_transparent (beq_iff_eq.1 is) rfl]
      exact .inl (mem_namesInAll_of_role
        (bodyOfRole_counted ds (fits_of_role below .body) shown))
    · exact .inr (otherwiseOf_counted cs
        (fun d member => placed d (List.mem_cons_of_mem _ member)) shown)
theorem handlersOf_counted {n : String} : ∀ cs : List Tree,
    (∀ c ∈ cs, c.fits (Place.belowCompound c.field)) → n ∈ handlerNames (handlersOf cs) →
    n ∈ namesInAll cs
  | [], _, shown => by simp [handlersOf,handlerNames] at shown
  | .node l ds :: cs, placed, shown => by
    have later := fun d member => placed d (List.mem_cons_of_mem (Syntax.Tree.node l ds) member)
    simp only [namesInAll,List.mem_append]
    rw [handlersOf] at shown
    split at shown
    · next is =>
      have kind : ∃ k, l.symbol = .named k ∧ k.isHandler ∧ isTransparent k := by
        simp only [Bool.or_eq_true,beq_iff_eq] at is
        exact is.elim (fun symbol => ⟨_,symbol,rfl,rfl⟩) fun symbol => ⟨_,symbol,rfl,rfl⟩
      obtain ⟨k,symbol,handler,open_⟩ := kind
      have below := fits_of_handler symbol handler (placed _ List.mem_cons_self)
      simp only [handlerNames,List.mem_append] at shown
      refine shown.imp (fun own => ?_) (handlersOf_counted cs later)
      rw [names_of_transparent symbol open_]
      exact own.elim (handlerItems_counted below) (bodyOfBlocks_counted ds (fits_of_interior below))
    · exact .inr (handlersOf_counted cs later shown)
theorem finalOf_counted {n : String} : ∀ cs : List Tree,
    (∀ c ∈ cs, c.fits (Place.belowCompound c.field)) → n ∈ bodyNames (finalOf cs) →
    n ∈ namesInAll cs
  | [], _, shown => by simp [finalOf,bodyNames] at shown
  | .node l ds :: cs, placed, shown => by
    simp only [namesInAll,List.mem_append]
    rw [finalOf] at shown
    split at shown
    · next is =>
      have below := fits_of_handler (beq_iff_eq.1 is) rfl (placed _ List.mem_cons_self)
      rw [names_of_transparent (beq_iff_eq.1 is) rfl]
      exact .inl (bodyOfBlocks_counted ds (fits_of_interior below) shown)
    · exact .inr (finalOf_counted cs
        (fun d member => placed d (List.mem_cons_of_mem _ member)) shown)
theorem casesIn_counted {n : String} : ∀ cs : List Tree,
    (∀ c ∈ cs, c.fits (Place.belowMatch c.field)) → n ∈ caseNames (casesIn cs) → n ∈ namesInAll cs
  | [], _, shown => by simp [casesIn,caseNames] at shown
  | .node l ds :: cs, placed, shown => by
    have later := fun d member => placed d (List.mem_cons_of_mem (Syntax.Tree.node l ds) member)
    have own := placed _ List.mem_cons_self
    simp only [namesInAll,List.mem_append]
    rw [casesIn] at shown
    split at shown
    · next is =>
      have below := fits_of_case (beq_iff_eq.1 is) own
      simp only [caseNames,List.mem_append] at shown
      refine shown.imp (fun own => ?_) (casesIn_counted cs later)
      rw [names_of_transparent (beq_iff_eq.1 is) rfl]
      rcases own with (pattern | condition) | body
      · exact casePatterns_counted below pattern
      · exact guardOf_counted below condition
      · exact bodyOfBlocks_counted ds (fits_of_cases below) body
    · split at shown
      · next is =>
        rw [caseNames_append,List.mem_append] at shown
        refine shown.imp (fun inside => ?_) (casesIn_counted cs later)
        rw [names_of_transparent (beq_iff_eq.1 is) rfl]
        exact casesOf_counted ds (fits_cases_of_block (t := .node l ds) is own) inside
      · exact .inr (casesIn_counted cs later shown)
theorem casesOf_counted {n : String} : ∀ cs : List Tree, (∀ c ∈ cs, c.fits .caseItem) →
    n ∈ caseNames (casesOf cs) → n ∈ namesInAll cs
  | [], _, shown => by simp [casesOf,caseNames] at shown
  | .node l ds :: cs, placed, shown => by
    have later := fun d member => placed d (List.mem_cons_of_mem (Syntax.Tree.node l ds) member)
    simp only [namesInAll,List.mem_append]
    rw [casesOf] at shown
    split at shown
    · next is =>
      have below := fits_of_case (beq_iff_eq.1 is) (placed _ List.mem_cons_self)
      simp only [caseNames,List.mem_append] at shown
      refine shown.imp (fun own => ?_) (casesOf_counted cs later)
      rw [names_of_transparent (beq_iff_eq.1 is) rfl]
      rcases own with (pattern | condition) | body
      · exact casePatterns_counted below pattern
      · exact guardOf_counted below condition
      · exact bodyOfBlocks_counted ds (fits_of_cases below) body
    · exact .inr (casesOf_counted cs later shown)
end

end Excerpt.Program
