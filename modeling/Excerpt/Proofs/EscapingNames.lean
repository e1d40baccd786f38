import Excerpt.Proofs.DeferredLookups

/-!
Names that leave comprehensions. A `:=` inside comprehensions binds its name in the function or lambda
around all of them, however deep they are nested, and no comprehension on the way keeps it. So the name
is found from everywhere in that function and in its comprehensions.
-/
namespace Excerpt.Program

/-- The expressions that make up an expression and belong to the same scope. The hint of an assignment is
not looked at in functions; lambdas and comprehensions have scopes of their own. -/
def Expr.parts : Expr → List Expr
  | .name _ _ | .none | .truth _ | .integer _ | .blank | .lambda _ _ | .comprehension _ => []
  | .group items | .parens items | .sequence _ items | .splat _ items | .comparison items _
  | .suspension _ items => items
  | .member value _ | .keyword _ value | .walrus _ value | .negation value => [value]
  | .call left right | .aliased left right | .conjunction left right | .disjunction left right
  | .binary left right | .augmented left right => [left,right]
  | .subscript value indices => value :: indices
  | .conditional body condition alternative => [body,condition,alternative]
  | .assignment target _ value => target :: value.toList

/-- The expressions that make up a comprehension. -/
def partOperands : List Part → List Expr
  | [] => []
  | .clause target iterables :: ps => target :: (iterables ++ partOperands ps)
  | .element value :: ps => value :: partOperands ps

/-- A `:=` for the name stands in the expression, inside the given comprehensions, the outermost first,
and inside no lambda. -/
inductive Expr.Names (n : String) : List (List Part) → Expr → Prop
  | here (value : Expr) : Names n [] (.walrus n value)
  | part {around : List (List Part)} {e whole : Expr} (inside : e ∈ whole.parts)
      (names : Names n around e) : Names n around whole
  | comprehension {around : List (List Part)} {e : Expr} {parts : List Part}
      (inside : e ∈ partOperands parts) (names : Names n around e) :
      Names n (parts :: around) (.comprehension parts)

mutual
/-- The expressions of a statement that belong to the scope in which it stands. Of a definition these are
the decorators. -/
def Stmt.operands : Stmt → List Expr
  | .skip | .importing _ | .globals _ | .nonlocals _ => []
  | .evaluate items | .delete items | .raising items _ | .result _ items => items
  | .define decorations _ => decorations.flatMap Decoration.items
  | .branch branches => branchOperands branches
  | .forLoop target iterable body otherwise =>
    target :: iterable :: (bodyOperands body ++ bodyOperands otherwise)
  | .whileLoop condition body otherwise =>
    condition :: (bodyOperands body ++ bodyOperands otherwise)
  | .attempt body handlers otherwise final =>
    bodyOperands body ++ handlerOperands handlers ++ bodyOperands otherwise ++ bodyOperands final
  | .within items body => items ++ bodyOperands body
  | .choose subjects cases => subjects ++ caseOperands cases
  | .typeAlias _ target value => target.toList ++ value.toList
def bodyOperands : List Stmt → List Expr
  | [] => []
  | s :: ss => s.operands ++ bodyOperands ss
def branchOperands : List Branch → List Expr
  | [] => []
  | .mk condition body :: bs => condition.toList ++ bodyOperands body ++ branchOperands bs
def handlerOperands : List Handler → List Expr
  | [] => []
  | .mk items body :: hs => items ++ bodyOperands body ++ handlerOperands hs
def caseOperands : List Case → List Expr
  | [] => []
  | .mk _ condition body :: cs => condition ++ bodyOperands body ++ caseOperands cs
end

/-- What is called later: a function, or a lambda. -/
inductive Routine
  | function (parameters : List Parameter) (body : List Stmt)
  | lambda (parameters : List Parameter) (body : Expr)

namespace Routine

def scope (lazy : Bool) : Routine → Scope
  | .function parameters body => functionScope lazy parameters body
  | .lambda parameters body => lambdaScope parameters body

/-- The expressions of the body that belong to the scope of the routine. -/
def operands : Routine → List Expr
  | .function _ body => bodyOperands body
  | .lambda _ body => [body]

end Routine

/-- Whether all that is found in an expression, read or assigned to, is among the findings. -/
def Expr.Among (hinted : Bool) (findings : List Finding) (e : Expr) : Prop :=
  ∃ role, e.findings hinted role ⊆ findings

section Findings

variable {hinted : Bool} {e : Expr}

namespace Expr.Among

variable {found : List Finding}

theorem self (role : Role) : e.Among hinted (e.findings hinted role) := ⟨role,List.Subset.refl _⟩

theorem trans {others : List Finding} (among : e.Among hinted found) (within : found ⊆ others) :
    e.Among hinted others := among.imp fun _ here => List.Subset.trans here within

theorem left (among : e.Among hinted found) (others : List Finding) : e.Among hinted (found ++ others) :=
  among.trans (List.subset_append_left found others)

theorem right (among : e.Among hinted found) (others : List Finding) : e.Among hinted (others ++ found) :=
  among.trans (List.subset_append_right others found)

theorem all {role : Role} {es : List Expr} (member : e ∈ es) :
    e.Among hinted (findingsAll hinted role es) := by
  induction es with
  | nil => cases member
  | cons f es ih =>
    rw [findingsAll]
    rcases List.mem_cons.1 member with rfl | later
    · exact (self role).left _
    · exact (ih later).right _

theorem option {e? : Option Expr} (member : e ∈ e?.toList) : e.Among hinted (findingsOf hinted e?) := by
  obtain rfl := Option.mem_toList.1 member
  exact self .read

/-- What is found in a part of an expression is found in the expression. -/
theorem part {whole : Expr} (member : e ∈ whole.parts) (role : Role) :
    e.Among hinted (whole.findings hinted role) := by
  cases whole with
  | name | none | truth | integer | blank | lambda | comprehension => cases member
  | group items | parens items | sequence form items | splat double items | comparison items ops
  | suspension place items => exact all member
  | member value attr | keyword name value | negation value =>
    obtain rfl := List.mem_singleton.1 member
    exact self .read
  | walrus name value =>
    obtain rfl := List.mem_singleton.1 member
    exact (self .read).right [.walrus name]
  | call left right | aliased left right | conjunction left right | disjunction left right
  | binary left right =>
    simp only [Expr.parts,List.mem_cons,List.not_mem_nil,or_false] at member
    rcases member with rfl | rfl
    · exact (self _).left _
    · exact (self _).right _
  | augmented target value =>
    simp only [Expr.parts,List.mem_cons,List.not_mem_nil,or_false] at member
    rcases member with rfl | rfl
    · exact ((self .bind).left _).left _
    · exact (self .read).right _
  | subscript value indices =>
    rcases List.mem_cons.1 member with rfl | later
    · exact (self .read).left _
    · exact (all later).right _
  | conditional body condition alternative =>
    simp only [Expr.parts,List.mem_cons,List.not_mem_nil,or_false] at member
    rcases member with rfl | rfl | rfl
    · exact ((self .read).left _).left _
    · exact ((self .read).right _).left _
    · exact (self .read).right _
  | assignment target hint value =>
    rcases List.mem_cons.1 member with rfl | later
    · exact ((self .bind).left _).left _
    · exact (option later).right _

/-- What is found in a part of a comprehension is found inside it, or in its first iterables. -/
theorem comprehension {seen : Bool} {parts : List Part} (member : e ∈ partOperands parts) :
    e.Among false (partFindings seen parts) ∨
      seen = false ∧ e.Among hinted (firstFindings hinted parts) := by
  induction parts generalizing seen with
  | nil => cases member
  | cons part ps ih =>
    cases part with
    | clause target iterables =>
      rw [partOperands,List.mem_cons,List.mem_append] at member
      rw [partFindings]
      rcases member with rfl | here | later
      · exact .inl (((self .bind).left _).left _)
      · cases seen with
        | false => exact .inr ⟨rfl,all here⟩
        | true => exact .inl (((all here).right _).left _)
      · obtain among | ⟨first,_⟩ := @ih true later
        · exact .inl (among.right _)
        · cases first
    | element value =>
      rw [partFindings]
      rcases List.mem_cons.1 member with rfl | later
      · exact .inl ((self .read).left _)
      · obtain among | first := @ih seen later
        · exact .inl (among.right _)
        · exact .inr first

end Expr.Among

mutual
/-- What is found in an expression of a statement is found in the statement. -/
theorem among_of_mem_operands (lazy : Bool) :
    ∀ {s : Stmt}, e ∈ s.operands → e.Among hinted (s.findings lazy hinted)
  | .evaluate _,member | .delete _,member | .raising _ _,member | .result _ _,member => .all member
  | .define decorations definition,member => by
    obtain ⟨d,decorates,inside⟩ := List.mem_flatMap.1 member
    obtain ⟨role,found⟩ : e.Among hinted (d.findings hinted) := .all inside
    exact ⟨role,fun f here => List.mem_append_left _ (List.mem_flatMap.2 ⟨d,decorates,found here⟩)⟩
  | .branch _,member => among_of_mem_branches lazy member
  | .forLoop _ _ _ _,member => by
    simp only [Stmt.operands,List.mem_cons,List.mem_append] at member
    rcases member with rfl | rfl | inside | inside
    · exact (((Expr.Among.self .bind).left _).left _).left _
    · exact (((Expr.Among.self .read).right _).left _).left _
    · exact ((among_of_mem_body lazy inside).right _).left _
    · exact (among_of_mem_body lazy inside).right _
  | .whileLoop _ _ _,member => by
    simp only [Stmt.operands,List.mem_cons,List.mem_append] at member
    rcases member with rfl | inside | inside
    · exact ((Expr.Among.self .read).left _).left _
    · exact ((among_of_mem_body lazy inside).right _).left _
    · exact (among_of_mem_body lazy inside).right _
  | .attempt _ _ _ _,member => by
    simp only [Stmt.operands,List.mem_append] at member
    rcases member with ((inside | inside) | inside) | inside
    · exact (((among_of_mem_body lazy inside).left _).left _).left _
    · exact (((among_of_mem_handlers lazy inside).right _).left _).left _
    · exact ((among_of_mem_body lazy inside).right _).left _
    · exact (among_of_mem_body lazy inside).right _
  | .within _ _,member => by
    rcases List.mem_append.1 member with here | inside
    · exact (Expr.Among.all here).left _
    · exact (among_of_mem_body lazy inside).right _
  | .choose _ _,member => by
    rcases List.mem_append.1 member with here | inside
    · exact (Expr.Among.all here).left _
    · exact (among_of_mem_cases lazy inside).right _
  | .typeAlias _ target _,member => by
    rcases List.mem_append.1 member with here | inside
    · obtain rfl := Option.mem_toList.1 here
      exact (Expr.Among.self .bind).left _
    · exact (Expr.Among.option inside).right _
theorem among_of_mem_body (lazy : Bool) :
    ∀ {body : List Stmt}, e ∈ bodyOperands body → e.Among hinted (bodyFindings lazy hinted body)
  | _ :: _,member => by
    rcases List.mem_append.1 member with first | later
    · exact (among_of_mem_operands lazy first).left _
    · exact (among_of_mem_body lazy later).right _
theorem among_of_mem_branches (lazy : Bool) : ∀ {branches : List Branch},
    e ∈ branchOperands branches → e.Among hinted (branchFindings lazy hinted branches)
  | .mk _ _ :: _,member => by
    simp only [branchOperands,List.mem_append] at member
    rcases member with (here | inside) | later
    · exact ((Expr.Among.option here).left _).left _
    · exact ((among_of_mem_body lazy inside).right _).left _
    · exact (among_of_mem_branches lazy later).right _
theorem among_of_mem_handlers (lazy : Bool) : ∀ {handlers : List Handler},
    e ∈ handlerOperands handlers → e.Among hinted (handlerFindings lazy hinted handlers)
  | .mk _ _ :: _,member => by
    simp only [handlerOperands,List.mem_append] at member
    rcases member with (here | inside) | later
    · exact ((Expr.Among.all here).left _).left _
    · exact ((among_of_mem_body lazy inside).right _).left _
    · exact (among_of_mem_handlers lazy later).right _
theorem among_of_mem_cases (lazy : Bool) : ∀ {cases : List Case},
    e ∈ caseOperands cases → e.Among hinted (caseFindings lazy hinted cases)
  | .mk _ _ _ :: _,member => by
    simp only [caseOperands,List.mem_append] at member
    rcases member with (here | inside) | later
    · exact (((Expr.Among.all here).right _).left _).left _
    · exact ((among_of_mem_body lazy inside).right _).left _
    · exact (among_of_mem_cases lazy later).right _
end

end Findings

theorem Routine.among_of_mem_operands (lazy : Bool) {routine : Routine} {e : Expr}
    (member : e ∈ routine.operands) : e.Among false (routine.scope lazy).findings := by
  cases routine with
  | function parameters body => exact (among_of_mem_body lazy member).right _
  | lambda parameters body =>
    obtain rfl := List.mem_singleton.1 member
    exact (Expr.Among.self .read).right _

/-- A `:=` is found in the scope in which its outermost comprehension stands. -/
theorem Expr.Names.walrus {n : String} {around : List (List Part)} {e : Expr} (names : e.Names n around)
    {hinted : Bool} (role : Role) : .walrus n ∈ e.findings hinted role := by
  induction names generalizing hinted role with
  | here value => exact List.mem_cons_self
  | part inside _ ih =>
    obtain ⟨own,among⟩ := Expr.Among.part inside role
    exact among (ih own)
  | @comprehension _ _ parts inside _ ih =>
    rw [Expr.findings]
    obtain ⟨own,among⟩ | ⟨_,own,among⟩ := @Expr.Among.comprehension hinted _ false parts inside
    -- Inside the comprehension the name is passed on, in its first iterables it is not in it at all.
    · have escaping : n ∈ (Scope.mk .comprehension (partFindings false parts)).escaping :=
        List.mem_filterMap.2 ⟨_,among (ih own),rfl⟩
      exact List.mem_append_left _ (List.mem_append_right _ (List.mem_map_of_mem escaping))
    · exact List.mem_append_left _ (List.mem_append_left _ (among (ih own)))

mutual
/-- The expression with the value alone in the place of every `:=`. -/
def Expr.unnamed : Expr → Expr
  | .walrus _ value => .group [value.unnamed]
  | .name id line => .name id line
  | .none => .none
  | .truth value => .truth value
  | .integer nonzero => .integer nonzero
  | .blank => .blank
  | .group items => .group (unnamedAll items)
  | .parens items => .parens (unnamedAll items)
  | .sequence form items => .sequence form (unnamedAll items)
  | .splat double items => .splat double (unnamedAll items)
  | .member object attr => .member object.unnamed attr
  | .call function arguments => .call function.unnamed arguments.unnamed
  | .subscript value indices => .subscript value.unnamed (unnamedAll indices)
  | .keyword name value => .keyword name value.unnamed
  | .aliased value target => .aliased value.unnamed target.unnamed
  | .conditional body condition alternative =>
    .conditional body.unnamed condition.unnamed alternative.unnamed
  | .conjunction left right => .conjunction left.unnamed right.unnamed
  | .disjunction left right => .disjunction left.unnamed right.unnamed
  | .negation argument => .negation argument.unnamed
  | .comparison operands comparators => .comparison (unnamedAll operands) comparators
  | .binary left right => .binary left.unnamed right.unnamed
  | .lambda parameters body => .lambda (unnamedParameters parameters) body.unnamed
  | .comprehension parts => .comprehension (unnamedParts parts)
  | .suspension place items => .suspension place (unnamedAll items)
  | .assignment target hint value =>
    .assignment target.unnamed (unnamedOption hint) (unnamedOption value)
  | .augmented target value => .augmented target.unnamed value.unnamed
def unnamedAll : List Expr → List Expr
  | [] => []
  | e :: es => e.unnamed :: unnamedAll es
def unnamedOption : Option Expr → Option Expr
  | none => none
  | some e => some e.unnamed
def unnamedParameters : List Parameter → List Parameter
  | [] => []
  | .mk target hint default :: ps =>
    .mk (unnamedOption target) (unnamedOption hint) (unnamedOption default) :: unnamedParameters ps
def unnamedParts : List Part → List Part
  | [] => []
  | .clause target iterables :: ps => .clause target.unnamed (unnamedAll iterables) :: unnamedParts ps
  | .element value :: ps => .element value.unnamed :: unnamedParts ps
end

/-- The names that a comprehension with the given findings binds. -/
def boundInside (findings : List Finding) : List String :=
  findings.filterMap (Finding.bound? .comprehension)

@[simp] theorem boundInside_append (fs gs : List Finding) :
    boundInside (fs ++ gs) = boundInside fs ++ boundInside gs := List.filterMap_append

@[simp] theorem boundInside_walruses (names : List String) : boundInside (names.map .walrus) = [] := by
  induction names with
  | nil => rfl
  | cons n ns ih => exact ih

@[simp] theorem boundInside_inner (s : Scope) : boundInside [.inner s] = [] := rfl

mutual
/-- A comprehension binds the same names with and without `:=`. -/
theorem Expr.boundInside_unnamed {hinted : Bool} {role : Role} : ∀ e : Expr,
    boundInside (e.unnamed.findings hinted role) = boundInside (e.findings hinted role)
  | .name _ _ | .none | .truth _ | .integer _ | .blank => rfl
  | .walrus _ value => by
    rw [Expr.unnamed,Expr.findings,findingsAll,findingsAll,List.append_nil,value.boundInside_unnamed]
    rfl
  | .group items | .parens items | .sequence _ items | .splat _ items | .comparison items _
  | .suspension _ items => boundInside_unnamedAll items
  | .member value _ | .keyword _ value | .negation value => value.boundInside_unnamed
  | .call left right | .aliased left right | .conjunction left right | .disjunction left right
  | .binary left right | .augmented left right => by
    simp only [Expr.unnamed,Expr.findings,boundInside_append,left.boundInside_unnamed,
      right.boundInside_unnamed]
  | .subscript value indices => by
    simp only [Expr.unnamed,Expr.findings,boundInside_append,value.boundInside_unnamed,
      boundInside_unnamedAll indices]
  | .conditional body condition alternative => by
    simp only [Expr.unnamed,Expr.findings,boundInside_append,body.boundInside_unnamed,
      condition.boundInside_unnamed,alternative.boundInside_unnamed]
  | .assignment target hint value => by
    cases hinted <;> simp [Expr.unnamed,Expr.findings,target.boundInside_unnamed,
      boundInside_unnamedOption hint,boundInside_unnamedOption value]
  | .lambda parameters body => by
    simp [Expr.unnamed,Expr.findings,boundInside_unnamedParameters parameters]
  | .comprehension parts => by
    simp [Expr.unnamed,Expr.findings,boundInside_unnamedFirst parts]
theorem boundInside_unnamedAll {hinted : Bool} {role : Role} : ∀ es : List Expr,
    boundInside (findingsAll hinted role (unnamedAll es)) = boundInside (findingsAll hinted role es)
  | [] => rfl
  | e :: es => by
    simp only [unnamedAll,findingsAll,boundInside_append,e.boundInside_unnamed,boundInside_unnamedAll es]
theorem boundInside_unnamedOption {hinted : Bool} : ∀ e? : Option Expr,
    boundInside (findingsOf hinted (unnamedOption e?)) = boundInside (findingsOf hinted e?)
  | none => rfl
  | some e => e.boundInside_unnamed
theorem boundInside_unnamedParameters {hinted : Bool} : ∀ ps : List Parameter,
    boundInside (defaultFindings hinted (unnamedParameters ps)) = boundInside (defaultFindings hinted ps)
  | [] => rfl
  | .mk _ _ default :: ps => by
    simp only [unnamedParameters,defaultFindings,Parameter.defaultFindings,boundInside_append,
      boundInside_unnamedOption default,boundInside_unnamedParameters ps]
theorem boundInside_unnamedFirst {hinted : Bool} : ∀ ps : List Part,
    boundInside (firstFindings hinted (unnamedParts ps)) = boundInside (firstFindings hinted ps)
  | [] => rfl
  | .clause _ iterables :: _ => boundInside_unnamedAll iterables
  | .element _ :: ps => boundInside_unnamedFirst ps
end

theorem boundInside_unnamedParts {seen : Bool} (ps : List Part) :
    boundInside (partFindings seen (unnamedParts ps)) = boundInside (partFindings seen ps) := by
  induction ps generalizing seen with
  | nil => rfl
  | cons part ps ih =>
    cases part with
    | clause target iterables =>
      cases seen <;> simp [unnamedParts,partFindings,target.boundInside_unnamed,
        boundInside_unnamedAll iterables,ih]
    | element value => simp [unnamedParts,partFindings,value.boundInside_unnamed,ih]

end Excerpt.Program

namespace Excerpt
open Excerpt.Execution Excerpt.Program

namespace Scope

/-- A scope itself, or a comprehension in it that is inside comprehensions only, with the frames between,
the nearest first. -/
inductive Comprehends (f : Scope) : List Frame → Scope → Prop
  | self : Comprehends f [] f
  | inner {near : List Frame} {outer : Scope} {parts : List Part} (within : Comprehends f near outer)
      (found : .inner (comprehensionScope parts) ∈ outer.findings) :
      Comprehends f (outer.frame :: near) (comprehensionScope parts)

namespace Comprehends

variable {f c : Scope} {near : List Frame}

theorem inside {root : Scope} {around : List Frame} (within : f.Comprehends near c)
    (outside : root.Inside around f) : root.Inside (near ++ around) c := by
  induction within with
  | self => exact outside
  | inner _ found ih => exact .inner ih found

/-- Between a scope and a comprehension in it nothing is declared global. -/
theorem undeclared (within : f.Comprehends near c) : near = [] ∧ c = f ∨
    c.globals = [] ∧ ∃ between, near = between ++ [f.frame] ∧ ∀ h ∈ between, h.globals = [] := by
  induction within with
  | self => exact .inl ⟨rfl,rfl⟩
  | @inner _ outer parts _ _ ih =>
    refine .inr ⟨(undeclaredParts false parts).1,?_⟩
    rcases ih with ⟨rfl,rfl⟩ | ⟨none,between,rfl,passed⟩
    · exact ⟨[],rfl,by simp⟩
    · exact ⟨outer.frame :: between,rfl,List.forall_mem_cons.2 ⟨none,passed⟩⟩

/-- What a scope binds is found from the scope and from the comprehensions in it: there, or in the module
if the scope declares it global. -/
theorem answers {s : State} {root : Scope} {around : List Frame} {ref : NameRef}
    (within : f.Comprehends near c) (kept : root ∈ s.deferred) (outside : root.Inside around f)
    (visible : f.kind ≠ .classBody) (bound : ref.name ∈ f.bindings) :
    s.Answers ⟨near ++ around,c.frame,ref⟩ := by
  by_cases declared : ref.name ∈ f.globals
  · exact .inr (.inr (.inr ⟨root,kept,around,f,outside,declared,bound⟩))
  have binds : f.frame.binds ref.name := by
    rw [Frame.binds,Bool.or_eq_true,List.contains_iff_mem]
    exact .inl bound
  left
  rcases within.undeclared with ⟨rfl,rfl⟩ | ⟨none,between,rfl,passed⟩
  · exact ⟨declared,.inl binds⟩
  · have free : ref.name ∉ c.frame.globals := by
      change ref.name ∉ c.globals
      simp [none]
    refine ⟨free,.inr (.inr ⟨between,f.frame,around,by simp,visible,binds,declared,fun h among => ?_⟩)⟩
    exact .inr (by simp [passed h among])

end Comprehends

end Scope

namespace Program

/-- The comprehensions around a `:=` are comprehensions of the scope in which the outermost one stands. -/
theorem Expr.Names.comprehends {n : String} {around : List (List Part)} {e : Expr}
    (names : e.Names n around) {f c : Scope} {near : List Frame} {hinted : Bool}
    (within : f.Comprehends near c) (among : e.Among hinted c.findings) :
    ∀ parts ∈ around, ∃ near, f.Comprehends near (comprehensionScope parts) := by
  induction names generalizing c near hinted with
  | here value => exact fun _ none => nomatch none
  | part inside _ ih =>
    obtain ⟨role,found⟩ := among
    exact ih within ((Expr.Among.part inside role).trans found)
  | @comprehension _ _ parts inside _ ih =>
    obtain ⟨role,found⟩ := among
    rw [Expr.findings] at found
    have entered := Scope.Comprehends.inner within (found (List.mem_append_right _ List.mem_cons_self))
    refine List.forall_mem_cons.2 ⟨⟨_,entered⟩,?_⟩
    obtain here | ⟨_,first⟩ := @Expr.Among.comprehension hinted _ false parts inside
    · exact ih entered here
    · exact ih within (((first.left _).left _).trans found)

theorem Routine.kind_scope (lazy : Bool) (routine : Routine) :
    (routine.scope lazy).kind = .function ∨ (routine.scope lazy).kind = .lambda := by
  cases routine with
  | function parameters body => exact .inl rfl
  | lambda parameters body => exact .inr rfl

/-- A routine binds the names of all `:=` that stand in it or in its comprehensions. -/
theorem Routine.mem_bindings (lazy : Bool) {routine : Routine} {n : String} {around : List (List Part)}
    {e : Expr} (member : e ∈ routine.operands) (names : e.Names n around) :
    n ∈ (routine.scope lazy).bindings := by
  obtain ⟨role,found⟩ := Routine.among_of_mem_operands lazy member
  refine List.mem_filterMap.2 ⟨_,found (names.walrus role),?_⟩
  rcases routine.kind_scope lazy with kind | kind <;> simp [Finding.bound?,kind]

end Program

/-- A `:=` leaves all comprehensions around it. If it stands in a function or lambda, inside
comprehensions nested to any depth but inside no other function, lambda or class, then the function binds
its name; every comprehension around it is one of the function's own, and binds the same names as if only
the value stood there. Once the function is kept for the check at the end, alone or inside another scope,
every lookup of the name in the function or in one of its comprehensions is answered, also if the function
declares the name global, so the check reports none of them. -/
theorem walrus_leaves_comprehensions (lazy : Bool) {routine : Routine} {n : String}
    {around : List (List Part)} {e : Expr} (member : e ∈ routine.operands) (names : e.Names n around) :
    n ∈ (routine.scope lazy).bindings ∧
    (∀ parts ∈ around, (comprehensionScope parts).bindings =
        (comprehensionScope (unnamedParts parts)).bindings ∧
      ∃ near, (routine.scope lazy).Comprehends near (comprehensionScope parts)) ∧
    ∀ (s : State), ∀ root ∈ s.deferred, ∀ outer, root.Inside outer (routine.scope lazy) →
      (∀ near c, (routine.scope lazy).Comprehends near c → ∀ ref ∈ c.loads, ref.name = n →
        ⟨near ++ outer,c.frame,ref⟩ ∈ s.lookups ∧ s.Answers ⟨near ++ outer,c.frame,ref⟩) ∧
      ∀ r, checkDeferred s = .error r → ∃ l, s.Reports l ∧ r = .nameError l.ref.name l.ref.line ∧
        ∀ near c, (routine.scope lazy).Comprehends near c → ∀ ref ∈ c.loads, ref.name = n →
          l ≠ ⟨near ++ outer,c.frame,ref⟩ := by
  have bound := routine.mem_bindings lazy member names
  have visible : (routine.scope lazy).kind ≠ .classBody := by
    rcases routine.kind_scope lazy with kind | kind <;> simp [kind]
  refine ⟨bound,fun parts among => ⟨(boundInside_unnamedParts parts).symm,?_⟩,
    fun s root kept outer within => ?_⟩
  · exact names.comprehends .self (routine.among_of_mem_operands lazy member) parts among
  have answered {near : List Frame} {c : Scope} (inner : (routine.scope lazy).Comprehends near c)
      {ref : NameRef} (same : ref.name = n) : s.Answers ⟨near ++ outer,c.frame,ref⟩ :=
    inner.answers kept within visible (same ▸ bound)
  refine ⟨fun near c inner ref loaded same => ⟨?_,answered inner same⟩,fun r failed => ?_⟩
  · exact (mem_lookups_iff s).2 ⟨root,kept,c,inner.inside within,rfl,loaded⟩
  · obtain ⟨l,reported,rfl⟩ := (checkDeferred_eq_error_iff s).1 failed
    refine ⟨l,reported,rfl,?_⟩
    rintro near c inner ref _ same rfl
    obtain ⟨_,_,_,missed,_⟩ := reported
    exact missed (answered inner same)

/-- A name that leaves two comprehensions, in a function that declares it global: it becomes a name of the
module, and neither the use behind the comprehensions nor the one inside the inner one is in vain. -/
theorem walrus_leaves_comprehensions_global :
    ∃ (routine : Routine) (inner outer : List Part) (near : List Frame) (s : State),
      "y" ∈ (routine.scope false).globals ∧ s.globals = [] ∧ s.deferred = [routine.scope false] ∧
      "y" ∈ (routine.scope false).bindings ∧ "y" ∉ (comprehensionScope inner).bindings ∧
      (routine.scope false).Comprehends near (comprehensionScope inner) ∧
      s.Answers ⟨[],(routine.scope false).frame,⟨"y",4⟩⟩ ∧
      s.Answers ⟨near,(comprehensionScope inner).frame,⟨"y",3⟩⟩ ∧
      (comprehensionScope outer).bindings = ["j"] := by
  let inner : List Part :=
    [.element (.walrus "y" (.name "i" 3)),.clause (.name "i" 3) [.name "j" 3],.element (.name "y" 3)]
  let outer : List Part := [.element (.comprehension inner),.clause (.name "j" 3) [.name "z" 3]]
  let routine : Routine := .function [.mk (some (.name "z" 1)) none none]
    [.globals ["y"],.evaluate [.comprehension outer],.evaluate [.name "y" 4]]
  let s : State := ⟨Modules.empty [],[],none,[routine.scope false]⟩
  have names : (Expr.comprehension outer).Names "y" [outer,inner] :=
    .comprehension List.mem_cons_self (.comprehension List.mem_cons_self (.here _))
  have member : Expr.comprehension outer ∈ routine.operands := by
    simp [routine,Routine.operands,bodyOperands,Stmt.operands]
  obtain ⟨bound,kept,checked⟩ := walrus_leaves_comprehensions false member names
  obtain ⟨same,near,entered⟩ := kept inner (by simp)
  have answered := (checked s (routine.scope false) List.mem_cons_self [] .self).1
  refine ⟨routine,inner,outer,near,s,by decide,rfl,rfl,bound,?_,entered,?_,?_,by decide⟩
  · rw [same]
    decide
  · exact (answered [] _ .self ⟨"y",4⟩ (by decide) rfl).2
  · simpa using (answered near _ entered ⟨"y",3⟩ (by decide) rfl).2

/-- In the hint of a variable of a function nothing is bound, so a name is missing that the same
comprehension binds as the value. -/
theorem hint_binds_nothing :
    validate [] "def f(z):\n    x = [(y := i) for i in z]\n    return y\n" = .valid ∧
      validate [] "def f(z):\n    x: [(y := i) for i in z] = 1\n    return y\n" =
        .undefinedReference "y" 3 := by
  decide +kernel

end Excerpt
