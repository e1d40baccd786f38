import Excerpt.Scope.Scan

/-!
Properties of names with their lines. What holds of every name of a program holds of every name that
a scope of the program looks up, so also of those that are looked up in vain. Names that are deleted
are told apart from all others.
-/
namespace Excerpt

mutual
/-- Every name that is looked up in a scope, or in a scope inside it, has the property. -/
def Scope.Each (p : NameRef → Prop) : Scope → Prop
  | .mk _ fs => eachFinding p fs
def eachFinding (p : NameRef → Prop) : List Finding → Prop
  | [] => True
  | .load ref :: fs => p ref ∧ eachFinding p fs
  | .inner scope :: fs => scope.Each p ∧ eachFinding p fs
  | .bind _ :: fs | .walrus _ :: fs | .declareGlobal _ :: fs | .declareNonlocal _ :: fs =>
    eachFinding p fs
end

section Findings

variable {p : NameRef → Prop}

@[simp] theorem eachFinding_append {fs gs : List Finding} :
    eachFinding p (fs ++ gs) ↔ eachFinding p fs ∧ eachFinding p gs := by
  induction fs with
  | nil => simp [eachFinding]
  | cons f fs ih => cases f <;> simp [eachFinding,ih,and_assoc]

theorem eachFinding_map {f : String → Finding}
    (quiet : ∀ n fs, eachFinding p fs → eachFinding p (f n :: fs)) (names : List String) :
    eachFinding p (names.map f) := by
  induction names with
  | nil => trivial
  | cons n ns ih => exact quiet n _ ih

theorem of_mem_loads {ref : NameRef} {fs : List Finding} (each : eachFinding p fs)
    (loaded : ref ∈ fs.filterMap Finding.load?) : p ref := by
  induction fs with
  | nil => cases loaded
  | cons f fs ih =>
    cases f with
    | load r =>
      rcases List.mem_cons.1 loaded with rfl | later
      · exact each.1
      · exact ih each.2 later
    | inner scope => exact ih each.2 loaded
    | bind name => exact ih each loaded
    | walrus name => exact ih each loaded
    | declareGlobal name => exact ih each loaded
    | declareNonlocal name => exact ih each loaded

mutual
/-- What is looked up in vain is looked up somewhere. -/
theorem Scope.Each.of_mem_unresolved {isModuleName : String → Bool} {around : List Frame} {ref : NameRef} :
    ∀ {scope : Scope}, scope.Each p → ref ∈ scope.unresolved isModuleName around → p ref
  | .mk k fs,each,vain => by
    rw [Scope.unresolved,List.mem_append] at vain
    rcases vain with own | inside
    · exact of_mem_loads each (List.mem_filter.1 own).1
    · exact of_mem_innerUnresolved each inside
theorem of_mem_innerUnresolved {isModuleName : String → Bool} {around : List Frame} {ref : NameRef} :
    ∀ {fs : List Finding}, eachFinding p fs → ref ∈ Scope.innerUnresolved isModuleName around fs → p ref
  | [],_,vain => by cases vain
  | .inner scope :: fs,each,vain => by
    rw [Scope.innerUnresolved,List.mem_append] at vain
    exact vain.elim each.1.of_mem_unresolved (of_mem_innerUnresolved each.2)
  | .load _ :: fs,each,vain => of_mem_innerUnresolved each.2 vain
  | .bind _ :: fs,each,vain | .walrus _ :: fs,each,vain | .declareGlobal _ :: fs,each,vain
  | .declareNonlocal _ :: fs,each,vain => of_mem_innerUnresolved (show eachFinding p fs from each) vain
end

end Findings

end Excerpt

namespace Excerpt.Program

mutual
/-- Every name that stands in an expression as an expression of its own has the property. -/
def Expr.Each (p : NameRef → Prop) : Expr → Prop
  | .name id line => p ⟨id,line⟩
  | .none | .truth _ | .integer _ | .blank => True
  | .group items | .parens items | .sequence _ items | .splat _ items => eachAll p items
  | .member object _ => object.Each p
  | .call function arguments => function.Each p ∧ arguments.Each p
  | .subscript value indices => value.Each p ∧ eachAll p indices
  | .keyword _ value | .walrus _ value => value.Each p
  | .aliased value target => value.Each p ∧ target.Each p
  | .conditional body condition alternative => body.Each p ∧ condition.Each p ∧ alternative.Each p
  | .conjunction left right | .disjunction left right | .binary left right =>
    left.Each p ∧ right.Each p
  | .negation argument => argument.Each p
  | .comparison operands _ => eachAll p operands
  | .lambda parameters body => eachParameter p parameters ∧ body.Each p
  | .comprehension parts => eachPart p parts
  | .suspension _ items => eachAll p items
  | .assignment target hint value => target.Each p ∧ eachOption p hint ∧ eachOption p value
  | .augmented target value => target.Each p ∧ value.Each p
def eachAll (p : NameRef → Prop) : List Expr → Prop
  | [] => True
  | e :: es => e.Each p ∧ eachAll p es
def eachOption (p : NameRef → Prop) : Option Expr → Prop
  | none => True
  | some e => e.Each p
def eachParameter (p : NameRef → Prop) : List Parameter → Prop
  | [] => True
  | .mk target hint default :: ps =>
    eachOption p target ∧ eachOption p hint ∧ eachOption p default ∧ eachParameter p ps
def eachPart (p : NameRef → Prop) : List Part → Prop
  | [] => True
  | .clause target iterables :: ps => target.Each p ∧ eachAll p iterables ∧ eachPart p ps
  | .element value :: ps => value.Each p ∧ eachPart p ps
end

mutual
/-- Every name that a deletion of the expression unbinds has the property. -/
def Expr.EachRemoved (q : NameRef → Prop) : Expr → Prop
  | .name id line => q ⟨id,line⟩
  | .parens items => eachRemoved q items
  | .sequence form items => form.isTarget = true → eachRemoved q items
  | .splat double items => double = false → eachRemoved q items
  | _ => True
def eachRemoved (q : NameRef → Prop) : List Expr → Prop
  | [] => True
  | e :: es => e.EachRemoved q ∧ eachRemoved q es
end

/-- A name that a pattern looks up has the property. -/
def PatternName.Each (p : NameRef → Prop) : PatternName → Prop
  | .capture _ => True
  | .load name line => p ⟨name,line⟩

mutual
/-- Every name of a statement has the property `p`, and every name that is deleted `q`. -/
def Stmt.Each (p q : NameRef → Prop) : Stmt → Prop
  | .skip | .importing _ | .globals _ | .nonlocals _ => True
  | .evaluate items | .raising items _ | .result _ items => eachAll p items
  | .delete items => eachAll p items ∧ eachRemoved q items
  | .define decorations definition => (∀ d ∈ decorations, eachAll p d.items) ∧ definition.Each p q
  | .branch branches => eachBranch p q branches
  | .forLoop target iterable body otherwise =>
    target.Each p ∧ iterable.Each p ∧ eachStmt p q body ∧ eachStmt p q otherwise
  | .whileLoop condition body otherwise =>
    condition.Each p ∧ eachStmt p q body ∧ eachStmt p q otherwise
  | .attempt body handlers otherwise final =>
    eachStmt p q body ∧ eachHandler p q handlers ∧ eachStmt p q otherwise ∧ eachStmt p q final
  | .within items body => eachAll p items ∧ eachStmt p q body
  | .choose subjects cases => eachAll p subjects ∧ eachCase p q cases
  | .typeAlias _ target value => eachOption p target ∧ eachOption p value
def eachStmt (p q : NameRef → Prop) : List Stmt → Prop
  | [] => True
  | s :: ss => s.Each p q ∧ eachStmt p q ss
def Definition.Each (p q : NameRef → Prop) : Definition → Prop
  | .classDef _ bases body => eachAll p bases ∧ eachStmt p q body
  | .function _ parameters hint body =>
    eachParameter p parameters ∧ eachOption p hint ∧ eachStmt p q body
def eachBranch (p q : NameRef → Prop) : List Branch → Prop
  | [] => True
  | .mk condition body :: bs => eachOption p condition ∧ eachStmt p q body ∧ eachBranch p q bs
def eachHandler (p q : NameRef → Prop) : List Handler → Prop
  | [] => True
  | .mk items body :: hs => eachAll p items ∧ eachStmt p q body ∧ eachHandler p q hs
def eachCase (p q : NameRef → Prop) : List Case → Prop
  | [] => True
  | .mk patterns condition body :: cs =>
    (∀ n ∈ patterns, n.Each p) ∧ eachAll p condition ∧ eachStmt p q body ∧ eachCase p q cs
end

variable {p q : NameRef → Prop}

theorem eachAll_iff {es : List Expr} : eachAll p es ↔ ∀ e ∈ es, e.Each p := by
  induction es with
  | nil => simp [eachAll]
  | cons e es ih => simp [eachAll,ih]

theorem eachOption_iff {e? : Option Expr} : eachOption p e? ↔ ∀ e ∈ e?, e.Each p := by
  cases e? <;> simp [eachOption]

mutual
/-- An expression looks up nothing but its names, in its scope or in scopes of its own. -/
theorem Expr.Each.findings {hinted : Bool} {role : Role} :
    ∀ {e : Expr}, e.Each p → eachFinding p (e.findings hinted role)
  | .name id line,each => by
    cases role with
    | read => exact ⟨each,trivial⟩
    | bind => trivial
  | .none,_ | .truth _,_ | .integer _,_ | .blank,_ => trivial
  | .group _,each | .comparison _ _,each | .suspension _ _,each | .parens _,each
  | .sequence _ _,each | .splat _ _,each => findings_eachAll each
  | .member object _,each => Expr.Each.findings (e := object) each
  | .keyword _ value,each | .walrus _ value,each => Expr.Each.findings (e := value) each
  | .negation argument,each => Expr.Each.findings (e := argument) each
  | .call _ _,each | .conjunction _ _,each | .disjunction _ _,each | .binary _ _,each
  | .aliased _ _,each => eachFinding_append.2 ⟨each.1.findings,each.2.findings⟩
  | .subscript _ _,each => eachFinding_append.2 ⟨each.1.findings,findings_eachAll each.2⟩
  | .conditional _ _ _,each =>
    eachFinding_append.2 ⟨eachFinding_append.2 ⟨each.1.findings,each.2.1.findings⟩,each.2.2.findings⟩
  | .lambda _ _,each => by
    refine eachFinding_append.2 ⟨findings_defaults each.1,?_,trivial⟩
    exact eachFinding_append.2 ⟨findings_targets each.1,each.2.findings⟩
  | .comprehension _,each => by
    refine eachFinding_append.2 ⟨eachFinding_append.2 ⟨findings_first each,?_⟩,
      findings_parts each,trivial⟩
    exact eachFinding_map (f := .walrus) (fun _ _ rest => rest) _
  | .assignment _ hint _,each => by
    refine eachFinding_append.2 ⟨eachFinding_append.2 ⟨each.1.findings,?_⟩,
      findings_eachOption each.2.2⟩
    split
    · exact findings_eachOption each.2.1
    · trivial
  | .augmented _ _,each =>
    eachFinding_append.2 ⟨eachFinding_append.2 ⟨each.1.findings,each.1.findings⟩,each.2.findings⟩
theorem findings_eachAll {hinted : Bool} {role : Role} :
    ∀ {es : List Expr}, eachAll p es → eachFinding p (findingsAll hinted role es)
  | [],_ => trivial
  | _ :: _,each => eachFinding_append.2 ⟨each.1.findings,findings_eachAll each.2⟩
theorem findings_eachOption {hinted : Bool} :
    ∀ {e? : Option Expr}, eachOption p e? → eachFinding p (findingsOf hinted e?)
  | none,_ => trivial
  | some e,each => Expr.Each.findings (e := e) each
theorem findings_targets : ∀ {ps : List Parameter}, eachParameter p ps → eachFinding p (targetFindings ps)
  | [],_ => trivial
  | .mk _ _ _ :: _,each => eachFinding_append.2 ⟨findings_bound each.1,findings_targets each.2.2.2⟩
theorem findings_bound : ∀ {e? : Option Expr}, eachOption p e? → eachFinding p (boundFindings e?)
  | none,_ => trivial
  | some e,each => Expr.Each.findings (e := e) each
theorem findings_defaults {hinted : Bool} :
    ∀ {ps : List Parameter}, eachParameter p ps → eachFinding p (defaultFindings hinted ps)
  | [],_ => trivial
  | .mk _ _ _ :: _,each =>
    eachFinding_append.2 ⟨findings_eachOption each.2.2.1,findings_defaults each.2.2.2⟩
theorem findings_first {hinted : Bool} :
    ∀ {ps : List Part}, eachPart p ps → eachFinding p (firstFindings hinted ps)
  | [],_ => trivial
  | .clause _ _ :: _,each => findings_eachAll each.2.1
  | .element _ :: _,each => by
    rw [firstFindings]
    exact findings_first each.2
theorem findings_parts {seen : Bool} :
    ∀ {ps : List Part}, eachPart p ps → eachFinding p (partFindings seen ps)
  | [],_ => trivial
  | .clause _ _ :: _,each => by
    refine eachFinding_append.2 ⟨eachFinding_append.2 ⟨each.1.findings,?_⟩,findings_parts each.2.2⟩
    split
    · exact findings_eachAll each.2.1
    · trivial
  | .element _ :: _,each => eachFinding_append.2 ⟨each.1.findings,findings_parts each.2⟩
end

theorem each_lambdaScope {ps : List Parameter} {body : Expr} (parameters : eachParameter p ps)
    (each : body.Each p) : (lambdaScope ps body).Each p :=
  eachFinding_append.2 ⟨findings_targets parameters,each.findings⟩

theorem each_comprehensionScope {ps : List Part} (each : eachPart p ps) :
    (comprehensionScope ps).Each p := findings_parts each

theorem each_definitionTime {lazy : Bool} {ps : List Parameter} {hint : Option Expr}
    (parameters : eachParameter p ps) (returned : eachOption p hint) :
    eachAll p (definitionTime lazy ps hint) := by
  rw [eachAll_iff]
  intro e early
  have kept {e? : Option Expr} (each : eachOption p e?)
      (member : e ∈ if lazy then [] else e?.toList) : e.Each p := by
    split at member
    · cases member
    · exact eachOption_iff.1 each e (Option.mem_toList.1 member)
  rcases List.mem_append.1 early with inside | last
  · induction ps with
    | nil => cases inside
    | cons r rs ih =>
      obtain ⟨_,h,d⟩ := r
      obtain ⟨_,hinted,valued,rest⟩ := parameters
      simp only [List.flatMap_cons,Parameter.definitionTime,List.mem_append] at inside
      rcases inside with (here | here) | later
      · exact kept hinted here
      · exact eachOption_iff.1 valued e (Option.mem_toList.1 here)
      · exact ih rest (List.mem_append_left _ later) later
  · exact kept returned last

theorem findings_patterns {patterns : List PatternName} (each : ∀ n ∈ patterns, n.Each p) :
    eachFinding p (patterns.map PatternName.finding) := by
  induction patterns with
  | nil => trivial
  | cons n ns ih =>
    obtain ⟨first,rest⟩ := List.forall_mem_cons.1 each
    cases n with
    | capture name => exact ih rest
    | load name line => exact ⟨first,ih rest⟩

theorem findings_decorations {hinted : Bool} {ds : List Decoration}
    (each : ∀ d ∈ ds, eachAll p d.items) : eachFinding p (ds.flatMap (·.findings hinted)) := by
  induction ds with
  | nil => trivial
  | cons d ds ih =>
    obtain ⟨first,rest⟩ := List.forall_mem_cons.1 each
    exact eachFinding_append.2 ⟨findings_eachAll first,ih rest⟩

mutual
theorem Stmt.Each.findings {lazy hinted : Bool} :
    ∀ {s : Stmt}, s.Each p q → eachFinding p (s.findings lazy hinted)
  | .skip,_ => trivial
  | .importing _,_ => eachFinding_map (f := .bind) (fun _ _ rest => rest) _
  | .globals _,_ => eachFinding_map (f := .declareGlobal) (fun _ _ rest => rest) _
  | .nonlocals _,_ => eachFinding_map (f := .declareNonlocal) (fun _ _ rest => rest) _
  | .evaluate _,each | .raising _ _,each | .result _ _,each => findings_eachAll each
  | .delete _,each => findings_eachAll each.1
  | .define _ _,each => eachFinding_append.2 ⟨findings_decorations each.1,each.2.findings⟩
  | .branch _,each => findings_branches each
  | .forLoop _ _ _ _,each => by
    obtain ⟨target,iterable,body,otherwise⟩ := each
    simp only [Stmt.findings,eachFinding_append]
    exact ⟨⟨⟨target.findings,iterable.findings⟩,findings_eachStmt body⟩,findings_eachStmt otherwise⟩
  | .whileLoop _ _ _,each => by
    obtain ⟨condition,body,otherwise⟩ := each
    simp only [Stmt.findings,eachFinding_append]
    exact ⟨⟨condition.findings,findings_eachStmt body⟩,findings_eachStmt otherwise⟩
  | .attempt _ _ _ _,each => by
    obtain ⟨body,handlers,otherwise,final⟩ := each
    simp only [Stmt.findings,eachFinding_append]
    exact ⟨⟨⟨findings_eachStmt body,findings_handlers handlers⟩,findings_eachStmt otherwise⟩,
      findings_eachStmt final⟩
  | .within _ _,each => eachFinding_append.2 ⟨findings_eachAll each.1,findings_eachStmt each.2⟩
  | .choose _ _,each => eachFinding_append.2 ⟨findings_eachAll each.1,findings_cases each.2⟩
  | .typeAlias _ target _,each => by
    refine eachFinding_append.2 ⟨?_,findings_eachOption each.2⟩
    cases target with
    | none => trivial
    | some e => exact Expr.Each.findings each.1
theorem findings_eachStmt {lazy hinted : Bool} :
    ∀ {ss : List Stmt}, eachStmt p q ss → eachFinding p (bodyFindings lazy hinted ss)
  | [],_ => trivial
  | _ :: _,each => eachFinding_append.2 ⟨each.1.findings,findings_eachStmt each.2⟩
theorem Definition.Each.findings {lazy hinted : Bool} :
    ∀ {d : Definition}, d.Each p q → eachFinding p (d.findings lazy hinted)
  | .classDef _ _ _,each =>
    eachFinding_append.2 ⟨findings_eachAll each.1,findings_eachStmt each.2,trivial⟩
  | .function _ _ _ _,each => by
    obtain ⟨parameters,hint,body⟩ := each
    refine eachFinding_append.2 ⟨findings_eachAll (each_definitionTime parameters hint),?_,trivial⟩
    exact eachFinding_append.2 ⟨findings_targets parameters,findings_eachStmt body⟩
theorem findings_branches {lazy hinted : Bool} :
    ∀ {bs : List Branch}, eachBranch p q bs → eachFinding p (branchFindings lazy hinted bs)
  | [],_ => trivial
  | .mk _ _ :: _,each => by
    simp only [branchFindings,eachFinding_append]
    exact ⟨⟨findings_eachOption each.1,findings_eachStmt each.2.1⟩,findings_branches each.2.2⟩
theorem findings_handlers {lazy hinted : Bool} :
    ∀ {hs : List Handler}, eachHandler p q hs → eachFinding p (handlerFindings lazy hinted hs)
  | [],_ => trivial
  | .mk _ _ :: _,each => by
    simp only [handlerFindings,eachFinding_append]
    exact ⟨⟨findings_eachAll each.1,findings_eachStmt each.2.1⟩,findings_handlers each.2.2⟩
theorem findings_cases {lazy hinted : Bool} :
    ∀ {cs : List Case}, eachCase p q cs → eachFinding p (caseFindings lazy hinted cs)
  | [],_ => trivial
  | .mk _ _ _ :: _,each => by
    simp only [caseFindings,eachFinding_append]
    exact ⟨⟨⟨findings_patterns each.1,findings_eachAll each.2.1⟩,findings_eachStmt each.2.2.1⟩,
      findings_cases each.2.2.2⟩
end

theorem each_functionScope {lazy : Bool} {ps : List Parameter} {body : List Stmt}
    (parameters : eachParameter p ps) (each : eachStmt p q body) :
    (functionScope lazy ps body).Each p :=
  eachFinding_append.2 ⟨findings_targets parameters,findings_eachStmt each⟩

end Excerpt.Program
