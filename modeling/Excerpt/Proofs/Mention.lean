import Excerpt.Proofs.Declaration
import Excerpt.Proofs.Effect

/-!
The names that stand in a piece of a program, other than those of definitions, imports and
declarations. Running the piece and resolving its scopes reads and deletes no other names.
-/
namespace Excerpt.Program
open Excerpt.Scope

mutual
/-- The names that stand in an expression as expressions of their own. -/
def Expr.names : Expr → List String
  | .name id _ => [id]
  | .none | .truth _ | .integer _ | .blank => []
  | .group items | .parens items | .sequence _ items | .splat _ items => namesAll items
  | .member object _ => object.names
  | .call function arguments => function.names ++ arguments.names
  | .subscript value indices => value.names ++ namesAll indices
  | .keyword _ value | .walrus _ value => value.names
  | .aliased value target => value.names ++ target.names
  | .conditional body condition alternative => body.names ++ condition.names ++ alternative.names
  | .conjunction left right | .disjunction left right | .binary left right =>
    left.names ++ right.names
  | .negation argument => argument.names
  | .comparison operands _ => namesAll operands
  | .lambda parameters body => parameterNames parameters ++ body.names
  | .comprehension parts => partNames parts
  | .suspension _ items => namesAll items
  | .assignment target hint value => target.names ++ namesOf hint ++ namesOf value
  | .augmented target value => target.names ++ value.names
def namesAll : List Expr → List String
  | [] => []
  | e :: es => e.names ++ namesAll es
def namesOf : Option Expr → List String
  | none => []
  | some e => e.names
def parameterNames : List Parameter → List String
  | [] => []
  | .mk target hint default :: ps =>
    namesOf target ++ namesOf hint ++ namesOf default ++ parameterNames ps
def partNames : List Part → List String
  | [] => []
  | .clause target iterables :: ps => target.names ++ namesAll iterables ++ partNames ps
  | .element value :: ps => value.names ++ partNames ps
end

def PatternName.loaded? : PatternName → Option String
  | .load name _ => some name
  | .capture _ => none

mutual
/-- The names that stand in a statement as expressions of their own, or are looked up by a
pattern. -/
def Stmt.names : Stmt → List String
  | .skip | .importing _ | .globals _ | .nonlocals _ => []
  | .evaluate items | .delete items | .raising items _ | .result _ items => namesAll items
  | .define decorations definition =>
    decorations.flatMap (namesAll ·.items) ++ definition.names
  | .branch branches => branchNames branches
  | .forLoop target iterable body otherwise =>
    target.names ++ iterable.names ++ bodyNames body ++ bodyNames otherwise
  | .whileLoop condition body otherwise => condition.names ++ bodyNames body ++ bodyNames otherwise
  | .attempt body handlers otherwise final =>
    bodyNames body ++ handlerNames handlers ++ bodyNames otherwise ++ bodyNames final
  | .within items body => namesAll items ++ bodyNames body
  | .choose subjects cases => namesAll subjects ++ caseNames cases
  | .typeAlias _ target value => namesOf target ++ namesOf value
def bodyNames : List Stmt → List String
  | [] => []
  | s :: ss => s.names ++ bodyNames ss
def Definition.names : Definition → List String
  | .classDef _ bases body => namesAll bases ++ bodyNames body
  | .function _ parameters hint body => parameterNames parameters ++ namesOf hint ++ bodyNames body
def branchNames : List Branch → List String
  | [] => []
  | .mk condition body :: bs => namesOf condition ++ bodyNames body ++ branchNames bs
def handlerNames : List Handler → List String
  | [] => []
  | .mk items body :: hs => namesAll items ++ bodyNames body ++ handlerNames hs
def caseNames : List Case → List String
  | [] => []
  | .mk patterns condition body :: cs =>
    patterns.filterMap PatternName.loaded? ++ namesAll condition ++ bodyNames body ++ caseNames cs
end

theorem mem_namesAll {n : String} {es : List Expr} : n ∈ namesAll es ↔ ∃ e ∈ es, n ∈ e.names := by
  induction es with
  | nil => simp [namesAll]
  | cons e es ih => simp [namesAll,ih]

theorem mem_namesOf {n : String} {e? : Option Expr} : n ∈ namesOf e? ↔ ∃ e ∈ e?, n ∈ e.names := by
  cases e? <;> simp [namesOf]

@[simp] theorem findingMentions_walruses (names : List String) :
    findingMentions (names.map .walrus) = [] := by
  induction names with
  | nil => rfl
  | cons n ns ih => exact ih

mutual
/-- What an expression looks up in its scope, or in scopes of its own, stands in it. -/
theorem Expr.mentions_findings {n : String} {hinted : Bool} {role : Role} :
    ∀ e : Expr, n ∈ findingMentions (e.findings hinted role) → n ∈ e.names
  | .name id line, member => by
    cases role with
    | read => exact member
    | bind => cases member
  | .none, member | .truth _, member | .integer _, member | .blank, member => by
    simp [Expr.findings,findingMentions] at member
  | .group items, member | .comparison items _, member | .suspension _ items, member =>
    mentions_findingsAll items member
  | .parens items, member | .sequence _ items, member | .splat _ items, member =>
    mentions_findingsAll items member
  | .member object _, member => object.mentions_findings member
  | .keyword _ value, member => value.mentions_findings member
  | .walrus _ value, member => value.mentions_findings member
  | .negation argument, member => argument.mentions_findings member
  | .call left right, member | .conjunction left right, member | .disjunction left right, member
  | .binary left right, member | .aliased left right, member => by
    simp only [Expr.findings,findingMentions_append,List.mem_append] at member
    simp only [Expr.names,List.mem_append]
    exact member.imp left.mentions_findings right.mentions_findings
  | .subscript value indices, member => by
    simp only [Expr.findings,findingMentions_append,List.mem_append] at member
    simp only [Expr.names,List.mem_append]
    exact member.imp value.mentions_findings (mentions_findingsAll indices)
  | .conditional body condition alternative, member => by
    simp only [Expr.findings,findingMentions_append,List.mem_append] at member
    simp only [Expr.names,List.mem_append]
    exact member.imp (.imp body.mentions_findings condition.mentions_findings)
      alternative.mentions_findings
  | .lambda parameters body, member => by
    simp only [Expr.findings,findingMentions_append,findingMentions,mentions,List.append_nil,
      List.mem_append] at member
    simp only [Expr.names,List.mem_append]
    rcases member with default | target | inside
    · exact .inl (mentions_defaultFindings parameters default)
    · exact .inl (mentions_targetFindings parameters target)
    · exact .inr (body.mentions_findings inside)
  | .comprehension parts, member => by
    simp only [Expr.findings,findingMentions_append,findingMentions_walruses,findingMentions,
      mentions,List.append_nil,List.mem_append] at member
    exact member.elim (mentions_firstFindings parts) (mentions_partFindings parts)
  | .assignment target hint value, member => by
    simp only [Expr.findings,findingMentions_append,List.mem_append] at member
    simp only [Expr.names,List.mem_append]
    refine member.imp (.imp target.mentions_findings fun shown => ?_) (mentions_findingsOf value)
    cases hinted with
    | false => simp [findingMentions] at shown
    | true => exact mentions_findingsOf hint shown
  | .augmented target value, member => by
    simp only [Expr.findings,findingMentions_append,List.mem_append] at member
    simp only [Expr.names,List.mem_append]
    exact member.imp (fun shown => shown.elim target.mentions_findings target.mentions_findings)
      value.mentions_findings
theorem mentions_findingsAll {n : String} {hinted : Bool} {role : Role} :
    ∀ es : List Expr, n ∈ findingMentions (findingsAll hinted role es) → n ∈ namesAll es
  | [], member => by simp [findingsAll,findingMentions] at member
  | e :: es, member => by
    simp only [findingsAll,findingMentions_append,List.mem_append] at member
    simp only [namesAll,List.mem_append]
    exact member.imp e.mentions_findings (mentions_findingsAll es)
theorem mentions_findingsOf {n : String} {hinted : Bool} :
    ∀ e? : Option Expr, n ∈ findingMentions (findingsOf hinted e?) → n ∈ namesOf e?
  | none, member => by simp [findingsOf,findingMentions] at member
  | some e, member => e.mentions_findings member
theorem mentions_targetFindings {n : String} :
    ∀ ps : List Parameter, n ∈ findingMentions (targetFindings ps) → n ∈ parameterNames ps
  | [], member => by simp [targetFindings,findingMentions] at member
  | .mk target hint default :: ps, member => by
    simp only [targetFindings,Parameter.targetFindings,findingMentions_append,List.mem_append]
      at member
    simp only [parameterNames,List.mem_append,or_assoc]
    exact member.imp (mentions_boundFindings target)
      fun later => .inr (.inr (mentions_targetFindings ps later))
theorem mentions_boundFindings {n : String} :
    ∀ e? : Option Expr, n ∈ findingMentions (boundFindings e?) → n ∈ namesOf e?
  | none, member => by simp [boundFindings,findingMentions] at member
  | some e, member => e.mentions_findings member
theorem mentions_defaultFindings {n : String} {hinted : Bool} :
    ∀ ps : List Parameter, n ∈ findingMentions (defaultFindings hinted ps) → n ∈ parameterNames ps
  | [], member => by simp [defaultFindings,findingMentions] at member
  | .mk target hint default :: ps, member => by
    simp only [defaultFindings,Parameter.defaultFindings,findingMentions_append,List.mem_append]
      at member
    simp only [parameterNames,List.mem_append]
    exact member.imp (fun own => .inr (mentions_findingsOf default own))
      (mentions_defaultFindings ps)
theorem mentions_firstFindings {n : String} {hinted : Bool} :
    ∀ ps : List Part, n ∈ findingMentions (firstFindings hinted ps) → n ∈ partNames ps
  | [], member => by simp [firstFindings,findingMentions] at member
  | .clause target iterables :: ps, member => by
    simp only [partNames,List.mem_append]
    exact .inl (.inr (mentions_findingsAll iterables member))
  | .element value :: ps, member => by
    simp only [partNames,List.mem_append]
    exact .inr (mentions_firstFindings ps member)
theorem mentions_partFindings {n : String} {seen : Bool} :
    ∀ ps : List Part, n ∈ findingMentions (partFindings seen ps) → n ∈ partNames ps
  | [], member => by simp [partFindings,findingMentions] at member
  | .clause target iterables :: ps, member => by
    simp only [partFindings,findingMentions_append,List.mem_append] at member
    simp only [partNames,List.mem_append]
    refine member.imp (.imp target.mentions_findings fun shown => ?_) (mentions_partFindings ps)
    cases seen with
    | false => simp [findingMentions] at shown
    | true => exact mentions_findingsAll iterables shown
  | .element value :: ps, member => by
    simp only [partFindings,findingMentions_append,List.mem_append] at member
    simp only [partNames,List.mem_append]
    exact member.imp value.mentions_findings (mentions_partFindings ps)
end

@[simp] theorem findingMentions_binds (names : List String) :
    findingMentions (names.map .bind) = [] := by
  induction names with
  | nil => rfl
  | cons n ns ih => exact ih

@[simp] theorem findingMentions_globals (names : List String) :
    findingMentions (names.map .declareGlobal) = [] := by
  induction names with
  | nil => rfl
  | cons n ns ih => exact ih

@[simp] theorem findingMentions_nonlocals (names : List String) :
    findingMentions (names.map .declareNonlocal) = [] := by
  induction names with
  | nil => rfl
  | cons n ns ih => exact ih

@[simp] theorem findingMentions_patterns (patterns : List PatternName) :
    findingMentions (patterns.map PatternName.finding) =
      patterns.filterMap PatternName.loaded? := by
  induction patterns with
  | nil => rfl
  | cons p ps ih =>
    cases p with
    | capture name => exact ih
    | load name line => exact congrArg (name :: ·) ih

theorem mentions_decorations {n : String} {hinted : Bool} (ds : List Decoration)
    (member : n ∈ findingMentions (ds.flatMap (·.findings hinted))) :
    n ∈ ds.flatMap (namesAll ·.items) := by
  induction ds with
  | nil => simp [findingMentions] at member
  | cons d ds ih =>
    simp only [List.flatMap_cons,findingMentions_append,List.mem_append] at member
    simp only [List.flatMap_cons,List.mem_append]
    exact member.imp (mentions_findingsAll d.items) ih

theorem mem_parameterNames_of_definitionTime {n : String} {lazy : Bool} {e : Expr}
    (shown : n ∈ e.names) :
    ∀ ps : List Parameter, e ∈ ps.flatMap (·.definitionTime lazy) → n ∈ parameterNames ps
  | [], among => by cases among
  | .mk target hint default :: ps, among => by
    rw [List.flatMap_cons,List.mem_append] at among
    simp only [parameterNames,List.mem_append,mem_namesOf]
    rcases among with own | later
    · simp only [Parameter.definitionTime,List.mem_append] at own
      rcases own with early | late
      · cases lazy with
        | true => cases early
        | false => exact .inl (.inl (.inr ⟨e,by simpa using early,shown⟩))
      · exact .inl (.inr ⟨e,by simpa using late,shown⟩)
    · exact .inr (mem_parameterNames_of_definitionTime shown ps later)

/-- What is evaluated with a definition stands in its parameters or its hint. -/
theorem mem_names_of_definitionTime {n : String} {lazy : Bool} {ps : List Parameter}
    {hint : Option Expr} (member : n ∈ namesAll (definitionTime lazy ps hint)) :
    n ∈ parameterNames ps ++ namesOf hint := by
  obtain ⟨e,among,shown⟩ := mem_namesAll.1 member
  simp only [definitionTime,List.mem_append] at among
  rw [List.mem_append]
  refine among.imp (mem_parameterNames_of_definitionTime shown ps) fun own => ?_
  cases lazy with
  | true => cases own
  | false => exact mem_namesOf.2 ⟨e,by simpa using own,shown⟩

mutual
/-- What a statement looks up in its scope, or in scopes of its own, stands in it. -/
theorem Stmt.mentions_findings {n : String} {lazy hinted : Bool} :
    ∀ s : Stmt, n ∈ findingMentions (s.findings lazy hinted) → n ∈ s.names
  | .skip, member => by cases member
  | .importing _, member | .globals _, member | .nonlocals _, member => by
    simp [Stmt.findings] at member
  | .evaluate items, member | .delete items, member | .raising items _, member
  | .result _ items, member => mentions_findingsAll items member
  | .define ds d, member => by
    simp only [Stmt.findings,findingMentions_append,List.mem_append] at member
    simp only [Stmt.names,List.mem_append]
    exact member.imp (mentions_decorations ds) d.mentions_findings
  | .branch bs, member => mentions_branchFindings bs member
  | .forLoop target iterable body otherwise, member => by
    simp only [Stmt.findings,findingMentions_append,List.mem_append] at member
    simp only [Stmt.names,List.mem_append]
    exact member.imp (.imp (.imp target.mentions_findings iterable.mentions_findings)
      (mentions_bodyFindings body)) (mentions_bodyFindings otherwise)
  | .whileLoop condition body otherwise, member => by
    simp only [Stmt.findings,findingMentions_append,List.mem_append] at member
    simp only [Stmt.names,List.mem_append]
    exact member.imp (.imp condition.mentions_findings (mentions_bodyFindings body))
      (mentions_bodyFindings otherwise)
  | .attempt body handlers otherwise final, member => by
    simp only [Stmt.findings,findingMentions_append,List.mem_append] at member
    simp only [Stmt.names,List.mem_append]
    exact member.imp (.imp (.imp (mentions_bodyFindings body) (mentions_handlerFindings handlers))
      (mentions_bodyFindings otherwise)) (mentions_bodyFindings final)
  | .within items body, member => by
    simp only [Stmt.findings,findingMentions_append,List.mem_append] at member
    simp only [Stmt.names,List.mem_append]
    exact member.imp (mentions_findingsAll items) (mentions_bodyFindings body)
  | .choose subjects cases, member => by
    simp only [Stmt.findings,findingMentions_append,List.mem_append] at member
    simp only [Stmt.names,List.mem_append]
    exact member.imp (mentions_findingsAll subjects) (mentions_caseFindings cases)
  | .typeAlias _ target value, member => by
    simp only [Stmt.findings,findingMentions_append,List.mem_append] at member
    simp only [Stmt.names,List.mem_append]
    refine member.imp (fun shown => ?_) (mentions_findingsOf value)
    cases target with
    | none => cases shown
    | some e => exact e.mentions_findings shown
theorem mentions_bodyFindings {n : String} {lazy hinted : Bool} :
    ∀ ss : List Stmt, n ∈ findingMentions (bodyFindings lazy hinted ss) → n ∈ bodyNames ss
  | [], member => by cases member
  | s :: ss, member => by
    simp only [bodyFindings,findingMentions_append,List.mem_append] at member
    simp only [bodyNames,List.mem_append]
    exact member.imp s.mentions_findings (mentions_bodyFindings ss)
theorem Definition.mentions_findings {n : String} {lazy hinted : Bool} :
    ∀ d : Definition, n ∈ findingMentions (d.findings lazy hinted) → n ∈ d.names
  | .classDef _ bases body, member => by
    simp only [Definition.findings,findingMentions_append,findingMentions,mentions,
      List.append_nil,List.mem_append] at member
    simp only [Definition.names,List.mem_append]
    exact member.imp (mentions_findingsAll bases) (mentions_bodyFindings body)
  | .function _ ps hint body, member => by
    simp only [Definition.findings,findingMentions_append,findingMentions,mentions,
      List.append_nil,List.mem_append] at member
    rw [Definition.names,List.mem_append]
    rcases member with early | target | inside
    · exact .inl (mem_names_of_definitionTime (mentions_findingsAll _ early))
    · exact .inl (List.mem_append_left _ (mentions_targetFindings ps target))
    · exact .inr (mentions_bodyFindings body inside)
theorem mentions_branchFindings {n : String} {lazy hinted : Bool} :
    ∀ bs : List Branch, n ∈ findingMentions (branchFindings lazy hinted bs) → n ∈ branchNames bs
  | [], member => by cases member
  | .mk condition body :: bs, member => by
    simp only [branchFindings,findingMentions_append,List.mem_append] at member
    simp only [branchNames,List.mem_append]
    exact member.imp (.imp (mentions_findingsOf condition) (mentions_bodyFindings body))
      (mentions_branchFindings bs)
theorem mentions_handlerFindings {n : String} {lazy hinted : Bool} :
    ∀ hs : List Handler, n ∈ findingMentions (handlerFindings lazy hinted hs) → n ∈ handlerNames hs
  | [], member => by cases member
  | .mk items body :: hs, member => by
    simp only [handlerFindings,findingMentions_append,List.mem_append] at member
    simp only [handlerNames,List.mem_append]
    exact member.imp (.imp (mentions_findingsAll items) (mentions_bodyFindings body))
      (mentions_handlerFindings hs)
theorem mentions_caseFindings {n : String} {lazy hinted : Bool} :
    ∀ cs : List Case, n ∈ findingMentions (caseFindings lazy hinted cs) → n ∈ caseNames cs
  | [], member => by cases member
  | .mk patterns condition body :: cs, member => by
    simp only [caseFindings,findingMentions_append,findingMentions_patterns,List.mem_append]
      at member
    simp only [caseNames,List.mem_append]
    exact member.imp (.imp (.imp id (mentions_findingsAll condition)) (mentions_bodyFindings body))
      (mentions_caseFindings cs)
end

/-- Whether an effect reads, deletes and leaves for later only names of the given ones. What is
left for later adds names to the module only if it is a function. -/
def Effect.Within (names : List String) : Effect → Prop
  | .read n | .drop n => n ∈ names
  | .defer scope =>
    scope.mentions ⊆ names ∧ (scope.kind ≠ .function → scope.globalStores = [])
  | .bind _ | .touch | .halt => True

theorem Effect.Within.mono {few many : List String} (included : few ⊆ many) {x : Effect}
    (within : x.Within few) : x.Within many := by
  cases x with
  | read n => exact included within
  | drop n => exact included within
  | defer scope => exact ⟨fun n shown => included (within.1 shown),within.2⟩
  | bind | touch | halt => trivial

/-- Whether all effects of a list keep to the given names. -/
def EffectsWithin (names : List String) (effects : List Effect) : Prop :=
  ∀ x ∈ effects, x.Within names

namespace EffectsWithin

variable {few many names left right : List String} {effects more : List Effect}

theorem mono (within : EffectsWithin few effects) (included : few ⊆ many) :
    EffectsWithin many effects := fun x member => (within x member).mono included

theorem nil : EffectsWithin names [] := by simp [EffectsWithin]

theorem cons {x : Effect} (first : x.Within names) (rest : EffectsWithin names effects) :
    EffectsWithin names (x :: effects) := by
  simpa [EffectsWithin] using ⟨first,rest⟩

theorem append (first : EffectsWithin names effects) (second : EffectsWithin names more) :
    EffectsWithin names (effects ++ more) := by
  intro x member
  exact (List.mem_append.1 member).elim (first x) (second x)

/-- Effects side by side keep to the names that stand side by side. -/
theorem join (first : EffectsWithin left effects) (second : EffectsWithin right more) :
    EffectsWithin (left ++ right) (effects ++ more) :=
  (first.mono (List.subset_append_left _ _)).append (second.mono (List.subset_append_right _ _))

theorem binds (bound : List String) : EffectsWithin names (bound.map .bind) := by
  intro x member
  obtain ⟨n,_,rfl⟩ := List.mem_map.1 member
  trivial

theorem single {x : Effect} (within : x.Within names) : EffectsWithin names [x] :=
  .cons within .nil

theorem filter (within : EffectsWithin names effects) (keep : Effect → Bool) :
    EffectsWithin names (effects.filter keep) :=
  fun x member => within x (List.mem_filter.1 member).1

end EffectsWithin

theorem mentions_lambdaScope (ps : List Parameter) (body : Expr) :
    (lambdaScope ps body).mentions ⊆ parameterNames ps ++ body.names := by
  intro n member
  simp only [lambdaScope,mentions,findingMentions_append,List.mem_append] at member
  exact List.mem_append.2 (member.imp (mentions_targetFindings ps) body.mentions_findings)

theorem mentions_comprehensionScope (parts : List Part) :
    (comprehensionScope parts).mentions ⊆ partNames parts :=
  fun _ member => mentions_partFindings parts member

theorem mentions_functionScope (lazy : Bool) (ps : List Parameter) (body : List Stmt) :
    (functionScope lazy ps body).mentions ⊆ parameterNames ps ++ bodyNames body := by
  intro n member
  simp only [functionScope,mentions,findingMentions_append,List.mem_append] at member
  exact List.mem_append.2 (member.imp (mentions_targetFindings ps) (mentions_bodyFindings body))

mutual
/-- Evaluating an expression reads only names that stand in it, and so do the scopes it leaves for
later. -/
theorem Expr.effects_within : ∀ e : Expr, EffectsWithin e.names e.effects
  | .name id _ => .single (by simp [Effect.Within,Expr.names])
  | .none | .truth _ | .integer _ | .blank => .nil
  | .group items | .parens items | .sequence _ items | .splat _ items => effectsAll_within items
  | .comparison items _ => effectsAll_within items
  | .member object _ => object.effects_within
  | .keyword _ value => value.effects_within
  | .negation argument => argument.effects_within
  | .walrus _ value => value.effects_within.append (.single trivial)
  | .call left right | .conjunction left right | .disjunction left right | .binary left right
  | .aliased left right => left.effects_within.join right.effects_within
  | .augmented target value => target.effects_within.join value.effects_within
  | .subscript value indices => value.effects_within.join (effectsAll_within indices)
  | .conditional body condition alternative => by
    refine (EffectsWithin.append ?_ ?_).join alternative.effects_within
    · exact condition.effects_within.mono (List.subset_append_right _ _)
    · exact body.effects_within.mono (List.subset_append_left _ _)
  | .lambda ps body =>
    ((defaultEffects_within ps).mono (List.subset_append_left _ _)).append
      (.single ⟨mentions_lambdaScope ps body,fun _ => globalStores_lambdaScope ps body⟩)
  | .comprehension parts =>
    ((iterableEffects_within parts).append (.binds _)).append
      (.single ⟨mentions_comprehensionScope parts,fun _ => globalStores_comprehensionScope parts⟩)
  | .suspension _ _ => .single trivial
  | .assignment target hint value =>
    (target.effects_within.join (effectsOf_within hint)).join (effectsOf_within value)
theorem effectsAll_within : ∀ es : List Expr, EffectsWithin (namesAll es) (effectsAll es)
  | [] => .nil
  | e :: es => e.effects_within.join (effectsAll_within es)
theorem effectsOf_within : ∀ e? : Option Expr, EffectsWithin (namesOf e?) (effectsOf e?)
  | none => .nil
  | some e => e.effects_within
theorem defaultEffects_within :
    ∀ ps : List Parameter, EffectsWithin (parameterNames ps) (defaultEffects ps)
  | [] => .nil
  | .mk _ _ default :: ps =>
    ((effectsOf_within default).mono (List.subset_append_right _ _)).join (defaultEffects_within ps)
theorem iterableEffects_within :
    ∀ ps : List Part, EffectsWithin (partNames ps) (iterableEffects ps)
  | [] => .nil
  | .clause target iterables :: _ =>
    ((effectsAll_within iterables).mono (List.subset_append_right target.names _)).mono
      (List.subset_append_left _ _)
  | .element _ :: ps => (iterableEffects_within ps).mono (List.subset_append_right _ _)
end

mutual
theorem Expr.targetEffects_within : ∀ e : Expr, EffectsWithin e.names e.targetEffects
  | .name _ _ => .single trivial
  | .member object _ => object.effects_within.append (.single trivial)
  | .parens items => targetEffectsAll_within items
  | .sequence form items => by
    rw [Expr.targetEffects]
    split
    · exact targetEffectsAll_within items
    · exact effectsAll_within items
  | .splat double items => by
    rw [Expr.targetEffects]
    split
    · exact effectsAll_within items
    · exact targetEffectsAll_within items
  | .none | .truth _ | .integer _ | .blank | .group _ | .call _ _ | .subscript _ _ | .keyword _ _
  | .walrus _ _ | .aliased _ _ | .conditional _ _ _ | .conjunction _ _ | .disjunction _ _
  | .negation _ | .comparison _ _ | .binary _ _ | .lambda _ _ | .comprehension _ | .suspension _ _
  | .assignment _ _ _ | .augmented _ _ => Expr.effects_within _
theorem targetEffectsAll_within :
    ∀ es : List Expr, EffectsWithin (namesAll es) (targetEffectsAll es)
  | [] => .nil
  | e :: es => e.targetEffects_within.join (targetEffectsAll_within es)
end

mutual
theorem Expr.removalEffects_within : ∀ e : Expr, EffectsWithin e.names e.removalEffects
  | .name id _ => .single (by simp [Effect.Within,Expr.names])
  | .parens items => removalEffectsAll_within items
  | .sequence form items => by
    rw [Expr.removalEffects]
    split
    · exact removalEffectsAll_within items
    · exact effectsAll_within items
  | .splat double items => by
    rw [Expr.removalEffects]
    split
    · exact effectsAll_within items
    · exact removalEffectsAll_within items
  | .none | .truth _ | .integer _ | .blank | .group _ | .member _ _ | .call _ _ | .subscript _ _
  | .keyword _ _ | .walrus _ _ | .aliased _ _ | .conditional _ _ _ | .conjunction _ _
  | .disjunction _ _ | .negation _ | .comparison _ _ | .binary _ _ | .lambda _ _
  | .comprehension _ | .suspension _ _ | .assignment _ _ _ | .augmented _ _ =>
    Expr.effects_within _
theorem removalEffectsAll_within :
    ∀ es : List Expr, EffectsWithin (namesAll es) (removalEffectsAll es)
  | [] => .nil
  | e :: es => e.removalEffects_within.join (removalEffectsAll_within es)
end

mutual
theorem Expr.performEffects_within (lazy : Bool) :
    ∀ e : Expr, EffectsWithin e.names (e.performEffects lazy)
  | .assignment target hint value => by
    have hinted : EffectsWithin (namesOf hint) (if lazy then [] else effectsOf hint) := by
      cases lazy with
      | true => exact .nil
      | false => exact effectsOf_within hint
    refine ((performEffectsOf_within lazy value).join hinted |>.join
      target.targetEffects_within).mono fun n member => ?_
    simp only [Expr.names,List.mem_append] at member ⊢
    rcases member with (shown | shown) | shown
    · exact .inr shown
    · exact .inl (.inr shown)
    · exact .inl (.inl shown)
  | .augmented target operand =>
    (target.effects_within.join operand.effects_within).append
      (target.targetEffects_within.mono (List.subset_append_left _ _))
  | .name _ _ | .none | .truth _ | .integer _ | .blank | .group _ | .parens _ | .sequence _ _
  | .splat _ _ | .member _ _ | .call _ _ | .subscript _ _ | .keyword _ _ | .walrus _ _
  | .aliased _ _ | .conditional _ _ _ | .conjunction _ _ | .disjunction _ _ | .negation _
  | .comparison _ _ | .binary _ _ | .lambda _ _ | .comprehension _ | .suspension _ _ =>
    Expr.effects_within _
theorem performEffectsOf_within (lazy : Bool) :
    ∀ e? : Option Expr, EffectsWithin (namesOf e?) (performEffectsOf lazy e?)
  | none => .nil
  | some e => e.performEffects_within lazy
end

theorem Expr.entryEffects_within (e : Expr) : EffectsWithin e.names e.entryEffects := by
  cases e with
  | aliased value target => exact value.effects_within.join target.targetEffects_within
  | _ => exact Expr.effects_within _

theorem Expr.aliasEffects_within (e : Expr) : EffectsWithin e.names e.aliasEffects := by
  cases e with
  | aliased value target =>
    exact target.targetEffects_within.mono (List.subset_append_right _ _)
  | _ => exact .nil

/-- What holds of each expression holds of them all together. -/
theorem flatMap_within {effects : Expr → List Effect}
    (within : ∀ e : Expr, EffectsWithin e.names (effects e)) (es : List Expr) :
    EffectsWithin (namesAll es) (es.flatMap effects) := by
  induction es with
  | nil => exact .nil
  | cons e es ih =>
    rw [List.flatMap_cons]
    exact (within e).join ih

theorem decorationEffects_within (ds : List Decoration) :
    EffectsWithin (ds.flatMap (namesAll ·.items)) (ds.flatMap (effectsAll ·.items)) := by
  induction ds with
  | nil => exact .nil
  | cons d ds ih =>
    rw [List.flatMap_cons,List.flatMap_cons]
    exact (effectsAll_within d.items).join ih

mutual
/-- Running a statement reads and deletes only names that stand in it, and so do the scopes it
leaves for later. -/
theorem Stmt.effects_within (lazy : Bool) : ∀ s : Stmt, EffectsWithin s.names (s.effects lazy)
  | .skip | .globals _ | .nonlocals _ => .nil
  | .evaluate items => flatMap_within (Expr.performEffects_within lazy) items
  | .importing statement => .cons trivial (.binds statement.boundNames)
  | .define ds d =>
    ((decorationEffects_within ds).join (d.effects_within lazy)).append (.single trivial)
  | .branch bs => branchEffects_within lazy bs
  | .forLoop target iterable body otherwise => by
    refine (EffectsWithin.join ?_ (bodyEffects_within lazy body)).join
      (bodyEffects_within lazy otherwise)
    exact (iterable.effects_within.mono (List.subset_append_right _ _)).append
      (target.targetEffects_within.mono (List.subset_append_left _ _))
  | .whileLoop condition body otherwise =>
    (condition.effects_within.join (bodyEffects_within lazy body)).join
      (bodyEffects_within lazy otherwise)
  | .attempt body handlers otherwise final =>
    (((bodyEffects_within lazy body).join (handlerEffects_within lazy handlers)).join
      (bodyEffects_within lazy otherwise)).join (bodyEffects_within lazy final)
  | .within items body =>
    (flatMap_within Expr.entryEffects_within items).join (bodyEffects_within lazy body)
  | .choose subjects cases => (effectsAll_within subjects).join (caseEffects_within lazy cases)
  | .delete targets => removalEffectsAll_within targets
  | .raising items _ => effectsAll_within items
  | .result _ _ => .single trivial
  | .typeAlias name _ _ => .binds name.toList
theorem bodyEffects_within (lazy : Bool) :
    ∀ ss : List Stmt, EffectsWithin (bodyNames ss) (bodyEffects lazy ss)
  | [] => .nil
  | s :: ss => (s.effects_within lazy).join (bodyEffects_within lazy ss)
theorem Definition.effects_within (lazy : Bool) :
    ∀ d : Definition, EffectsWithin d.names (d.effects lazy)
  | .classDef _ bases body =>
    (effectsAll_within bases).join ((bodyEffects_within lazy body).filter _)
  | .function _ ps hint body => by
    refine EffectsWithin.append ?_ (.single ⟨fun n shown => ?_,fun other => absurd rfl other⟩)
    · exact ((effectsAll_within _).mono fun _ => mem_names_of_definitionTime).mono
        (List.subset_append_left _ _)
    · have := mentions_functionScope lazy ps body shown
      simp only [Definition.names,List.mem_append] at this ⊢
      exact this.imp .inl id
theorem branchEffects_within (lazy : Bool) :
    ∀ bs : List Branch, EffectsWithin (branchNames bs) (branchEffects lazy bs)
  | [] => .nil
  | .mk condition body :: bs =>
    ((effectsOf_within condition).join (bodyEffects_within lazy body)).join
      (branchEffects_within lazy bs)
theorem handlerEffects_within (lazy : Bool) :
    ∀ hs : List Handler, EffectsWithin (handlerNames hs) (handlerEffects lazy hs)
  | [] => .nil
  | .mk items body :: hs =>
    ((flatMap_within Expr.aliasEffects_within items).join (bodyEffects_within lazy body)).join
      (handlerEffects_within lazy hs)
theorem caseEffects_within (lazy : Bool) :
    ∀ cs : List Case, EffectsWithin (caseNames cs) (caseEffects lazy cs)
  | [] => .nil
  | .mk _ condition body :: cs =>
    (((EffectsWithin.binds _).join (effectsAll_within condition)).join
      (bodyEffects_within lazy body)).join (caseEffects_within lazy cs)
end

end Excerpt.Program
