import Excerpt.Proofs.PermittedRun
import Excerpt.Validation

/-!
What statements bind, found out in two ways: by running them, and by scanning them for the scope they
stand in. The scan lists every name that a run can bind or delete, whatever branch it takes and
wherever it fails.
-/
namespace Excerpt.Program

/-- Whether an effect changes what a name of the current namespace stands for. -/
def Effect.alters (n : String) : Effect → Bool
  | .bind name | .drop name => name == n
  | _ => false

def Altered (n : String) (effects : List Effect) : Prop := effects.any (Effect.alters n)

/-- Whether a scope that is not that of a comprehension binds a name. -/
def Found (n : String) (findings : List Finding) : Prop := .bind n ∈ findings ∨ .walrus n ∈ findings

section

variable {n : String}

@[simp] theorem altered_nil : ¬ Altered n [] := nofun

@[simp] theorem altered_append {es fs : List Effect} :
    Altered n (es ++ fs) ↔ Altered n es ∨ Altered n fs := by
  simp [Altered]

@[simp] theorem altered_singleton {e : Effect} : Altered n [e] ↔ e.alters n := by
  simp [Altered]

@[simp] theorem altered_binds {names : List String} :
    Altered n (names.map .bind) ↔ n ∈ names := by
  simp [Altered,Effect.alters]

theorem altered_cons {e : Effect} {es : List Effect} :
    Altered n (e :: es) ↔ e.alters n ∨ Altered n es := by
  simp [Altered]

@[simp] theorem found_append {es fs : List Finding} :
    Found n (es ++ fs) ↔ Found n es ∨ Found n fs := by
  simp only [Found,List.mem_append]
  exact or_or_or_comm

@[simp] theorem found_cons {f : Finding} {fs : List Finding} :
    Found n (f :: fs) ↔ f = .bind n ∨ f = .walrus n ∨ Found n fs := by
  simp only [Found,List.mem_cons,eq_comm]
  exact or_or_or_comm.trans or_assoc

@[simp] theorem found_binds {names : List String} : Found n (names.map .bind) ↔ n ∈ names := by
  simp [Found]

@[simp] theorem found_walruses {names : List String} : Found n (names.map .walrus) ↔ n ∈ names := by
  simp [Found]

/-- The names that are bound in the scope of a class are those that were found. -/
theorem mem_bindings_iff {findings : List Finding} :
    n ∈ (Scope.mk .classBody findings).bindings ↔ Found n findings := by
  simp only [Scope.bindings,Scope.findings,Scope.kind,List.mem_filterMap,Found]
  constructor
  · rintro ⟨f,member,bound⟩
    cases f <;> simp [Finding.bound?] at bound <;> subst bound <;> simp [member]
  · rintro (member | member) <;> exact ⟨_,member,by simp [Finding.bound?]⟩

end

mutual
/-- Expressions that hold no assignment. -/
def Expr.unassigned : Expr → Bool
  | .name _ _ | .none | .truth _ | .integer _ | .blank => true
  | .group items | .parens items | .sequence _ items | .splat _ items | .comparison items _
  | .suspension _ items => unassignedAll items
  | .member value _ | .keyword _ value | .walrus _ value | .negation value => value.unassigned
  | .call left right | .aliased left right | .conjunction left right | .disjunction left right
  | .binary left right | .augmented left right => left.unassigned && right.unassigned
  | .subscript value indices => value.unassigned && unassignedAll indices
  | .conditional body condition alternative =>
    body.unassigned && condition.unassigned && alternative.unassigned
  | .lambda parameters body => unassignedParameters parameters && body.unassigned
  | .comprehension parts => unassignedParts parts
  | .assignment _ _ _ => false
def unassignedAll : List Expr → Bool
  | [] => true
  | e :: es => e.unassigned && unassignedAll es
def unassignedOf : Option Expr → Bool
  | none => true
  | some e => e.unassigned
def unassignedParameters : List Parameter → Bool
  | [] => true
  | .mk target hint default :: ps =>
    unassignedOf target && unassignedOf hint && unassignedOf default && unassignedParameters ps
def unassignedParts : List Part → Bool
  | [] => true
  | .clause target iterables :: ps =>
    target.unassigned && unassignedAll iterables && unassignedParts ps
  | .element value :: ps => value.unassigned && unassignedParts ps
end

mutual
/-- Expressions that may stand as a statement: assignments stand only on the right side of others. -/
def Expr.isPlaced : Expr → Bool
  | .assignment target hint value => target.unassigned && unassignedOf hint && placedOf value
  | e => e.unassigned
def placedOf : Option Expr → Bool
  | none => true
  | some e => e.isPlaced
end

mutual
/-- Statements without type aliases in which assignments stand only as statements or on the right side
of others. What definitions hold in their bodies does not matter. -/
def Stmt.isOrderly : Stmt → Bool
  | .skip | .importing _ | .globals _ | .nonlocals _ => true
  | .evaluate items => items.all Expr.isPlaced
  | .define decorations definition =>
    decorations.all (unassignedAll ·.items) && definition.isOrderly
  | .branch branches => orderlyBranches branches
  | .forLoop target iterable body otherwise =>
    target.unassigned && iterable.unassigned && orderlyBody body && orderlyBody otherwise
  | .whileLoop condition body otherwise =>
    condition.unassigned && orderlyBody body && orderlyBody otherwise
  | .attempt body handlers otherwise final =>
    orderlyBody body && orderlyHandlers handlers && orderlyBody otherwise && orderlyBody final
  | .within items body => unassignedAll items && orderlyBody body
  | .choose subjects cases => unassignedAll subjects && orderlyCases cases
  | .delete items | .raising items _ | .result _ items => unassignedAll items
  | .typeAlias _ _ _ => false
def orderlyBody : List Stmt → Bool
  | [] => true
  | s :: ss => s.isOrderly && orderlyBody ss
def Definition.isOrderly : Definition → Bool
  | .classDef _ bases _ => unassignedAll bases
  | .function _ parameters hint _ => unassignedParameters parameters && unassignedOf hint
def orderlyBranches : List Branch → Bool
  | [] => true
  | .mk condition body :: bs => unassignedOf condition && orderlyBody body && orderlyBranches bs
def orderlyHandlers : List Handler → Bool
  | [] => true
  | .mk items body :: hs => unassignedAll items && orderlyBody body && orderlyHandlers hs
def orderlyCases : List Case → Bool
  | [] => true
  | .mk _ condition body :: cs => unassignedAll condition && orderlyBody body && orderlyCases cs
end

mutual
/-- What evaluating an expression binds is found in it, whether it is read or assigned to. -/
theorem Expr.found_of_effects {n : String} {hinted : Bool} {role : Role} :
    ∀ e : Expr, e.unassigned → Altered n e.effects → Found n (e.findings hinted role)
  | .name id line, _, altered => by simp [Expr.effects,Effect.alters] at altered
  | .none, _, altered | .truth _, _, altered | .integer _, _, altered | .blank, _, altered => by
    simp [Expr.effects] at altered
  | .group items, pure, altered | .comparison items _, pure, altered =>
    found_of_effectsAll items pure altered
  | .parens items, pure, altered | .sequence _ items, pure, altered | .splat _ items, pure, altered =>
    found_of_effectsAll items pure altered
  | .suspension _ _, _, altered => by simp [Expr.effects,Effect.alters] at altered
  | .member value _, pure, altered => value.found_of_effects pure altered
  | .keyword _ value, pure, altered => value.found_of_effects pure altered
  | .negation value, pure, altered => value.found_of_effects pure altered
  | .walrus name value, pure, altered => by
    simp only [Expr.effects,altered_append,altered_singleton,Effect.alters,beq_iff_eq] at altered
    simp only [Expr.findings,found_cons]
    rcases altered with inside | rfl
    · exact .inr (.inr (value.found_of_effects pure inside))
    · exact .inr (.inl rfl)
  | .call left right, pure, altered | .conjunction left right, pure, altered
  | .disjunction left right, pure, altered | .binary left right, pure, altered
  | .aliased left right, pure, altered => by
    simp only [Expr.unassigned,Bool.and_eq_true] at pure
    simp only [Expr.effects,altered_append] at altered
    simp only [Expr.findings,found_append]
    exact altered.imp (left.found_of_effects pure.1) (right.found_of_effects pure.2)
  | .augmented left right, pure, altered => by
    simp only [Expr.unassigned,Bool.and_eq_true] at pure
    simp only [Expr.effects,altered_append] at altered
    simp only [Expr.findings,found_append]
    exact altered.imp (fun own => .inl (left.found_of_effects pure.1 own))
      (right.found_of_effects pure.2)
  | .subscript value indices, pure, altered => by
    simp only [Expr.unassigned,Bool.and_eq_true] at pure
    simp only [Expr.effects,altered_append] at altered
    simp only [Expr.findings,found_append]
    exact altered.imp (value.found_of_effects pure.1) (found_of_effectsAll indices pure.2)
  | .conditional body condition alternative, pure, altered => by
    simp only [Expr.unassigned,Bool.and_eq_true] at pure
    simp only [Expr.effects,altered_append] at altered
    simp only [Expr.findings,found_append]
    rcases altered with (inside | inside) | inside
    · exact .inl (.inr (condition.found_of_effects pure.1.2 inside))
    · exact .inl (.inl (body.found_of_effects pure.1.1 inside))
    · exact .inr (alternative.found_of_effects pure.2 inside)
  | .lambda parameters body, pure, altered => by
    simp only [Expr.unassigned,Bool.and_eq_true] at pure
    simp only [Expr.effects,altered_append,altered_singleton,Effect.alters,Bool.false_eq_true,
      or_false] at altered
    simp only [Expr.findings,found_append]
    exact .inl (found_of_defaultEffects parameters pure.1 altered)
  | .comprehension parts, pure, altered => by
    simp only [Expr.effects,altered_append,altered_binds,altered_singleton,Effect.alters,
      Bool.false_eq_true,or_false] at altered
    simp only [Expr.findings,found_append,found_walruses]
    exact .inl (altered.imp_left (found_of_iterableEffects parts pure))
theorem found_of_effectsAll {n : String} {hinted : Bool} {role : Role} :
    ∀ es : List Expr, unassignedAll es → Altered n (effectsAll es) → Found n (findingsAll hinted role es)
  | [], _, altered => absurd altered altered_nil
  | e :: es, pure, altered => by
    simp only [unassignedAll,Bool.and_eq_true] at pure
    simp only [effectsAll,altered_append] at altered
    simp only [findingsAll,found_append]
    exact altered.imp (e.found_of_effects pure.1) (found_of_effectsAll es pure.2)
theorem found_of_effectsOf {n : String} {hinted : Bool} :
    ∀ e? : Option Expr, unassignedOf e? → Altered n (effectsOf e?) → Found n (findingsOf hinted e?)
  | none, _, altered => absurd altered altered_nil
  | some e, pure, altered => e.found_of_effects pure altered
theorem found_of_defaultEffects {n : String} {hinted : Bool} :
    ∀ ps : List Parameter, unassignedParameters ps → Altered n (defaultEffects ps) →
      Found n (defaultFindings hinted ps)
  | [], _, altered => absurd altered altered_nil
  | .mk _ _ default :: ps, pure, altered => by
    simp only [unassignedParameters,Bool.and_eq_true] at pure
    simp only [defaultEffects,altered_append] at altered
    simp only [defaultFindings,Parameter.defaultFindings,found_append]
    exact altered.imp (found_of_effectsOf default pure.1.2) (found_of_defaultEffects ps pure.2)
theorem found_of_iterableEffects {n : String} {hinted : Bool} :
    ∀ ps : List Part, unassignedParts ps → Altered n (iterableEffects ps) →
      Found n (firstFindings hinted ps)
  | [], _, altered => absurd altered altered_nil
  | .clause _ iterables :: ps, pure, altered => by
    simp only [unassignedParts,Bool.and_eq_true] at pure
    exact found_of_effectsAll iterables pure.1.2 altered
  | .element _ :: ps, pure, altered => by
    simp only [unassignedParts,Bool.and_eq_true] at pure
    exact found_of_iterableEffects ps pure.2 altered
end

mutual
/-- What an assignment to a target binds is found in the target. -/
theorem Expr.found_of_targetEffects {n : String} {hinted : Bool} :
    ∀ e : Expr, e.unassigned → Altered n e.targetEffects → Found n (e.findings hinted .bind)
  | .name id _, _, altered => by
    simp only [Expr.targetEffects,altered_singleton,Effect.alters,beq_iff_eq] at altered
    simp [Expr.findings,altered]
  | .member object _, pure, altered => by
    simp only [Expr.targetEffects,altered_append,altered_singleton,Effect.alters,Bool.false_eq_true,
      or_false] at altered
    exact object.found_of_effects pure altered
  | .parens items, pure, altered => found_of_targetEffectsAll items pure altered
  | .sequence form items, pure, altered => by
    rw [Expr.targetEffects] at altered
    rw [Expr.findings]
    split at altered
    · next target =>
      rw [if_pos target]
      exact found_of_targetEffectsAll items pure altered
    · exact found_of_effectsAll items pure altered
  | .splat double items, pure, altered => by
    rw [Expr.targetEffects] at altered
    rw [Expr.findings]
    split at altered
    · exact found_of_effectsAll items pure altered
    · next single =>
      rw [if_neg single]
      exact found_of_targetEffectsAll items pure altered
  | .none, pure, altered | .truth _, pure, altered | .integer _, pure, altered | .blank, pure, altered
  | .group _, pure, altered | .call _ _, pure, altered | .subscript _ _, pure, altered
  | .keyword _ _, pure, altered | .walrus _ _, pure, altered | .aliased _ _, pure, altered
  | .conditional _ _ _, pure, altered | .conjunction _ _, pure, altered
  | .disjunction _ _, pure, altered | .negation _, pure, altered | .comparison _ _, pure, altered
  | .binary _ _, pure, altered | .lambda _ _, pure, altered | .comprehension _, pure, altered
  | .suspension _ _, pure, altered | .augmented _ _, pure, altered =>
    Expr.found_of_effects _ pure altered
theorem found_of_targetEffectsAll {n : String} {hinted : Bool} :
    ∀ es : List Expr, unassignedAll es → Altered n (targetEffectsAll es) →
      Found n (findingsAll hinted .bind es)
  | [], _, altered => absurd altered altered_nil
  | e :: es, pure, altered => by
    simp only [unassignedAll,Bool.and_eq_true] at pure
    simp only [targetEffectsAll,altered_append] at altered
    simp only [findingsAll,found_append]
    exact altered.imp (e.found_of_targetEffects pure.1) (found_of_targetEffectsAll es pure.2)
end

mutual
/-- A target that is deleted counts as bound, too. -/
theorem Expr.found_of_removalEffects {n : String} {hinted : Bool} :
    ∀ e : Expr, e.unassigned → Altered n e.removalEffects → Found n (e.findings hinted .bind)
  | .name id _, _, altered => by
    simp only [Expr.removalEffects,altered_singleton,Effect.alters,beq_iff_eq] at altered
    simp [Expr.findings,altered]
  | .parens items, pure, altered => found_of_removalEffectsAll items pure altered
  | .sequence form items, pure, altered => by
    rw [Expr.removalEffects] at altered
    rw [Expr.findings]
    split at altered
    · next target =>
      rw [if_pos target]
      exact found_of_removalEffectsAll items pure altered
    · exact found_of_effectsAll items pure altered
  | .splat double items, pure, altered => by
    rw [Expr.removalEffects] at altered
    rw [Expr.findings]
    split at altered
    · exact found_of_effectsAll items pure altered
    · next single =>
      rw [if_neg single]
      exact found_of_removalEffectsAll items pure altered
  | .none, pure, altered | .truth _, pure, altered | .integer _, pure, altered | .blank, pure, altered
  | .group _, pure, altered | .member _ _, pure, altered | .call _ _, pure, altered
  | .subscript _ _, pure, altered | .keyword _ _, pure, altered | .walrus _ _, pure, altered
  | .aliased _ _, pure, altered | .conditional _ _ _, pure, altered | .conjunction _ _, pure, altered
  | .disjunction _ _, pure, altered | .negation _, pure, altered | .comparison _ _, pure, altered
  | .binary _ _, pure, altered | .lambda _ _, pure, altered | .comprehension _, pure, altered
  | .suspension _ _, pure, altered | .augmented _ _, pure, altered =>
    Expr.found_of_effects _ pure altered
theorem found_of_removalEffectsAll {n : String} {hinted : Bool} :
    ∀ es : List Expr, unassignedAll es → Altered n (removalEffectsAll es) →
      Found n (findingsAll hinted .bind es)
  | [], _, altered => absurd altered altered_nil
  | e :: es, pure, altered => by
    simp only [unassignedAll,Bool.and_eq_true] at pure
    simp only [removalEffectsAll,altered_append] at altered
    simp only [findingsAll,found_append]
    exact altered.imp (e.found_of_removalEffects pure.1) (found_of_removalEffectsAll es pure.2)
end

mutual
/-- What an expression binds that stands as a statement. Its hints are found where they are
evaluated. -/
theorem Expr.found_of_performEffects {n : String} {lazy : Bool} :
    ∀ e : Expr, e.isPlaced → Altered n (e.performEffects lazy) → Found n (e.findings (!lazy) .read)
  | .assignment target hint value, placed, altered => by
    simp only [Expr.isPlaced,Bool.and_eq_true] at placed
    simp only [Expr.performEffects,altered_append] at altered
    simp only [Expr.findings,found_append]
    rcases altered with (inside | hinted) | bound
    · exact .inr (found_of_performEffectsOf value placed.2 inside)
    · cases lazy with
      | true => exact absurd hinted altered_nil
      | false => exact .inl (.inr (found_of_effectsOf hint placed.1.2 hinted))
    · exact .inl (.inl (target.found_of_targetEffects placed.1.1 bound))
  | .augmented target operand, placed, altered => by
    simp only [Expr.isPlaced,Expr.unassigned,Bool.and_eq_true] at placed
    simp only [Expr.performEffects,altered_append] at altered
    simp only [Expr.findings,found_append]
    rcases altered with (inside | inside) | bound
    · exact .inl (.inr (target.found_of_effects placed.1 inside))
    · exact .inr (operand.found_of_effects placed.2 inside)
    · exact .inl (.inl (target.found_of_targetEffects placed.1 bound))
  | .name _ _, placed, altered | .none, placed, altered | .truth _, placed, altered
  | .integer _, placed, altered | .blank, placed, altered | .group _, placed, altered
  | .parens _, placed, altered | .sequence _ _, placed, altered | .splat _ _, placed, altered
  | .member _ _, placed, altered | .call _ _, placed, altered | .subscript _ _, placed, altered
  | .keyword _ _, placed, altered | .walrus _ _, placed, altered | .aliased _ _, placed, altered
  | .conditional _ _ _, placed, altered | .conjunction _ _, placed, altered
  | .disjunction _ _, placed, altered | .negation _, placed, altered | .comparison _ _, placed, altered
  | .binary _ _, placed, altered | .lambda _ _, placed, altered | .comprehension _, placed, altered
  | .suspension _ _, placed, altered => Expr.found_of_effects _ placed altered
theorem found_of_performEffectsOf {n : String} {lazy : Bool} :
    ∀ e? : Option Expr, placedOf e? → Altered n (performEffectsOf lazy e?) →
      Found n (findingsOf (!lazy) e?)
  | none, _, altered => absurd altered altered_nil
  | some e, placed, altered => e.found_of_performEffects placed altered
end

theorem Expr.found_of_entryEffects {n : String} {hinted : Bool} (e : Expr) (pure : e.unassigned)
    (altered : Altered n e.entryEffects) : Found n (e.findings hinted .read) := by
  cases e
  case aliased value target =>
    simp only [Expr.unassigned,Bool.and_eq_true] at pure
    simp only [Expr.entryEffects,altered_append] at altered
    simp only [Expr.findings,found_append]
    exact altered.imp (value.found_of_effects pure.1) (target.found_of_targetEffects pure.2)
  all_goals exact Expr.found_of_effects _ pure altered

theorem Expr.found_of_aliasEffects {n : String} {hinted : Bool} (e : Expr) (pure : e.unassigned)
    (altered : Altered n e.aliasEffects) : Found n (e.findings hinted .read) := by
  cases e
  case aliased value target =>
    simp only [Expr.unassigned,Bool.and_eq_true] at pure
    simp only [Expr.findings,found_append]
    exact .inr (target.found_of_targetEffects pure.2 altered)
  all_goals exact absurd altered altered_nil

theorem altered_flatMap {α : Type} {n : String} {items : List α} {effects : α → List Effect} :
    Altered n (items.flatMap effects) ↔ ∃ a ∈ items, Altered n (effects a) := by
  simp [Altered,List.any_flatMap]

theorem found_flatMap {α : Type} {n : String} {items : List α} {findings : α → List Finding} :
    Found n (items.flatMap findings) ↔ ∃ a ∈ items, Found n (findings a) := by
  simp only [Found,List.mem_flatMap,← exists_or,← and_or_left]

theorem findingsAll_eq_flatMap (hinted : Bool) (role : Role) (es : List Expr) :
    findingsAll hinted role es = es.flatMap (·.findings hinted role) := by
  induction es with
  | nil => rfl
  | cons e es ih => rw [findingsAll,ih,List.flatMap_cons]

theorem unassignedAll_iff {es : List Expr} : unassignedAll es ↔ ∀ e ∈ es, e.unassigned := by
  induction es with
  | nil => simp [unassignedAll]
  | cons e es ih => simp [unassignedAll,ih]

theorem unassignedOf_iff {e? : Option Expr} : unassignedOf e? ↔ ∀ e ∈ e?, e.unassigned := by
  cases e? <;> simp [unassignedOf]

/-- What the items of a statement bind is found in them, if this is so for each of them. -/
theorem found_of_flatMap {n : String} {hinted : Bool} {effects : Expr → List Effect}
    {condition : Expr → Bool} {items : List Expr} (placed : ∀ e ∈ items, condition e)
    (each : ∀ e : Expr, condition e → Altered n (effects e) → Found n (e.findings hinted .read))
    (altered : Altered n (items.flatMap effects)) : Found n (findingsAll hinted .read items) := by
  obtain ⟨e,member,altered⟩ := altered_flatMap.1 altered
  rw [findingsAll_eq_flatMap,found_flatMap]
  exact ⟨e,member,each e (placed e member) altered⟩

theorem found_of_captures {n : String} {patterns : List PatternName}
    (captured : n ∈ Execution.captures patterns) : Found n (patterns.map PatternName.finding) := by
  obtain ⟨p,member,name⟩ := List.mem_filterMap.1 captured
  cases p with
  | capture name' =>
    cases name
    exact .inl (List.mem_map.2 ⟨_,member,rfl⟩)
  | load _ _ => cases name

theorem mem_of_mem_hints {lazy : Bool} {hint : Option Expr} {e : Expr}
    (member : e ∈ if lazy then [] else hint.toList) : e ∈ hint := by
  cases lazy with
  | true => cases member
  | false => exact Option.mem_toList.1 member

theorem unassigned_of_mem_parameters {lazy : Bool} {ps : List Parameter}
    (pure : unassignedParameters ps) {e : Expr} (member : e ∈ ps.flatMap (·.definitionTime lazy)) :
    e.unassigned := by
  induction ps with
  | nil => cases member
  | cons p ps ih =>
    obtain ⟨target,hint,default⟩ := p
    simp only [unassignedParameters,Bool.and_eq_true] at pure
    rw [List.flatMap_cons,List.mem_append,Parameter.definitionTime,List.mem_append] at member
    rcases member with (hinted | given) | later
    · exact unassignedOf_iff.1 pure.1.1.2 e (mem_of_mem_hints hinted)
    · exact unassignedOf_iff.1 pure.1.2 e (Option.mem_toList.1 given)
    · exact ih pure.2 later

theorem unassigned_definitionTime {lazy : Bool} {ps : List Parameter} {hint : Option Expr}
    (parameters : unassignedParameters ps) (pure : unassignedOf hint) :
    unassignedAll (definitionTime lazy ps hint) := by
  refine unassignedAll_iff.2 fun e member => ?_
  rcases List.mem_append.1 member with early | late
  · exact unassigned_of_mem_parameters parameters early
  · exact unassignedOf_iff.1 pure e (mem_of_mem_hints late)

mutual
/-- What a statement binds or deletes is found in it by a scan. -/
theorem Stmt.found_of_effects {n : String} {lazy : Bool} :
    ∀ s : Stmt, s.isOrderly → Altered n (s.effects lazy) → Found n (s.findings lazy (!lazy))
  | .skip, _, altered | .globals _, _, altered | .nonlocals _, _, altered =>
    absurd altered altered_nil
  | .evaluate items, orderly, altered => by
    simp only [Stmt.isOrderly,List.all_eq_true] at orderly
    exact found_of_flatMap orderly (fun e => e.found_of_performEffects) altered
  | .importing statement, _, altered => by
    simpa [Stmt.effects,altered_cons,Effect.alters,Stmt.findings] using altered
  | .define decorations definition, orderly, altered => by
    simp only [Stmt.isOrderly,Bool.and_eq_true,List.all_eq_true] at orderly
    simp only [Stmt.effects,altered_append,altered_flatMap,altered_singleton] at altered
    simp only [Stmt.findings,found_append,found_flatMap]
    rcases altered with (⟨d,member,inside⟩ | inside) | bound
    · exact .inl ⟨d,member,found_of_effectsAll d.items (orderly.1 d member) inside⟩
    · exact .inr (definition.found_of_effects orderly.2 inside)
    · refine .inr ?_
      simp only [Effect.alters,beq_iff_eq] at bound
      cases definition <;> simp [Definition.findings,← bound,Definition.name]
  | .branch branches, orderly, altered => found_of_branchEffects branches orderly altered
  | .forLoop target iterable body otherwise, orderly, altered => by
    simp only [Stmt.isOrderly,Bool.and_eq_true] at orderly
    simp only [Stmt.effects,altered_append] at altered
    simp only [Stmt.findings,found_append]
    rcases altered with ((inside | bound) | inside) | inside
    · exact .inl (.inl (.inr (iterable.found_of_effects orderly.1.1.2 inside)))
    · exact .inl (.inl (.inl (target.found_of_targetEffects orderly.1.1.1 bound)))
    · exact .inl (.inr (found_of_bodyEffects body orderly.1.2 inside))
    · exact .inr (found_of_bodyEffects otherwise orderly.2 inside)
  | .whileLoop condition body otherwise, orderly, altered => by
    simp only [Stmt.isOrderly,Bool.and_eq_true] at orderly
    simp only [Stmt.effects,altered_append] at altered
    simp only [Stmt.findings,found_append]
    exact altered.imp (.imp (condition.found_of_effects orderly.1.1)
      (found_of_bodyEffects body orderly.1.2)) (found_of_bodyEffects otherwise orderly.2)
  | .attempt body handlers otherwise final, orderly, altered => by
    simp only [Stmt.isOrderly,Bool.and_eq_true] at orderly
    simp only [Stmt.effects,altered_append] at altered
    simp only [Stmt.findings,found_append]
    exact altered.imp (.imp (.imp (found_of_bodyEffects body orderly.1.1.1)
      (found_of_handlerEffects handlers orderly.1.1.2)) (found_of_bodyEffects otherwise orderly.1.2))
      (found_of_bodyEffects final orderly.2)
  | .within items body, orderly, altered => by
    simp only [Stmt.isOrderly,Bool.and_eq_true] at orderly
    simp only [Stmt.effects,altered_append] at altered
    simp only [Stmt.findings,found_append]
    refine altered.imp (found_of_flatMap (unassignedAll_iff.1 orderly.1) ?_)
      (found_of_bodyEffects body orderly.2)
    exact fun e => e.found_of_entryEffects
  | .choose subjects cases, orderly, altered => by
    simp only [Stmt.isOrderly,Bool.and_eq_true] at orderly
    simp only [Stmt.effects,altered_append] at altered
    simp only [Stmt.findings,found_append]
    exact altered.imp (found_of_effectsAll subjects orderly.1) (found_of_caseEffects cases orderly.2)
  | .delete targets, orderly, altered => found_of_removalEffectsAll targets orderly altered
  | .raising items _, orderly, altered => found_of_effectsAll items orderly altered
  | .result _ _, _, altered => by simp [Stmt.effects,Effect.alters] at altered
theorem found_of_bodyEffects {n : String} {lazy : Bool} :
    ∀ ss : List Stmt, orderlyBody ss → Altered n (bodyEffects lazy ss) →
      Found n (bodyFindings lazy (!lazy) ss)
  | [], _, altered => absurd altered altered_nil
  | s :: ss, orderly, altered => by
    simp only [orderlyBody,Bool.and_eq_true] at orderly
    simp only [bodyEffects,altered_append] at altered
    simp only [bodyFindings,found_append]
    exact altered.imp (s.found_of_effects orderly.1) (found_of_bodyEffects ss orderly.2)
theorem Definition.found_of_effects {n : String} {lazy : Bool} :
    ∀ d : Definition, d.isOrderly → Altered n (d.effects lazy) → Found n (d.findings lazy (!lazy))
  | .classDef _ bases body, orderly, altered => by
    simp only [Definition.effects,altered_append] at altered
    simp only [Definition.findings,found_append]
    rcases altered with inside | outlived
    · exact .inl (found_of_effectsAll bases orderly inside)
    · -- What a class body binds or deletes does not outlive it.
      obtain ⟨e,member,alters⟩ := List.any_eq_true.1 outlived
      have outlives := (List.mem_filter.1 member).2
      cases e <;> simp [Effect.outlives] at outlives <;> simp [Effect.alters] at alters
  | .function _ parameters hint _, orderly, altered => by
    simp only [Definition.isOrderly,Bool.and_eq_true] at orderly
    simp only [Definition.effects,altered_append,altered_singleton,Effect.alters,Bool.false_eq_true,
      or_false] at altered
    simp only [Definition.findings,found_append]
    exact .inl (found_of_effectsAll _ (unassigned_definitionTime orderly.1 orderly.2) altered)
theorem found_of_branchEffects {n : String} {lazy : Bool} :
    ∀ bs : List Branch, orderlyBranches bs → Altered n (branchEffects lazy bs) →
      Found n (branchFindings lazy (!lazy) bs)
  | [], _, altered => absurd altered altered_nil
  | .mk condition body :: bs, orderly, altered => by
    simp only [orderlyBranches,Bool.and_eq_true] at orderly
    simp only [branchEffects,altered_append] at altered
    simp only [branchFindings,found_append]
    exact altered.imp (.imp (found_of_effectsOf condition orderly.1.1)
      (found_of_bodyEffects body orderly.1.2)) (found_of_branchEffects bs orderly.2)
theorem found_of_handlerEffects {n : String} {lazy : Bool} :
    ∀ hs : List Handler, orderlyHandlers hs → Altered n (handlerEffects lazy hs) →
      Found n (handlerFindings lazy (!lazy) hs)
  | [], _, altered => absurd altered altered_nil
  | .mk items body :: hs, orderly, altered => by
    simp only [orderlyHandlers,Bool.and_eq_true] at orderly
    simp only [handlerEffects,altered_append] at altered
    simp only [handlerFindings,found_append]
    refine altered.imp (.imp (found_of_flatMap (unassignedAll_iff.1 orderly.1.1) ?_)
      (found_of_bodyEffects body orderly.1.2)) (found_of_handlerEffects hs orderly.2)
    exact fun e => e.found_of_aliasEffects
theorem found_of_caseEffects {n : String} {lazy : Bool} :
    ∀ cs : List Case, orderlyCases cs → Altered n (caseEffects lazy cs) →
      Found n (caseFindings lazy (!lazy) cs)
  | [], _, altered => absurd altered altered_nil
  | .mk patterns condition body :: cs, orderly, altered => by
    simp only [orderlyCases,Bool.and_eq_true] at orderly
    simp only [caseEffects,altered_append,altered_binds] at altered
    simp only [caseFindings,found_append]
    refine altered.imp (.imp (.imp found_of_captures ?_) (found_of_bodyEffects body orderly.1.2))
      (found_of_caseEffects cs orderly.2)
    exact found_of_effectsAll condition orderly.1.1
end

end Excerpt.Program

namespace Excerpt.Execution
open Excerpt.Program Exec

/-- The names that a scan finds to be bound by a statement in the body of a class. -/
def scannedBindings (lazy : Bool) (stmt : Stmt) : List String :=
  (Scope.mk .classBody (stmt.findings lazy (!lazy))).bindings

theorem mem_scannedBindings {lazy : Bool} {stmt : Stmt} (orderly : stmt.isOrderly) {n : String}
    (altered : Altered n (stmt.effects lazy)) : n ∈ scannedBindings lazy stmt :=
  mem_bindings_iff.2 (stmt.found_of_effects orderly altered)

/-- A permitted step keeps the names that its effects do not alter. -/
theorem Permitted.kept {effects : List Effect} {α : Type} {step : Exec α}
    (permitted : Permitted effects step) {n : String} (unaltered : ¬ Altered n effects) (s : State) :
    valueAt n (step s).2.current = valueAt n s.current := by
  refine (permitted.follows s).kept n (fun bound => unaltered ?_) fun dropped => unaltered ?_
  · exact List.any_eq_true.2 ⟨_,bound,by simp [Effect.alters]⟩
  · exact List.any_eq_true.2 ⟨_,dropped,by simp [Effect.alters]⟩

/-- A run and a scan agree on what a statement binds. Whether the statement is certain to run or may
not run, every store that is made on the way is one of a name that the scan lists, and every other
name of the current namespace keeps its value, also if the statement fails. -/
theorem stores_among_scannedBindings {lazy : Bool} {stmt : Stmt} (orderly : stmt.isOrderly) :
    (∃ effects, Permitted effects (execute lazy stmt) ∧
      Permitted effects (executeMaybe lazy [stmt]) ∧
      ∀ n, .bind n ∈ effects → n ∈ scannedBindings lazy stmt) ∧
    ∀ n, n ∉ scannedBindings lazy stmt → ∀ s : State,
      valueAt n (execute lazy stmt s).2.current = valueAt n s.current ∧
      valueAt n (executeMaybe lazy [stmt] s).2.current = valueAt n s.current := by
  have certain := execute_permitted lazy stmt (List.Subset.refl _)
  have uncertain : Permitted (stmt.effects lazy) (executeMaybe lazy [stmt]) :=
    executeMaybe_permitted lazy [stmt] (by simp [bodyEffects])
  refine ⟨⟨stmt.effects lazy,certain,uncertain,fun n bound => ?_⟩,fun n unlisted s => ?_⟩
  · exact mem_scannedBindings orderly (List.any_eq_true.2 ⟨_,bound,by simp [Effect.alters]⟩)
  · have unaltered : ¬ Altered n (stmt.effects lazy) :=
      fun altered => unlisted (mem_scannedBindings orderly altered)
    exact ⟨certain.kept unaltered s,uncertain.kept unaltered s⟩

/-- A statement that binds names in most of the ways there are. The variables of its comprehensions are
not among them, and keep their values. -/
theorem stores_among_scannedBindings_try : ∃ source stmt,
    Source.read "try:\n    import a.b\n    x, *y = z = a\nexcept E as e:\n    [[w := i for i in r] for r in x]\n    for k in x:\n        del y\n" =
      .ok source ∧ stmt ∈ ofTree source.root ∧ stmt.isOrderly ∧
    scannedBindings false stmt = ["a","x","y","z","e","w","k","y"] ∧
    ∀ s : State, valueAt "i" (execute false stmt s).2.current = valueAt "i" s.current ∧
      valueAt "r" (executeMaybe false [stmt] s).2.current = valueAt "r" s.current := by
  have computed : (Source.read "try:\n    import a.b\n    x, *y = z = a\nexcept E as e:\n    [[w := i for i in r] for r in x]\n    for k in x:\n        del y\n").toOption.any
      fun source => (ofTree source.root).any fun stmt => stmt.isOrderly &&
        decide (scannedBindings false stmt = ["a","x","y","z","e","w","k","y"]) := by decide +kernel
  obtain ⟨source,read,found⟩ := ok_of_any computed
  obtain ⟨stmt,member,checked⟩ := List.any_eq_true.1 found
  obtain ⟨orderly,listed⟩ := Bool.and_eq_true_iff.1 checked
  replace listed := of_decide_eq_true listed
  have kept := (@stores_among_scannedBindings false stmt orderly).2
  refine ⟨source,stmt,read,member,orderly,listed,fun s => ⟨?_,?_⟩⟩
  · exact (kept "i" (by rw [listed]; decide) s).1
  · exact (kept "r" (by rw [listed]; decide) s).2

end Excerpt.Execution
