import Excerpt.Proofs.JoinedReading
import Excerpt.Proofs.JoinedStatement

/-!
What statements are read from a tree without its line continuations.
-/
namespace Excerpt.Program
open Excerpt.Execution Excerpt.Syntax

section Imports
variable {cs : List Tree} {t : Tree}

theorem importedName_joined {plain : Bool} {c : Tree} (bare : BareBreaks c.children) :
    importedName? plain c.joined = importedName? plain c := by
  simp only [importedName?,Tree.kind?_joined,Tree.text_joined,childText_joined bare]

/-- Line continuations are no imported names. -/
theorem imported_joined (plain : Bool) {q : Tree → Bool} (stable : ∀ t : Tree, q t.joined = q t)
    (bare : ∀ c ∈ cs, BareBreaks c.children) :
    (((joinedAll cs).filter Tree.isNamed).filter q).filterMap (importedName? plain) =
      ((cs.filter Tree.isNamed).filter q).filterMap (importedName? plain) := by
  simp only [List.filter_filter]
  refine joinedAll_induction (P := fun ds ds' => (ds'.filter _).filterMap _ = (ds.filter _).filterMap _) rfl
    (fun c member _ ds ds' same => ?_) fun c _ rest ds ds' same => ?_
  · simp only [List.filter_cons,stable,Tree.isNamed_joined]
    split
    · simp only [List.filterMap_cons,importedName_joined (bare c member),same]
    · exact same
  · rw [same,List.filter_cons]
    split
    · rw [List.filterMap_cons_none]
      simp [importedName?,Tree.kind?,Tree.symbol_of_isBreak rest]
    · rfl

theorem plainImport_joined (bare : ∀ c ∈ t.children, BareBreaks c.children) :
    plainImport t.joined = plainImport t := by
  have names := imported_joined true (q := fun _ => true) (fun _ => rfl) bare
  simp only [List.filter_true] at names
  simp only [plainImport,Tree.namedChildren,Tree.children_joined,names,Tree.line_joined,Tree.text_joined,
    Tree.startByte_joined,Tree.endByte_joined]

theorem futureImport_joined (bare : ∀ c ∈ t.children, BareBreaks c.children) :
    futureImport t.joined = futureImport t := by
  have names := imported_joined false (q := fun _ => true) (fun _ => rfl) bare
  simp only [List.filter_true] at names
  simp only [futureImport,Tree.namedChildren,Tree.children_joined,names,Tree.line_joined,Tree.text_joined,
    Tree.startByte_joined,Tree.endByte_joined]

theorem importedModule_joined (part : Option Tree) :
    importedModule (part.map Tree.joined) = importedModule part := by
  cases part with
  | none => rfl
  | some m => simp only [Option.map_some,importedModule,Tree.text_joined,Tree.is_joined]

theorem wildcard_joined (cs : List Tree) {q : Tree → Bool} (stable : ∀ t : Tree, q t.joined = q t) :
    (((joinedAll cs).filter Tree.isNamed).filter q).any (·.is .wildcardImport) =
      ((cs.filter Tree.isNamed).filter q).any (·.is .wildcardImport) := by
  simp only [List.filter_filter,List.any_filter]
  refine joinedAll_induction (P := fun ds ds' => ds'.any _ = ds.any _) rfl
    (fun c _ _ ds ds' same => ?_) fun c _ rest ds ds' same => ?_
  · simp only [List.any_cons,stable,Tree.isNamed_joined,Tree.is_joined,same]
  · have other : c.is .wildcardImport = false := by simp [Tree.is,Tree.symbol_of_isBreak rest]
    rw [same,List.any_cons,other,Bool.and_false,Bool.false_or]

theorem fromImport_joined (own : BareBreaks t.children) (bare : ∀ c ∈ t.children, BareBreaks c.children) :
    fromImport t.joined = fromImport t := by
  have stop : ((t.child? .moduleName).map Tree.joined).map Tree.endByte =
      (t.child? .moduleName).map Tree.endByte := by
    cases t.child? .moduleName with
    | none => rfl
    | some m => simp
  have behind (n : Nat) (c : Tree) : decide (n ≤ c.joined.startByte) = decide (n ≤ c.startByte) := by simp
  have names (n : Nat) := imported_joined false (q := fun c => decide (n ≤ c.startByte)) (behind n) bare
  have wildcard (n : Nat) := wildcard_joined t.children (q := fun c => decide (n ≤ c.startByte)) (behind n)
  simp only [fromImport,child?_joined own,stop,importedModule_joined,Tree.namedChildren,Tree.children_joined,
    names,wildcard,Tree.line_joined,Tree.text_joined,Tree.startByte_joined,Tree.endByte_joined]

end Imports

section Patterns
variable {cs : List Tree} {t : Tree}

/-- What holds of no children, is kept by a token in front and holds wherever a construct or a comment
comes first, holds of children that are headed. -/
theorem headed_induction {P : List Tree → List Tree → Prop} {cs : List Tree} (head : headed cs)
    (nil : P [] []) (token : ∀ c, c.isNamed = false → ∀ {ds ds'}, P ds ds' → P (c :: ds) (c.joined :: ds'))
    (first : ∀ c ∈ cs, ∀ ds ⊆ cs, c.isNamed → P (c :: ds) (c.joined :: joinedAll ds)) :
    P cs (joinedAll cs) := by
  rw [headed] at head
  induction cs with
  | nil => exact nil
  | cons c cs ih =>
    cases named : c.isNamed with
    | false =>
      rw [List.find?_cons_of_neg (by simp [Tree.isItem,named])] at head
      have whole : ¬ c.isBreak := fun rest => by simp [Tree.isNamed_of_isBreak rest] at named
      rw [joinedAll,if_neg whole]
      refine token c named (ih head fun d member ds inside => ?_)
      exact first d (.tail c member) ds fun e among => .tail c (inside among)
    | true =>
      have whole : ¬ c.isBreak := fun rest => by
        rw [List.find?_cons_of_pos (Tree.isItem_of_isBreak rest)] at head
        simp [rest] at head
      rw [joinedAll,if_neg whole]
      exact first c (.head cs) cs (fun d member => .tail c member) named

theorem loadedNames_joined (head : headed cs) (each : ∀ c ∈ cs, loadedName c.joined = loadedName c) :
    loadedNames (joinedAll cs) = loadedNames cs := by
  refine headed_induction (P := fun ds ds' => loadedNames ds' = loadedNames ds) head rfl
    (fun c token ds ds' same => ?_) fun c member ds _ named => ?_
  · simp only [loadedNames,Tree.isNamed_joined,token,Bool.false_eq_true,if_false,same]
  · simp only [loadedNames,Tree.isNamed_joined,named,if_true,each c member]

/-- The name that a pattern looks up does not depend on line continuations. -/
theorem loadedName_joined {u : Use} {t : Tree} (joinable : t.joinable u) :
    loadedName t.joined = loadedName t := by
  obtain ⟨_,head,_,below⟩ := Tree.joinable_iff.1 joinable
  have each (c : Tree) (member : c ∈ t.children) : loadedName c.joined = loadedName c := by
    have := Tree.sizeOf_lt_of_mem member
    exact loadedName_joined (below c member)
  obtain ⟨l,cs⟩ := t
  rw [Tree.symbol_node,Tree.children_node] at head
  rw [Tree.joined,loadedName,loadedName]
  split
  · rfl
  · next dotted =>
    simp only [dotted,headedAt,Bool.and_eq_true] at head
    exact loadedNames_joined head.1.1 each
  · rfl
termination_by sizeOf t

theorem patternNames_of_isBreak {c : Tree} (rest : c.isBreak) (leaf : c.children = []) :
    patternNames c = [] := by
  obtain ⟨l,cs⟩ := c
  obtain rfl : cs = [] := leaf
  have symbol : l.symbol = .named .lineContinuation := Tree.symbol_of_isBreak rest
  simp [patternNames,symbol,patternNamesAll]

theorem patternNamesAll_joined (bare : BareBreaks cs)
    (each : ∀ c ∈ cs, patternNames c.joined = patternNames c) :
    patternNamesAll (joinedAll cs) = patternNamesAll cs := by
  refine joinedAll_induction (P := fun ds ds' => patternNamesAll ds' = patternNamesAll ds) rfl
    (fun c member _ ds ds' same => ?_) fun c member rest ds ds' same => ?_
  · simp only [patternNamesAll,Tree.isNamed_joined,each c member,same]
  · rw [same,patternNamesAll,patternNames_of_isBreak rest (bare c member rest).2]
    simp

/-- A dotted name has one part with its line continuations if and only if it has one without them. -/
theorem single_joined (seated : headedAt (.named .dottedName) cs) :
    ((joinedAll cs).filter Tree.isNamed).length = 1 ↔ (cs.filter Tree.isNamed).length = 1 := by
  simp only [headedAt,Bool.and_eq_true,Bool.or_eq_true,Bool.not_eq_true',decide_eq_true_eq] at seated
  rcases seated.1.2 with whole | several
  · rw [filter_joinedAll Tree.isNamed_joined fun c member _ => ?_,List.length_map]
    simpa using List.any_eq_false.1 whole c member
  · have named (c : Tree) (item : c.isItem) : c.isNamed := by
      rw [Tree.isItem,Bool.and_eq_true] at item
      exact item.1
    have before : (constructs cs).length ≤ (cs.filter Tree.isNamed).length :=
      ((constructs_sublist cs).trans (List.monotone_filter_right cs named)).length_le
    have after : (constructs cs).length ≤ ((joinedAll cs).filter Tree.isNamed).length := by
      have items := (List.monotone_filter_right (joinedAll cs) named).length_le
      rwa [filter_item_joinedAll,List.length_map] at items
    omega

/-- The names of a pattern do not depend on line continuations. -/
theorem patternNames_joined {u : Use} {t : Tree} (joinable : t.joinable u) :
    patternNames t.joined = patternNames t := by
  obtain ⟨bare,head,_,below⟩ := Tree.joinable_iff.1 joinable
  have each (c : Tree) (member : c ∈ t.children) : patternNames c.joined = patternNames c := by
    have := Tree.sizeOf_lt_of_mem member
    exact patternNames_joined (below c member)
  have loaded (c : Tree) (member : c ∈ t.children) := loadedName_joined (below c member)
  obtain ⟨l,cs⟩ := t
  rw [Tree.symbol_node,Tree.children_node] at head
  rw [Tree.children_node] at bare
  have rest {ds : List Tree} (inside : ds ⊆ cs) : patternNamesAll (joinedAll ds) = patternNamesAll ds :=
    patternNamesAll_joined (fun c member => bare c (inside member)) fun c member => each c (inside member)
  rw [Tree.joined,patternNames,patternNames]
  split
  · next dotted =>
    rw [dotted] at head
    simp only [single_joined head]
    simp only [headedAt,Bool.and_eq_true] at head
    rw [loadedNames_joined head.1.1 loaded]
  · rfl
  · next symbol =>
    rw [symbol] at head
    refine headed_induction (P := fun ds ds' => classPatternNames ds' = classPatternNames ds) head rfl
      (fun c token ds ds' same => ?_) fun c member ds inside named => ?_
    · simp only [classPatternNames,Tree.isNamed_joined,token,Bool.false_eq_true,if_false,same]
    · simp only [classPatternNames,Tree.isNamed_joined,named,if_true,loaded c member,rest inside]
  · next symbol =>
    rw [symbol] at head
    refine headed_induction (P := fun ds ds' => keywordPatternNames ds' = keywordPatternNames ds) head rfl
      (fun c token ds ds' same => ?_) fun c member ds inside named => ?_
    · simp only [keywordPatternNames,Tree.isNamed_joined,token,Bool.false_eq_true,if_false,same]
    · simp only [keywordPatternNames,Tree.isNamed_joined,named,if_true,rest inside]
  iterate 4 next => rfl
  · exact rest fun c member => member
termination_by sizeOf t

end Patterns

section Parts
variable {live : Bool} {cs : List Tree} {t : Tree}

theorem identifiers_joined (cs : List Tree) : identifiers (joinedAll cs) = identifiers cs := by
  rw [identifiers,filter_is_joinedAll (by simp),List.map_map,identifiers]
  exact List.map_congr_left fun c _ => c.text_joined

theorem casePatterns_joined (each : ∀ c ∈ cs, c.is .casePattern → c.joinable .scanned) :
    casePatterns (joinedAll cs) = casePatterns cs := by
  rw [casePatterns,filter_is_joinedAll (by simp),List.flatMap_map,casePatterns]
  refine List.flatMap_congr fun c member => ?_
  obtain ⟨among,is⟩ := List.mem_filter.1 member
  exact patternNames_joined (each c among is)

theorem flatMap_joins {α : Type} {f f' : α → List Expr} {ts : List α}
    (each : ∀ t ∈ ts, JoinsAll live (f t) (f' t)) : JoinsAll live (ts.flatMap f) (ts.flatMap f') := by
  induction ts with
  | nil => exact .nil
  | cons t ts ih => exact .append (each t (.head ts)) (ih fun u member => each u (.tail t member))

theorem guardOf_joins
    (each : ∀ c ∈ cs, c.is .ifClause → ∀ d ∈ c.children, ReadsJoined live d) :
    JoinsAll live (guardOf cs) (guardOf (joinedAll cs)) := by
  rw [guardOf,guardOf,filter_is_joinedAll (by simp),List.flatMap_map]
  refine flatMap_joins fun c member => ?_
  obtain ⟨among,is⟩ := List.mem_filter.1 member
  rw [Tree.children_joined]
  exact items_joins fun d inner _ => each c among is d inner

theorem decorationsOf_joined : decorationsOf (joinedAll cs) =
    (cs.filter (·.is .decorator)).map fun t => ⟨(exprsOf (joinedAll t.children)).all⟩ := by
  rw [decorationsOf,filter_is_joinedAll (by simp),List.map_map]
  exact List.map_congr_left fun c _ => by rw [Function.comp,Tree.children_joined]

theorem decorationNames_joined
    (each : ∀ c ∈ cs, c.is .decorator → ∀ d ∈ c.children, ReadsJoined live d) (hinted : Bool) :
    (decorationsOf (joinedAll cs)).flatMap (·.findings hinted) =
      (decorationsOf cs).flatMap (·.findings hinted) := by
  rw [decorationsOf_joined,decorationsOf,List.flatMap_map,List.flatMap_map]
  refine List.flatMap_congr fun c member => ?_
  obtain ⟨among,is⟩ := List.mem_filter.1 member
  exact (all_joins fun d inner _ => each c among is d inner).findings_eq hinted .read

theorem decoratorValues_joined
    (each : ∀ c ∈ cs, c.is .decorator → headed c.children ∧ ∀ d ∈ c.children, ReadsJoined true d) :
    decoratorValues (decorationsOf (joinedAll cs)) = decoratorValues (decorationsOf cs) := by
  rw [decorationsOf_joined,decorationsOf]
  refine decoratorValues_joins fun c member => ?_
  obtain ⟨among,is⟩ := List.mem_filter.1 member
  obtain ⟨head,inner⟩ := each c among is
  exact headNamed_joins head fun d member _ => inner d member

theorem map_joins {α : Type} {f f' : α → Expr} {ts : List α} (each : ∀ t ∈ ts, (f t).Joins live (f' t)) :
    JoinsAll live (ts.map f) (ts.map f') := by
  induction ts with
  | nil => exact .nil
  | cons t ts ih => exact .cons (each t (.head ts)) (ih fun u member => each u (.tail t member))

/-- A node with all that is needed to read its parts, the first of them on its own. -/
def ReadsParts (live : Bool) (t : Tree) : Prop :=
  BareBreaks t.children ∧ headed t.children ∧ ∀ c ∈ t.children, ReadsJoined live c

/-- The item of a `with` statement: what is in the role of the value, or what comes first. -/
def withItem (t : Tree) : Expr :=
  ((exprsOf t.children).role? .value).getD ((exprsOf t.children).all.headD .blank)

theorem withItem_joins (parts : ReadsParts live t) : (withItem t).Joins live (withItem t.joined) := by
  obtain ⟨bare,head,each⟩ := parts
  rw [withItem,withItem,Tree.children_joined,role_eq_exprOfRole,role_eq_exprOfRole]
  have value := exprOfRole_joins bare (f := .value) fun c member _ => each c member
  have first := (headNamed_joins head fun c member _ => each c member).headD
  generalize exprOfRole .value t.children = e,exprOfRole .value (joinedAll t.children) = e' at value ⊢
  cases value with
  | none => exact first
  | some part => exact part

/-- The children among which the items of a `with` statement stand. -/
def aroundItems (cs : List Tree) : List Tree := cs.flatMap fun t => if t.is .withClause then t.children else [t]

theorem aroundItems_cons (t : Tree) (ts : List Tree) : aroundItems (t :: ts) =
    (if t.is .withClause then t.children else [t]) ++ aroundItems ts := List.flatMap_cons

theorem aroundItems_joined (cs : List Tree) : aroundItems (joinedAll cs) = joinedAll (aroundItems cs) := by
  refine joinedAll_induction (P := fun ds ds' => aroundItems ds' = joinedAll (aroundItems ds)) rfl
    (fun c _ whole ds ds' same => ?_) fun c _ rest ds ds' same => ?_
  · rw [aroundItems_cons,aroundItems_cons,same,joinedAll_append,Tree.is_joined]
    split
    · rw [Tree.children_joined]
    · rw [joinedAll,if_neg (by simp [whole])]
      rfl
  · have other : c.is .withClause = false := by simp [Tree.is,Tree.symbol_of_isBreak rest]
    rw [same,aroundItems_cons,other,joinedAll_append]
    simp [joinedAll,rest]

theorem withItems_joins (each : ∀ c ∈ aroundItems cs, c.is .withItem → ReadsParts live c) :
    JoinsAll live (withItems cs) (withItems (joinedAll cs)) := by
  have read (ts : List Tree) : withItems ts = ((aroundItems ts).filter (·.is .withItem)).map withItem := rfl
  rw [read,read,aroundItems_joined,filter_is_joinedAll (by simp),List.map_map]
  refine map_joins fun c member => ?_
  obtain ⟨among,is⟩ := List.mem_filter.1 member
  exact withItem_joins (each c among is)

/-- The names of definitions are kept. -/
theorem nameOf_joined (bare : BareBreaks cs) :
    ((joinedAll cs).find? (·.field == some .name)).map Tree.text =
      (cs.find? (·.field == some .name)).map Tree.text := by
  rw [find_field_joinedAll bare,Option.map_map]
  exact congrArg (Option.map · _) (funext Tree.text_joined)

theorem classDef_joins (bare : BareBreaks cs) {body body' : List Stmt} (runs : BodyJoins live body body')
    (bases : ∀ c ∈ cs, c.field = some .superclasses → ∀ d ∈ c.children, ReadsJoined live d) :
    (definitionOf (.named .classDefinition) cs body).Joins live
      (definitionOf (.named .classDefinition) (joinedAll cs) body') := by
  simp only [definitionOf,nameOf_joined bare,beq_self_eq_true,if_true]
  refine .classDef ?_ runs
  rw [find_field_joinedAll bare]
  cases found : cs.find? (·.field == some .superclasses) with
  | none => exact .nil
  | some c =>
    have role := List.find?_some found
    simp only [Option.map_some,Option.getD_some,Tree.children_joined]
    exact items_joins fun d member _ =>
      bases c (List.mem_of_find?_eq_some found) (by simpa using role) d member

theorem function_joins (bare : BareBreaks cs) {body body' : List Stmt} (inside : BodyJoins false body body')
    (heads : ParametersJoin live (parametersOfRole cs) (parametersOfRole (joinedAll cs)))
    (hint : ∀ c ∈ cs, c.field = some .returnType → ReadsJoined live c) :
    (definitionOf (.named .functionDefinition) cs body).Joins live
      (definitionOf (.named .functionDefinition) (joinedAll cs) body') := by
  have other : (Symbol.named .functionDefinition == Symbol.named .classDefinition) = false := rfl
  simp only [definitionOf,nameOf_joined bare,other,Bool.false_eq_true,if_false]
  exact .function heads (exprOfRole_joins bare hint) inside

/-- The first construct of the first construct is the target of a type alias. -/
def aliasTarget (cs : List Tree) : Option Tree :=
  (cs.find? Tree.isNamed).bind fun left => left.children.find? Tree.isNamed

theorem typeAliasOf_eq (cs : List Tree) : typeAliasOf cs =
    .typeAlias ((aliasTarget cs).map Tree.text) ((aliasTarget cs).map exprOf) (exprOfRole .right cs) := by
  simp only [typeAliasOf,Tree.namedChildren,List.head?_filter,role_eq_exprOfRole]
  rfl

theorem aliasTarget_joined (seated : headedAt (.named .typeAliasStatement) cs) :
    aliasTarget (joinedAll cs) = (aliasTarget cs).map Tree.joined := by
  rw [headedAt,Bool.and_eq_true] at seated
  rw [aliasTarget,find_named_joinedAll seated.1,aliasTarget]
  cases found : cs.find? Tree.isNamed with
  | none => rfl
  | some left =>
    have inner : headed left.children := by simpa [found] using seated.2
    simp only [Option.map_some,Option.bind_some,Tree.children_joined,find_named_joinedAll inner]

theorem typeAliasOf_joins (bare : BareBreaks cs) (seated : headedAt (.named .typeAliasStatement) cs)
    (value : ∀ c ∈ cs, ReadsJoined false c) (target : ∀ c ∈ aliasTarget cs, ReadsJoined false c) :
    (typeAliasOf cs).Joins live (typeAliasOf (joinedAll cs)) := by
  rw [typeAliasOf_eq,typeAliasOf_eq,aliasTarget_joined seated]
  cases found : aliasTarget cs with
  | none => exact .typeAlias .none (exprOfRole_joins bare fun c member _ => value c member)
  | some c =>
    simp only [Option.map_some,Tree.text_joined]
    exact .typeAlias (.some (target c found)) (exprOfRole_joins bare fun c member _ => value c member)

end Parts

section Handlers
variable {live : Bool} {cs : List Tree} {t : Tree}

theorem exprOf_asPattern (is : t.is .asPattern) : exprOf t =
    .aliased ((exprsOf t.children).items.headD .blank) ((exprOfRole .alias t.children).getD .blank) := by
  have symbol := beq_iff_eq.1 is
  rw [exprOf_named symbol,← role_eq_exprOfRole .alias]
  simp only [assemble,Tree.kind?,symbol]
  rfl

theorem exprOf_identifier (is : t.is .identifier) : exprOf t = .name t.text t.line := by
  have symbol := beq_iff_eq.1 is
  rw [exprOf_named symbol]
  simp only [assemble,Tree.kind?,symbol]
  rfl

/-- Only an alias is read as one. -/
theorem exprOf_ne_aliased (head : headedAt t.symbol t.children) (other : t.is .asPattern = false)
    (value target : Expr) : exprOf t ≠ .aliased value target := by
  intro same
  cases symbol : t.symbol with
  | token spelling =>
    rw [exprOf_token (by simp [Tree.isNamed,symbol])] at same
    unfold assemble at same
    rw [show t.kind? = none by simp [Tree.kind?,symbol]] at same
    cases same
  | named k =>
    rw [exprOf_named symbol] at same
    split at same
    · cases same
    split at same
    · cases same
    unfold assemble at same
    rw [show t.kind? = some k by simp [Tree.kind?,symbol]] at same
    cases k
    case asPattern => simp [Tree.is,symbol] at other
    case dottedName =>
      rw [symbol] at head
      simp only [headedAt,Bool.and_eq_true] at head
      dsimp only at same
      rw [List.headD_eq_head?_getD,head_all] at same
      cases found : t.children.find? Tree.isNamed with
      | none => simp [found] at same
      | some c =>
        have identifier : c.is .identifier := by simpa [found] using head.2
        rw [found,Option.map_some,Option.getD_some,exprOf_identifier identifier] at same
        cases same
    case conditionalExpression =>
      dsimp only at same
      split at same <;> cases same
    case booleanOperator =>
      dsimp only at same
      split at same <;> cases same
    all_goals cases same

/-- The aliases of a handler are assigned to, all else in front of its body is not evaluated. -/
theorem bindAliases_joined (each : ∀ c ∈ cs, c.joinable .handled) (placed : ∀ c ∈ cs, c.fits .operand) :
    bindAliases (exprsOf (joinedAll cs)).items = bindAliases (exprsOf cs).items := by
  rw [items_eq_filter,items_eq_filter]
  refine joinedAll_induction (P := fun ds ds' => bindAliases ((ds'.filter _).map exprOf) =
    bindAliases ((ds.filter _).map exprOf)) rfl
    (fun c member _ ds ds' same => ?_) fun c _ rest ds ds' same => ?_
  · rw [List.filter_cons,List.filter_cons,Tree.isNamed_joined,Tree.is_joined]
    split
    · obtain ⟨bare,head,_,below⟩ := Tree.joinable_iff.1 (each c member)
      rw [List.map_cons,List.map_cons]
      cases alias_ : c.is .asPattern with
      | false =>
        have other := exprOf_ne_aliased head alias_
        rw [bindAliases_of_other other,bindAliases_of_other fun value target joined => ?_,same]
        have joins := readsJoined false c (placed c member) (Tree.joinable_scanned (each c member))
        rw [ReadsJoined,joined] at joins
        generalize exprOf c = e at joins other
        cases joins with
        | same => exact other _ _ rfl
        | aliased first second => exact other _ _ rfl
      | true =>
        have target : JoinsOption true (exprOfRole .alias c.children)
            (exprOfRole .alias (joinedAll c.children)) := by
          refine exprOfRole_joins bare fun d among role => ?_
          have fits := fits_operand_of_mem (placed c member) (isNamed_of_is alias_) among
          have joinable := below d among
          rw [beq_iff_eq.1 alias_,Use.below,role] at joinable
          exact readsJoined true d fits joinable
        rw [exprOf_asPattern alias_,exprOf_asPattern (by rw [Tree.is_joined,alias_]),bindAliases,bindAliases,
          Tree.children_joined,assign_joins target.getD,same]
    · exact same
  · rw [List.filter_cons]
    split
    · rw [List.map_cons,exprOf_of_isBreak rest]
      exact same
    · exact same

/-- What a handler catches is decided where no line continuation stands in front of it. -/
theorem handler_joins (placed : ∀ c ∈ cs, c.fits .interior)
    (scanned : ∀ c ∈ cs, c.is .block = false → c.joinable .scanned)
    (handled : live → ∀ c ∈ cs, c.is .block = false → c.joinable .handled)
    (head : live → headed (cs.filter (!·.is .block))) :
    JoinsAll false (handlerItems cs) (handlerItems (joinedAll cs)) ∧
      (live → catches (handlerItems (joinedAll cs)) = catches (handlerItems cs)) ∧
      (live → bindAliases (handlerItems (joinedAll cs)) = bindAliases (handlerItems cs)) := by
  have outside {c : Tree} (member : c ∈ cs.filter (!·.is .block)) : c ∈ cs ∧ c.is .block = false := by
    simpa using List.mem_filter.1 member
  have operand (c : Tree) (member : c ∈ cs.filter (!·.is .block)) : c.fits .operand :=
    fits_operand_of_header (outside member).2 (placed c (outside member).1)
  have each (c : Tree) (member : c ∈ cs.filter (!·.is .block)) (_ : c.isNamed) : ReadsJoined false c :=
    readsJoined false c (operand c member) (scanned c (outside member).1 (outside member).2)
  rw [handlerItems,handlerItems,filter_joinedAll_comm (fun t => by rw [Tree.is_joined])]
  refine ⟨items_joins each,fun runs => catches_joins (headItem_joins (head runs) each),fun runs => ?_⟩
  exact bindAliases_joined (fun c member => handled runs c (outside member).1 (outside member).2) operand

end Handlers

section Raise
variable {t : Tree}

theorem literalText_joined (whole : broken t.children = false) : literalText t.joined = literalText t := by
  have named : t.joined.namedChildren = t.namedChildren.map Tree.joined := by
    rw [Tree.namedChildren,Tree.children_joined,filter_joinedAll Tree.isNamed_joined fun c member _ => ?_]
    · rfl
    · simpa using List.any_eq_false.1 whole c member
  simp only [literalText,named,List.all_map,List.filter_map,List.map_map,Function.comp_def,Tree.is_joined,
    Tree.text_joined]

theorem items_of_arguments (a : Tree) :
    a.namedChildren.filter (!·.is .comment) = a.children.filter Tree.isItem := by
  rw [Tree.namedChildren,List.filter_filter]
  exact List.filter_congr fun c _ => Bool.and_comm _ _

/-- Without a single string the message is the text of the arguments. -/
theorem raiseMessage_eq_bare {a : Tree} (filled : a.children.filter Tree.isItem ≠ [])
    (other : ∀ c, a.children.filter Tree.isItem = [c] → c.is .string = false) :
    raiseMessage a = raiseMessage.bare a := by
  rw [raiseMessage,items_of_arguments]
  split
  · next none_ => exact absurd none_ filled
  · next only single => rw [other only single,if_neg Bool.false_ne_true]
  · rfl

theorem raiseMessage_joined (told : tells t) : raiseMessage t.joined = raiseMessage t := by
  have bare : raiseMessage.bare t.joined = raiseMessage.bare t := by
    rw [raiseMessage.bare,Tree.text_joined,raiseMessage.bare]
  have joined : t.joined.children.filter Tree.isItem = (constructs t.children).map Tree.joined := by
    rw [Tree.children_joined,filter_item_joinedAll]
  have among {c : Tree} (member : c ∈ constructs t.children) := (constructs_sublist t.children).subset member
  rw [tells] at told
  cases parts : constructs t.children with
  | nil =>
    rw [parts] at told joined
    rw [raiseMessage,raiseMessage,items_of_arguments,items_of_arguments,joined,
      filter_item_of_whole (by simpa using told),parts]
    rfl
  | cons only rest =>
    have member : only ∈ constructs t.children := parts ▸ .head rest
    cases single : rest.isEmpty && only.is .string with
    | true =>
      rw [Bool.and_eq_true,List.isEmpty_iff] at single
      obtain ⟨rfl,string⟩ := single
      rw [parts] at told joined
      simp only [string,Bool.not_true,Bool.false_or,Bool.and_eq_true,Bool.not_eq_true'] at told
      rw [raiseMessage,raiseMessage,items_of_arguments,items_of_arguments,joined,filter_item_of_whole told.1,
        parts]
      simp only [List.map_cons,List.map_nil,Tree.is_joined,string,if_true,literalText_joined told.2,
        Tree.text_joined]
    | false =>
      -- neither with nor without line continuations is there nothing but a string
      have other (c : Tree) (alone : t.children.filter Tree.isItem = [c]) : c.is .string = false := by
        have fewer := (constructs_sublist t.children).length_le
        have same := among member
        rw [alone,parts] at fewer
        rw [alone,List.mem_singleton] at same
        obtain rfl : rest = [] := List.eq_nil_of_length_eq_zero (Nat.le_zero.1 (Nat.le_of_succ_le_succ fewer))
        simpa [← same] using single
      have other' (c : Tree) (alone : t.joined.children.filter Tree.isItem = [c]) : c.is .string = false := by
        rw [joined,parts,List.map_cons,List.cons.injEq,List.map_eq_nil_iff] at alone
        obtain ⟨rfl,rfl⟩ := alone
        simpa using single
      rw [raiseMessage_eq_bare (List.ne_nil_of_mem (among member)) other,
        raiseMessage_eq_bare (by rw [joined,parts]; simp) other',bare]

theorem thrownBy_joined (bare : ∀ c ∈ t.children, BareBreaks c.children)
    (decided : decidedAt (.named .raiseStatement) t.children) : thrownBy t.joined = thrownBy t := by
  rw [decidedAt,Bool.and_eq_true] at decided
  rw [thrownBy,thrownBy,Tree.namedChildren,Tree.namedChildren,List.head?_filter,List.head?_filter,
    Tree.children_joined,find_named_joinedAll decided.1]
  cases found : t.children.find? Tree.isNamed with
  | none => rfl
  | some c =>
    have told : c.is .call → (c.child? .arguments).all tells := by
      have told := decided.2
      rw [found] at told
      intro call
      simpa [call] using told
    have inner := bare c (List.mem_of_find?_eq_some found)
    simp only [Option.map_some,Tree.is_joined,Tree.line_joined,Tree.text_joined,childText_joined inner,
      child?_joined inner]
    split
    · next call =>
      have message : ((c.child? .arguments).map Tree.joined).map raiseMessage =
          (c.child? .arguments).map raiseMessage := by
        have told := told call
        cases arguments : c.child? .arguments with
        | none => rfl
        | some a =>
          rw [arguments] at told
          simp only [Option.map_some,raiseMessage_joined (by simpa using told)]
      rw [message]
    · rfl

end Raise

end Excerpt.Program
