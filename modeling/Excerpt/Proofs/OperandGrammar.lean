import Excerpt.Proofs.Parsing

/-!
The productions for everything that can be evaluated or assigned to. Whatever they yield is an
item: no statement, no clause and no definition ever stands below it, and parameters stand only
where they belong.
-/
namespace Excerpt.Syntax.Grammar
open Std.Do Excerpt.Text Excerpt.Syntax.Parser

set_option mvcgen.warning false

attribute [local simp] Goal.Single

attribute [local spec] yields_alsoItem yields_commasItems yields_loopItems
  yields_loopTree yields_loopWhile

@[spec] theorem yields_startsOperand : Yields startsOperand fun _ => True := by
  mvcgen [startsOperand]

section Quoted

/-- The parts of an unfinished literal. -/
def Quoting.Sound (q : Quoting) : Prop :=
  Items q.children ∧ ∀ start parts stop, q.content = some (start,parts,stop) → Items parts

variable {q : Quoting} {t : Tree} {ts : List Tree} {start stop : Cursor}

@[simp] theorem Quoting.Sound.extend (sound : q.Sound) (parts : Items ts) :
    (q.extend start ts stop).Sound := by
  obtain ⟨children,content⟩ := sound
  unfold Quoting.extend
  split
  · exact ⟨children,by simp_all +decide⟩
  · next opened => exact ⟨children,by simp_all +decide [content _ _ _ opened]⟩

theorem Quoting.Sound.settle (sound : q.Sound) : q.settle.Sound := by
  obtain ⟨children,content⟩ := sound
  unfold Quoting.settle
  split
  · exact ⟨children,content⟩
  · next opened => exact ⟨by simp +decide [children,content _ _ _ opened],nofun⟩

@[simp] theorem Quoting.Sound.push (sound : q.Sound) (item : t.Item) : (q.push t).Sound := by
  obtain ⟨children,content⟩ := sound.settle
  exact ⟨by simp [Quoting.push,children,item],content⟩

variable {g : Grammar} [g.Sound]

theorem yields_quotedPiece (d : Delimiter) (sound : q.Sound) :
    Yields (quotedPiece g d q) fun next => ∀ r ∈ next, r.Sound := by
  mvcgen [quotedPiece] <;> simp_all +decide
  exact Quoting.Sound.push sound (by simp +decide)

@[spec] theorem yields_quoted {d : Delimiter} {n : Nat} (sound : q.Sound) :
    Yields (loop (quotedPiece g d) n q) Quoting.Sound :=
  yields_loop Quoting.Sound sound fun _ => yields_quotedPiece d

@[spec] theorem yields_string (after : Expect) :
    Yields (string g after) fun t => t.Item ∧ t.fits .pattern := by
  mvcgen [string] <;> simp_all +decide [Quoting.Sound]

/-- Strings may stand in patterns, too. -/
@[spec] theorem yields_strings (f : Follow) :
    Yields (strings g f) fun t => t.Item ∧ t.fits .pattern := by
  have rounds {step} {n} {ts} := @yields_loop (List Tree) step n ts fun ts => Items ts ∧ Patterns ts
  mvcgen [strings,also,rounds,-yields_alsoItem,-yields_loopItems]
  all_goals
    clear rounds
    simp_all +decide

@[spec] theorem yields_formatSpecifier : Yields (formatSpecifier g) Tree.Item := by
  have rounds {step} {n} {x} := @yields_loop (List Tree × Nat) step n x fun x => Items x.1
  mvcgen [formatSpecifier,rounds]
  all_goals
    clear rounds
    simp_all +decide

@[spec] theorem yields_expressions (f : Follow) : Yields (expressions g f) Tree.Item := by
  mvcgen [expressions] <;> simp_all +decide

@[spec] theorem yields_yielding (f : Follow) : Yields (yielding g f) Tree.Item := by
  mvcgen [yielding] <;> simp_all +decide

@[spec] theorem yields_interpolation (kind : Kind) :
    Yields (interpolation g kind) fun t => kind.isStructure = false → t.Item := by
  mvcgen [interpolation] <;> simp_all +decide

end Quoted

section Targets

variable {t u : Tree} {l : Label} {cs : List Tree} {k : Kind}

theorem operand_of_parts (symbol : t.symbol = .named k) (plain : k.isStructure = false)
    (parts : Items t.children) : t.fits .operand := by
  have allowed : Place.allows .operand (.named k) := by
    simp [Place.allows,Place.allowsKind,plain]
  refine Tree.fits_iff.2 ⟨symbol ▸ allowed,?_⟩
  rw [symbol,Place.below_operand allowed]
  exact parts

theorem parts_of_operand (symbol : t.symbol = .named k) (placed : t.fits .operand) :
    Items t.children := by
  obtain ⟨allowed,below⟩ := Tree.fits_iff.1 placed
  rw [symbol] at allowed below
  rwa [Place.below_operand allowed] at below

/-- Only parameters play the role of parameters. -/
theorem role_of_item (item : t.Item) (symbol : t.symbol = .named k)
    (other : Place.allowsKind .parameters k = false) : t.field ≠ some .parameters := by
  intro role
  rw [Tree.Item,Tree.Suits,role] at item
  have allowed := (Tree.fits_iff.1 item).1
  rw [symbol] at allowed
  simp [Place.belowOperand,Place.allows,other] at allowed

/-- What is read as a construct of another kind, with parts that are items, is an item again. -/
theorem item_of_relabel {ds : List Tree} {own : Kind} (item : (Tree.node l cs).Item)
    (symbol : l.symbol = .named own) (other : Place.allowsKind .parameters own = false)
    (plain : k.isStructure = false) (parts : Items ds) :
    (Tree.node {l with symbol := .named k} ds).Item := by
  have role : l.field ≠ some .parameters := role_of_item item symbol other
  exact item_of_operand (operand_of_parts (k := k) rfl plain parts) role

mutual
theorem item_of_toTarget : ∀ {t u : Tree}, t.Item → t.toTarget? = some u → u.Item
  | .node l cs,u,item,found => by
    have parts {own : Kind} (symbol : l.symbol = .named own) : Items cs :=
      parts_of_operand (t := .node l cs) symbol item.operand
    unfold Tree.toTarget? at found
    split at found
    · exact Option.some.inj found ▸ item
    · exact Option.some.inj found ▸ item
    · exact Option.some.inj found ▸ item
    · next symbol =>
      split at found
      · exact Option.some.inj found ▸ item_of_relabel item symbol rfl rfl (parts symbol)
      · cases found
    · next symbol =>
      obtain ⟨ds,targets,rfl⟩ := Option.map_eq_some_iff.1 found
      exact item_of_relabel item symbol rfl rfl (items_of_toTargets (parts symbol) targets)
    · next symbol =>
      obtain ⟨ds,targets,rfl⟩ := Option.map_eq_some_iff.1 found
      exact item_of_relabel item symbol rfl rfl (items_of_toTargets (parts symbol) targets)
    · next symbol =>
      obtain ⟨ds,targets,rfl⟩ := Option.map_eq_some_iff.1 found
      exact item_of_relabel item symbol rfl rfl (items_of_toTargets (parts symbol) targets)
    · next symbol =>
      obtain ⟨ds,targets,rfl⟩ := Option.map_eq_some_iff.1 found
      exact item_of_relabel item symbol rfl rfl (items_of_toTargets (parts symbol) targets)
    · cases found
theorem items_of_toTargets : ∀ {ts us : List Tree}, Items ts → Tree.toTargets? ts = some us → Items us
  | [],us,_,found => by
    cases found
    exact allSuit_nil
  | t :: ts,us,items,found => by
    obtain ⟨item,rest⟩ := allSuit_cons.1 items
    rw [Tree.toTargets?] at found
    split at found
    · obtain ⟨_,⟨⟩,later⟩ := Option.bind_eq_some_iff.1 found
      obtain ⟨vs,tail,same⟩ := Option.bind_eq_some_iff.1 later
      exact Option.some.inj same ▸ allSuit_cons.2 ⟨item,items_of_toTargets rest tail⟩
    · obtain ⟨u,head,later⟩ := Option.bind_eq_some_iff.1 found
      obtain ⟨vs,tail,same⟩ := Option.bind_eq_some_iff.1 later
      exact Option.some.inj same ▸
        allSuit_cons.2 ⟨item_of_toTarget item head,items_of_toTargets rest tail⟩
end

@[spec] theorem yields_target {p : Parser Tree} (item : Yields p Tree.Item) :
    Yields (target p) Tree.Item := by
  mvcgen [target,item]
  · rename_i found _ holds
    exact ⟨item_of_toTarget holds.1 found,holds.2⟩
  · rename_i holds
    exact holds.2
  · exact False.elim

end Targets

section Display

variable {g : Grammar} [g.Sound] {t : Tree} {ts : List Tree} {kind : Kind}

@[simp] theorem items_asBody (items : Items ts) : Items (asBody ts) := by
  unfold asBody
  split
  · next t last =>
    have item := items t (List.mem_of_getLast? last)
    refine allSuit_append.2 ⟨fun u member => items u (List.mem_of_mem_dropLast member),?_⟩
    simp +decide [item]
  · exact allSuit_nil

/-- Parentheses around a splat keep their parts. -/
@[simp] theorem item_asElement (item : t.Item) (plain : kind.isStructure = false) :
    (asElement kind t).Item := by
  obtain ⟨l,cs⟩ := t
  unfold asElement
  split
  · next splat =>
    have symbol : l.symbol = .named .tuple := by
      simp only [isBareSplat,Bool.and_eq_true,Tree.is,Tree.symbol_node,beq_iff_eq] at splat
      exact splat.1
    refine item_of_relabel item symbol rfl plain fun u member => ?_
    obtain ⟨c,inside,rfl⟩ := List.mem_map.1 member
    have part := parts_of_operand (t := .node l cs) symbol item.operand c inside
    split
    · next own =>
      obtain ⟨m,ds⟩ := c
      have own : m.symbol = .named .parenthesizedListSplat := by simpa [Tree.is] using own
      exact item_of_relabel part own rfl rfl (parts_of_operand (t := .node m ds) own part.operand)
    · exact part
  · exact item

@[simp] theorem items_map_asElement (items : Items ts) (plain : kind.isStructure = false) :
    Items (ts.map (asElement kind)) := by
  intro u member
  obtain ⟨t,inside,rfl⟩ := List.mem_map.1 member
  exact item_asElement (items t inside) plain

@[spec] theorem yields_isClause : Yields Grammar.isClause fun _ => True := by
  mvcgen [Grammar.isClause]

@[spec] theorem yields_isLoopClause : Yields isLoopClause fun _ => True := by
  mvcgen [isLoopClause]

@[spec] theorem yields_splat {spelling : String} (plain : kind.isStructure = false) :
    Yields (splat g spelling kind) Tree.Item := by
  mvcgen [splat] <;> simp_all +decide

@[spec] theorem yields_element : Yields (element g) Tree.Item := by
  mvcgen [element] <;> simp_all +decide

@[spec] theorem yields_displayElement : Yields (displayElement g) Tree.Item := by
  mvcgen [displayElement] <;> simp_all +decide

@[spec] theorem yields_loopTargetItem : Yields (loopTargetItem g) Tree.Item := by
  mvcgen [loopTargetItem] <;> simp_all +decide

/-- A target suits wherever what is on the left side can be evaluated. -/
@[spec] theorem yields_loopTarget : Yields (loopTarget g) fun t =>
    ∀ place : Option Field → Place, place (some .left) = .operand → t.Suits place := by
  mvcgen [loopTarget] <;> simp_all +decide

@[spec] theorem yields_loopClause : Yields (loopClause g) Tree.Item := by
  mvcgen [loopClause] <;> simp_all +decide

@[spec] theorem yields_conditionClause : Yields (conditionClause g) Tree.Item := by
  mvcgen [conditionClause] <;> simp_all +decide

@[spec] theorem yields_comprehension {start : Cursor} {close : String} {after : Expect}
    (plain : kind.isStructure = false) (items : Items ts) :
    Yields (comprehension g kind start close after ts) Tree.Item := by
  mvcgen [comprehension] <;> simp_all +decide

@[spec] theorem yields_moreElements {start : Cursor} {close : String} {f : Follow}
    (plain : kind.isStructure = false) (items : Items ts) :
    Yields (moreElements g kind start close f ts) Tree.Item := by
  mvcgen [moreElements] <;> simp_all +decide

@[spec] theorem yields_parenthesized (f : Follow) : Yields (parenthesized g f) Tree.Item := by
  mvcgen [parenthesized] <;> simp_all +decide +zetaDelta

@[spec] theorem yields_listDisplay (f : Follow) : Yields (listDisplay g f) Tree.Item := by
  mvcgen [listDisplay] <;> simp_all +decide

@[spec] theorem yields_pairBehind {start : Cursor} (item : t.Item) :
    Yields (pairBehind g start t) Tree.Item := by
  mvcgen [pairBehind] <;> simp_all +decide

@[spec] theorem yields_dictionaryItem : Yields (dictionaryItem g) Tree.Item := by
  mvcgen [dictionaryItem] <;> simp_all +decide

@[spec] theorem yields_moreItems {start : Cursor} {f : Follow} (items : Items ts) :
    Yields (moreItems g start f ts) Tree.Item := by
  mvcgen [moreItems] <;> simp_all +decide

@[spec] theorem yields_braced (f : Follow) : Yields (braced g f) Tree.Item := by
  mvcgen [braced] <;> simp_all +decide +zetaDelta

end Display

section Operand

variable {g : Grammar} [g.Sound] {t : Tree} {ts : List Tree} {f : Follow} {start : Cursor}

/-- What can be appended to an item gives an item. -/
def Suffix.Sound (s : Suffix) : Prop :=
  s.kind.isStructure = false ∧ Place.belowOperand (some s.role) = .operand ∧ Items s.parts

@[simp] theorem Suffix.Sound.apply {s : Suffix} (sound : s.Sound) (item : t.Item) :
    (s.apply start t).Item := by
  obtain ⟨plain,role,parts⟩ := sound
  simp [Suffix.apply,plain,role,parts,item]

def Suffixes (ss : List Suffix) : Prop := ∀ s ∈ ss, s.Sound

@[simp] theorem suffixes_append {ss rs : List Suffix} :
    Suffixes (ss ++ rs) ↔ Suffixes ss ∧ Suffixes rs := List.forall_mem_append

@[simp] theorem suffixes_nil : Suffixes [] := List.forall_mem_nil _

@[simp] theorem suffixes_singleton {s : Suffix} : Suffixes [s] ↔ s.Sound := List.forall_mem_singleton

@[simp] theorem item_foldl_apply {ss : List Suffix} (sound : Suffixes ss) (item : t.Item) :
    (ss.foldl (Suffix.apply start) t).Item := by
  induction ss generalizing t with
  | nil => exact item
  | cons s ss ih =>
    obtain ⟨first,rest⟩ := List.forall_mem_cons.1 sound
    exact ih rest (first.apply item)

/-- A star that covers only the first suffixes of a chain. -/
@[simp] theorem item_covered {ss : List Suffix} {n : Nat} {star : Tree} {inner : Cursor}
    (sound : Suffixes ss) (item : t.Item) (bare : star.Bare) (between : Spares ts) :
    ((ss.drop n).foldl (Suffix.apply start) (node .listSplat start
      (star :: (ts ++ [(ss.take n).foldl (Suffix.apply inner) t])))).Item := by
  have place : ((ss.take n).foldl (Suffix.apply inner) t).Item :=
    item_foldl_apply (fun s member => sound s (List.mem_of_mem_take member)) item
  refine item_foldl_apply (fun s member => sound s (List.mem_of_mem_drop member)) ?_
  simp +decide [bare,between,place]

/-- A word that turns out to be a name. -/
@[simp] theorem item_withKind {k : Kind} (bare : t.Bare) (plain : k.isStructure = false) :
    (t.withKind k).Item := by
  obtain ⟨_,role,leaf⟩ := bare
  have parts : Items (t.withKind k).children := by
    rw [show (t.withKind k).children = [] from leaf]
    exact allSuit_nil
  refine item_of_operand (operand_of_parts (k := k) rfl plain parts) ?_
  rw [show (t.withKind k).field = none from role]
  nofun

@[spec] theorem yields_argument : Yields (argument g) Tree.Item := by
  mvcgen [argument] <;> simp_all +decide

@[spec] theorem yields_arguments (generator : Bool) (after : Expect) :
    Yields (arguments g generator after) Tree.Item := by
  mvcgen [arguments] <;> simp_all +decide

/-- Without a generator the arguments of a call may also be the bases of a class. -/
theorem yields_bases (after : Expect) :
    Yields (arguments g false after) fun t => t.fits .arguments := by
  have list {start : Cursor} {ts : List Tree} :
      (node .argumentList start ts).fits .arguments ↔ Items ts :=
    Tree.fits_iff.trans (and_iff_right rfl)
  mvcgen [arguments,-yields_arguments] <;> simp_all +decide

@[spec] theorem yields_index : Yields (index g) Tree.Item := by
  mvcgen [index] <;> simp_all +decide

@[spec] theorem yields_suffix (f : Follow) :
    Yields (suffix g f) fun found => ∀ s ∈ found, s.Sound := by
  mvcgen [suffix] <;> simp_all +decide [Suffix.Sound]

@[spec] theorem yields_atom (f : Follow) : Yields (atom g f) Tree.Item := by
  mvcgen [atom] <;> simp_all +decide

@[spec] theorem yields_appended (item : t.Item) : Yields (appended g f start t) Tree.Item := by
  mvcgen [appended] <;> simp_all +decide

@[spec] theorem yields_chain (f : Follow) : Yields (chain g f) Tree.Item := by
  mvcgen [chain] <;> simp_all +decide

@[spec] theorem yields_isBinaryOperator : Yields isBinaryOperator fun _ => True := by
  mvcgen [isBinaryOperator]

@[spec] theorem yields_starred (f : Follow) : Yields (starred g f) Tree.Item := by
  have rounds {step} {n} {x} := @yields_loop (List Suffix) step n x Suffixes
  mvcgen [starred,rounds]
  all_goals
    clear rounds
    simp_all +decide +zetaDelta

@[spec] theorem yields_awaited (f : Follow) : Yields (awaited g f) Tree.Item := by
  mvcgen [awaited] <;> simp_all +decide

@[spec] theorem yields_signed (f : Follow) (spelling : String) :
    Yields (signed g f spelling) Tree.Item := by
  mvcgen [signed] <;> simp_all +decide

@[spec] theorem yields_operand (f : Follow) : Yields (operand g f) Tree.Item := by
  mvcgen [operand] <;> simp_all +decide

end Operand

section TypeHint

variable {g : Grammar} [g.Sound] {t : Tree} {ts : List Tree} {f : Follow} {start : Cursor}

@[simp] theorem fits_hint_node : (node .typeExpression start ts).fits .hint ↔ Items ts :=
  Tree.fits_iff.trans (and_iff_right rfl)

@[spec] theorem yields_typeParameters (after : Expect) :
    Yields (typeParameters g after) Tree.Item := by
  mvcgen [typeParameters] <;> simp_all +decide

@[spec] theorem yields_startsGeneric (f : Follow) : Yields (startsGeneric f) fun _ => True := by
  mvcgen [startsGeneric] <;> simp_all

@[spec] theorem yields_genericType (f : Follow) : Yields (genericType g f) Tree.Item := by
  mvcgen [genericType] <;> simp_all +decide

@[spec] theorem yields_splatType (f : Follow) : Yields (splatType f) Tree.Item := by
  mvcgen [splatType] <;> simp_all +decide +zetaDelta

@[spec] theorem yields_plainType (f : Follow) :
    Yields (plainType g f) fun x => x.1.Item ∧ x.1.fits .hint := by
  mvcgen [plainType] <;> simp_all +decide +zetaDelta

/-- An annotation is an item that fits into the place of annotations, too. -/
@[spec] theorem yields_typeHint (f : Follow) (constraint : Bool) :
    Yields (typeHint g f constraint) fun t => t.Item ∧ t.fits .hint := by
  have rounds {step} {n} {x} := @yields_loop (Tree × Bool) step n x fun x => x.1.Item ∧ x.1.fits .hint
  mvcgen [typeHint,rounds]
  all_goals
    clear rounds
    simp_all +decide +zetaDelta

end TypeHint

section Parameter

variable {g : Grammar} [g.Sound] {t : Tree} {ts : List Tree} {f : Follow}

@[spec] theorem yields_parameterType (items : Items ts) : Yields (parameterType g f ts) Items := by
  mvcgen [parameterType] <;> simp_all +decide

@[spec] theorem yields_parameterDefault (items : Items ts) :
    Yields (parameterDefault g f ts) Items := by
  mvcgen [parameterDefault] <;> simp_all +decide

@[simp] theorem items_set {n : Nat} (items : Items ts) (item : t.Item) : Items (ts.set n t) := by
  intro u member
  exact (List.mem_or_eq_of_mem_set member).elim (items u) fun same => same ▸ item

@[spec] theorem yields_namedParameter (f : Follow) : Yields (namedParameter g f) Tree.Item := by
  mvcgen [namedParameter] <;> simp_all +decide

@[spec] theorem yields_collectingParameter {spelling : String} {kind : Kind}
    (plain : kind.isStructure = false) :
    Yields (collectingParameter g f spelling kind) Tree.Item := by
  mvcgen [collectingParameter] <;> simp_all +decide +zetaDelta

@[spec] theorem yields_tupleParameter (f : Follow) : Yields (tupleParameter g f) Tree.Item := by
  mvcgen [tupleParameter] <;> simp_all +decide

@[spec] theorem yields_parameter (f : Follow) : Yields (parameter g f) Tree.Item := by
  mvcgen [parameter] <;> simp_all +decide

@[simp] theorem fits_parameters_node {start : Cursor} :
    (node .parameters start ts).fits .parameters ↔ Items ts :=
  Tree.fits_iff.trans (and_iff_right rfl)

@[simp] theorem fits_lambdaParameters_node {start : Cursor} :
    (node .lambdaParameters start ts).fits .parameters ↔ Items ts :=
  Tree.fits_iff.trans (and_iff_right rfl)

@[spec] theorem yields_parameters : Yields (parameters g) fun t => t.fits .parameters := by
  mvcgen [parameters] <;> simp_all +decide

@[spec] theorem yields_lambda {body : Parser Tree} (item : Yields body Tree.Item) :
    Yields (lambda g body) Tree.Item := by
  mvcgen [lambda,item]
  all_goals
    clear item
    simp_all +decide [Place.belowOperand]

end Parameter

section Expression

variable {g : Grammar} [g.Sound]

@[spec] theorem yields_binary (f : Follow) (level : Nat) : Yields (binary g f level) Tree.Item := by
  mvcgen [binary] <;> simp_all +decide

/-- An operator of two words is a token that holds both. -/
@[spec] theorem yields_comparator : Yields comparator fun found => ∀ t ∈ found, t.Item := by
  mvcgen [comparator,also,-yields_alsoItem] <;> simp_all +decide

@[spec] theorem yields_comparison (f : Follow) : Yields (comparison g f) Tree.Item := by
  mvcgen [comparison] <;> simp_all +decide +zetaDelta [State.Tidy]

@[spec] theorem yields_negation (f : Follow) : Yields (negation g f) Tree.Item := by
  mvcgen [negation] <;> simp_all +decide

omit [g.Sound] in
@[spec] theorem yields_joined {operator : String} {part : Parser Tree}
    (item : Yields part Tree.Item) : Yields (joined g operator part) Tree.Item := by
  mvcgen [joined,item]
  all_goals
    clear item
    simp_all +decide

@[spec] theorem yields_conjunction (f : Follow) : Yields (conjunction g f) Tree.Item :=
  yields_joined (yields_negation f)

@[spec] theorem yields_disjunction (f : Follow) : Yields (disjunction g f) Tree.Item :=
  yields_joined (yields_conjunction f)

@[spec] theorem yields_expressionOf (f : Follow) (conditional : Bool) :
    Yields (expressionOf g f conditional) Tree.Item := by
  mvcgen [expressionOf] <;> simp_all +decide

@[spec] theorem yields_source (f : Follow) : Yields (source g f) Tree.Item := by
  mvcgen [source] <;> simp_all +decide

end Expression

end Excerpt.Syntax.Grammar
