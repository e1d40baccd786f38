import Excerpt.Proofs.Location

/-!
The productions for literals, targets, displays, operands, types, parameters and expressions find trees of
the text, over a grammar that does.
-/
namespace Excerpt.Syntax.Grammar
open Std.Do Excerpt.Text Excerpt.Syntax.Parser

set_option mvcgen.warning false

attribute [local simp] Goal.Plain

attribute [local spec] reads_nothing reads_orElse reads_advance reads_seek reads_token reads_here
  reads_behind reads_isMark reads_isWord reads_isOneOf reads_require reads_shorten reads_waiting reads_take
  reads_mark reads_keyword reads_name reads_also reads_alsoAll reads_commas Grammar.expression

variable [Script] {g : Grammar} [g.Located] {t : Tree} {ts : List Tree} {start stop : Cursor}
  {f : Follow} {kind : Kind} {q : Quoting}

@[local spec] theorem reads_one {goal : Goal} (plain : goal.Plain) : Reads (g.one goal) Tree.Placed := by
  have reached := Located.reaches (g := g) goal plain
  mvcgen [one,reached]
  all_goals
    clear reached
    simp_all

@[local spec] theorem reads_loopTree {step : Tree → Parser (Option Tree)} {n : Nat} (start : t.Placed)
    (stays : ∀ t : Tree, t.Placed → Reads (step t) fun next => ∀ u ∈ next, u.Placed) :
    Reads (loop step n t) Tree.Placed := reads_loop Tree.Placed start stays

@[local spec] theorem reads_loopTrees {step : List Tree → Parser (Option (List Tree))} {n : Nat}
    (start : AllPlaced ts)
    (stays : ∀ ts, AllPlaced ts → Reads (step ts) fun next => ∀ us ∈ next, AllPlaced us) :
    Reads (loop step n ts) AllPlaced := reads_loop AllPlaced start stays

@[local spec] theorem reads_loopWhile {step : List Tree × Bool → Parser (Option (List Tree × Bool))} {n : Nat}
    {x : List Tree × Bool} (start : AllPlaced x.1)
    (stays : ∀ ts continues, AllPlaced ts →
      Reads (step (ts,continues)) fun next => ∀ y ∈ next, AllPlaced y.1) :
    Reads (loop step n x) fun y => AllPlaced y.1 :=
  reads_loop (fun y : List Tree × Bool => AllPlaced y.1) start fun y => stays y.1 y.2

@[local spec] theorem reads_startsOperand : Reads startsOperand fun _ => True := by
  mvcgen [startsOperand]

/-- The parts of an unfinished literal lie in the text. -/
def Quoting.Placed (q : Quoting) : Prop :=
  AllPlaced q.children ∧
    ∀ start parts stop, q.content = some (start,parts,stop) → start.In ∧ AllPlaced parts

@[simp] theorem Quoting.Placed.extend (placed : q.Placed) (inside : start.In)
    (parts : AllPlaced ts) : (q.extend start ts stop).Placed := by
  obtain ⟨children,content⟩ := placed
  unfold Quoting.extend
  split
  · exact ⟨children,by simp_all⟩
  · next opened => exact ⟨children,by simp_all [content _ _ _ opened]⟩

theorem Quoting.Placed.settle (placed : q.Placed) : q.settle.Placed := by
  obtain ⟨children,content⟩ := placed
  unfold Quoting.settle
  split
  · exact ⟨children,content⟩
  · next opened => exact ⟨by simp [children,content _ _ _ opened],nofun⟩

@[simp] theorem Quoting.Placed.push (placed : q.Placed) (part : t.Placed) :
    (q.push t).Placed := by
  obtain ⟨children,content⟩ := placed.settle
  exact ⟨by simp [Quoting.push,children,part],content⟩

theorem reads_quotedPiece (d : Delimiter) (placed : q.Placed) :
    Reads (quotedPiece g d q) fun next => ∀ r ∈ next, r.Placed := by
  have pieces {s : State} (on : s.On) : (Quotation.piece d s.layout s.stop).In ∧ s.stop.In :=
    ⟨in_piece on.stop,on.stop⟩
  mvcgen [quotedPiece]
  all_goals try have looked := pieces ‹_›
  all_goals
    clear pieces
    simp_all +zetaDelta [Piece.In]
  · rename_i on _
    exact ⟨on.start,on.stop,on.waiting⟩
  · exact placed.push (by simp [looked])

@[local spec] theorem reads_quoted {d : Delimiter} {n : Nat} (placed : q.Placed) :
    Reads (loop (quotedPiece g d) n q) Quoting.Placed :=
  reads_loop Quoting.Placed placed fun _ => reads_quotedPiece d

@[local spec] theorem reads_string (after : Expect) : Reads (string g after) Tree.Placed := by
  mvcgen [string] <;> simp_all [Quoting.Placed]

@[local spec] theorem reads_strings : Reads (strings g f) Tree.Placed := by
  mvcgen [strings] <;> simp_all

theorem in_formatText {c : Cursor} {cs : List Char} (inside : c.In) (rest : c.rest = cs) :
    (formatText cs c.place).In := by
  obtain ⟨ds,p⟩ := c
  obtain rfl : ds = cs := rest
  induction ds generalizing p with
  | nil => exact inside
  | cons x xs ih =>
    rw [formatText]
    split
    · exact inside
    · exact ih _ inside.next

@[local spec] theorem reads_formatSpecifier : Reads (formatSpecifier g) Tree.Placed := by
  have rounds {step} {n} {x} := @reads_loop _ (List Tree × Nat) step n x fun x => AllPlaced x.1
  mvcgen [formatSpecifier,rounds]
  all_goals
    clear rounds
    simp_all +zetaDelta [Cursor.In.drop,in_skipBlanks,in_formatText]

@[local spec] theorem reads_expressions : Reads (expressions g f) Tree.Placed := by
  mvcgen [expressions] <;> simp_all

@[local spec] theorem reads_yielding : Reads (yielding g f) Tree.Placed := by
  mvcgen [yielding] <;> simp_all

theorem reads_interpolation (plain : kind.Composite) :
    Reads (interpolation g kind) Tree.Placed := by
  mvcgen [interpolation] <;> simp_all [Cursor.In.drop,State.On.start,State.On.stop]

/-- Another kind and other parts leave a node where it is. -/
theorem placed_relabel {l : Label} {cs : List Tree} (placed : (Tree.node l cs).Placed)
    (plain : kind.Composite) (parts : AllPlaced ts) :
    (Tree.node {l with symbol := .named kind} ts).Placed := by
  obtain ⟨own,-⟩ := placed
  exact .node (own.relabel rfl rfl (by simpa using plain.1) fun word => absurd (Symbol.named.inj word) plain.2)
    parts

/-- Targets lie in the text if the target of each part does. -/
theorem placed_toTargets_of {us : List Tree}
    (each : ∀ t ∈ ts, ∀ u, t.toTarget? = some u → u.Placed) (placed : AllPlaced ts)
    (found : Tree.toTargets? ts = some us) : AllPlaced us := by
  induction ts generalizing us with
  | nil =>
    cases found
    exact allPlaced_nil
  | cons t ts ih =>
    obtain ⟨own,rest⟩ := allPlaced_cons.1 placed
    obtain ⟨first,later⟩ := List.forall_mem_cons.1 each
    rw [Tree.toTargets?] at found
    split at found
    · obtain ⟨_,⟨⟩,others⟩ := Option.bind_eq_some_iff.1 found
      obtain ⟨vs,tail,same⟩ := Option.bind_eq_some_iff.1 others
      exact Option.some.inj same ▸ allPlaced_cons.2 ⟨own,ih later rest tail⟩
    · obtain ⟨u,head,others⟩ := Option.bind_eq_some_iff.1 found
      obtain ⟨vs,tail,same⟩ := Option.bind_eq_some_iff.1 others
      exact Option.some.inj same ▸ allPlaced_cons.2 ⟨first u head,ih later rest tail⟩

theorem placed_toTarget {u : Tree} (placed : t.Placed) (found : t.toTarget? = some u) : u.Placed := by
  induction placed generalizing u with
  | @node l cs own parts ih =>
    have display {k : Kind} (targets : (Tree.toTargets? cs).map (.node {l with symbol := .named k}) = some u)
        (plain : k.Composite) : u.Placed := by
      obtain ⟨ds,inner,rfl⟩ := Option.map_eq_some_iff.1 targets
      exact placed_relabel (.node own parts) plain (placed_toTargets_of ih parts inner)
    unfold Tree.toTarget? at found
    split at found
    · exact Option.some.inj found ▸ .node own parts
    · exact Option.some.inj found ▸ .node own parts
    · exact Option.some.inj found ▸ .node own parts
    · split at found
      · exact Option.some.inj found ▸ placed_relabel (.node own parts) ⟨nofun,nofun⟩ parts
      · cases found
    · exact display found ⟨nofun,nofun⟩
    · exact display found ⟨nofun,nofun⟩
    · exact display found ⟨nofun,nofun⟩
    · exact display found ⟨nofun,nofun⟩
    · cases found

theorem placed_toTargets {us : List Tree} (placed : AllPlaced ts) (found : Tree.toTargets? ts = some us) :
    AllPlaced us := placed_toTargets_of (fun t member _ => placed_toTarget (placed t member)) placed found

@[local spec] theorem reads_target {p : Parser Tree} (placed : Reads p Tree.Placed) :
    Reads (target p) Tree.Placed := by
  mvcgen [target,placed]
  · rename_i found _ holds
    exact ⟨placed_toTarget holds.1 found,holds.2⟩
  · rename_i holds
    exact holds.2
  · exact False.elim

/-- Trees whose last one takes another role. -/
theorem placed_relast {role : Field} (placed : AllPlaced ts) (last : ts.getLast? = some t) :
    AllPlaced (ts.dropLast ++ [t.withField role]) := by
  have own := placed t (List.mem_of_getLast? last)
  refine allPlaced_append.2 ⟨fun u member => placed u (List.mem_of_mem_dropLast member),?_⟩
  simp [own]

@[simp] theorem placed_asBody (placed : AllPlaced ts) : AllPlaced (asBody ts) := by
  unfold asBody
  split
  · next last => exact placed_relast placed last
  · exact allPlaced_nil

@[simp] theorem placed_asElement (placed : t.Placed) (plain : kind.Composite) :
    (asElement kind t).Placed := by
  unfold asElement
  split
  · obtain ⟨own,parts⟩ := placed
    refine placed_relabel (.node own parts) plain fun u member => ?_
    obtain ⟨c,inside,rfl⟩ := List.mem_map.1 member
    split
    · exact placed_withKind nofun nofun (parts c inside)
    · exact parts c inside
  · exact placed

@[simp] theorem placed_map_asElement (placed : AllPlaced ts) (plain : kind.Composite) :
    AllPlaced (ts.map (asElement kind)) := by
  intro u member
  obtain ⟨t,inside,rfl⟩ := List.mem_map.1 member
  exact placed_asElement (placed t inside) plain

@[local spec] theorem reads_isClause : Reads Grammar.isClause fun _ => True := by
  mvcgen [Grammar.isClause]

@[local spec] theorem reads_isLoopClause : Reads isLoopClause fun _ => True := by
  mvcgen [isLoopClause]

@[local spec] theorem reads_splat {spelling : String} (plain : kind.Composite) :
    Reads (splat g spelling kind) Tree.Placed := by
  mvcgen [splat] <;> simp_all

@[local spec] theorem reads_element : Reads (element g) Tree.Placed := by
  mvcgen [element] <;> simp_all

@[local spec] theorem reads_displayElement : Reads (displayElement g) Tree.Placed := by
  mvcgen [displayElement] <;> simp_all

@[local spec] theorem reads_loopTargetItem : Reads (loopTargetItem g) Tree.Placed := by
  mvcgen [loopTargetItem] <;> simp_all

@[local spec] theorem reads_loopTarget : Reads (loopTarget g) Tree.Placed := by
  mvcgen [loopTarget] <;> simp_all

@[local spec] theorem reads_loopClause : Reads (loopClause g) Tree.Placed := by
  mvcgen [loopClause] <;> simp_all

@[local spec] theorem reads_conditionClause : Reads (conditionClause g) Tree.Placed := by
  mvcgen [conditionClause] <;> simp_all

@[local spec] theorem reads_comprehension {close : String} {after : Expect} (plain : kind.Composite)
    (inside : start.In) (placed : AllPlaced ts) :
    Reads (comprehension g kind start close after ts) Tree.Placed := by
  mvcgen [comprehension] <;> simp_all

@[local spec] theorem reads_moreElements {close : String} (plain : kind.Composite) (inside : start.In)
    (placed : AllPlaced ts) :
    Reads (moreElements g kind start close f ts) Tree.Placed := by
  mvcgen [moreElements] <;> simp_all

@[local spec] theorem reads_parenthesized : Reads (parenthesized g f) Tree.Placed := by
  mvcgen [parenthesized] <;> simp_all +zetaDelta

@[local spec] theorem reads_listDisplay : Reads (listDisplay g f) Tree.Placed := by
  mvcgen [listDisplay] <;> simp_all

@[local spec] theorem reads_pairBehind (inside : start.In) (placed : t.Placed) :
    Reads (pairBehind g start t) Tree.Placed := by
  mvcgen [pairBehind] <;> simp_all

@[local spec] theorem reads_dictionaryItem : Reads (dictionaryItem g) Tree.Placed := by
  mvcgen [dictionaryItem] <;> simp_all

@[local spec] theorem reads_moreItems (inside : start.In) (placed : AllPlaced ts) :
    Reads (moreItems g start f ts) Tree.Placed := by
  mvcgen [moreItems] <;> simp_all

@[local spec] theorem reads_braced : Reads (braced g f) Tree.Placed := by
  mvcgen [braced] <;> simp_all +zetaDelta

/-- Something appended to an operand lies behind it. -/
def Suffix.Placed (s : Suffix) : Prop := s.kind.Composite ∧ AllPlaced s.parts

@[simp] theorem Suffix.Placed.apply {s : Suffix} (suffix : s.Placed) (inside : start.In)
    (placed : t.Placed) : (s.apply start t).Placed := by
  obtain ⟨plain,parts⟩ := suffix
  simp [Suffix.apply,plain.1,plain.2,inside,placed,parts]

def SuffixesPlaced (ss : List Suffix) : Prop := ∀ s ∈ ss, s.Placed

@[simp] theorem suffixesPlaced_nil : SuffixesPlaced [] :=
  List.forall_mem_nil _

@[simp] theorem suffixesPlaced_concat {ss : List Suffix} {s : Suffix} :
    SuffixesPlaced (ss ++ [s]) ↔ SuffixesPlaced ss ∧ s.Placed := by
  simp [SuffixesPlaced,or_imp,forall_and]

@[simp] theorem placed_foldl_apply {ss : List Suffix} (suffixes : SuffixesPlaced ss)
    (inside : start.In) (placed : t.Placed) :
    (ss.foldl (Suffix.apply start) t).Placed := by
  induction ss generalizing t with
  | nil => exact placed
  | cons s ss ih =>
    obtain ⟨first,rest⟩ := List.forall_mem_cons.1 suffixes
    exact ih rest (first.apply inside placed)

/-- A star that covers only the first suffixes of a chain. -/
@[simp] theorem placed_covered {ss : List Suffix} {n : Nat} {star : Tree} {inner : Cursor}
    (suffixes : SuffixesPlaced ss) (placed : t.Placed) (before : star.Placed)
    (between : AllPlaced ts) (outside : start.In) (inside : inner.In) :
    ((ss.drop n).foldl (Suffix.apply start) (node .listSplat start
      (star :: (ts ++ [(ss.take n).foldl (Suffix.apply inner) t])))).Placed := by
  have place : ((ss.take n).foldl (Suffix.apply inner) t).Placed :=
    placed_foldl_apply (fun s member => suffixes s (List.mem_of_mem_take member)) inside placed
  refine placed_foldl_apply (fun s member => suffixes s (List.mem_of_mem_drop member)) outside ?_
  simp [outside,before,between,place]

@[local spec] theorem reads_argument : Reads (argument g) Tree.Placed := by
  mvcgen [argument] <;> simp_all

@[local spec] theorem reads_arguments (generator : Bool) (after : Expect) :
    Reads (arguments g generator after) Tree.Placed := by
  mvcgen [arguments] <;> simp_all

@[local spec] theorem reads_index : Reads (index g) Tree.Placed := by
  mvcgen [index] <;> simp_all

@[local spec] theorem reads_suffix : Reads (suffix g f) fun found => ∀ s ∈ found, s.Placed := by
  mvcgen [suffix] <;> simp_all [Suffix.Placed]

@[local spec] theorem reads_atom : Reads (atom g f) Tree.Placed := by
  mvcgen [atom] <;> simp_all

@[local spec] theorem reads_appended (inside : start.In) (placed : t.Placed) :
    Reads (appended g f start t) Tree.Placed := by
  mvcgen [appended] <;> simp_all

@[local spec] theorem reads_chain : Reads (chain g f) Tree.Placed := by
  mvcgen [chain] <;> simp_all

@[local spec] theorem reads_isBinaryOperator : Reads isBinaryOperator fun _ => True := by
  mvcgen [isBinaryOperator]

@[local spec] theorem reads_starred : Reads (starred g f) Tree.Placed := by
  have rounds {step} {n} {x} := @reads_loop _ (List Suffix) step n x SuffixesPlaced
  mvcgen [starred,rounds]
  all_goals
    clear rounds
    simp_all +zetaDelta

omit [g.Located] in
/-- A keyword has no parts, so it can be taken for an identifier. -/
theorem reads_keywordLeaf {spelling : String} {e : Expect} :
    Reads (keyword spelling e) fun t => t.Placed ∧ t.children = [] := by
  mvcgen [keyword,take,-reads_keyword,-reads_take] <;> simp_all
  rename_i looked _
  exact ⟨placed_leaf (by simp) looked.2.start,rfl⟩

@[local spec] theorem reads_awaited : Reads (awaited g f) Tree.Placed := by
  mvcgen [awaited,reads_keywordLeaf,-reads_keyword] <;> simp_all

@[local spec] theorem reads_signed (spelling : String) : Reads (signed g f spelling) Tree.Placed := by
  mvcgen [signed] <;> simp_all

@[local spec] theorem reads_operand : Reads (operand g f) Tree.Placed := by
  mvcgen [operand] <;> simp_all

@[local spec] theorem reads_typeParameters (after : Expect) :
    Reads (typeParameters g after) Tree.Placed := by
  mvcgen [typeParameters] <;> simp_all

@[local spec] theorem reads_startsGeneric : Reads (startsGeneric f) fun _ => True := by
  mvcgen [startsGeneric] <;> simp_all

@[local spec] theorem reads_genericType : Reads (genericType g f) Tree.Placed := by
  mvcgen [genericType] <;> simp_all

@[local spec] theorem reads_splatType : Reads (splatType f) Tree.Placed := by
  mvcgen [splatType] <;> simp_all +zetaDelta

@[local spec] theorem reads_plainType : Reads (plainType g f) fun x => x.1.Placed := by
  mvcgen [plainType] <;> simp_all +zetaDelta

theorem reads_typeHint (constraint : Bool) : Reads (typeHint g f constraint) Tree.Placed := by
  have rounds {step} {n} {x} := @reads_loop _ (Tree × Bool) step n x fun x => x.1.Placed
  mvcgen [typeHint,rounds]
  all_goals
    clear rounds
    simp_all +zetaDelta

@[local spec] theorem reads_parameterType (placed : AllPlaced ts) :
    Reads (parameterType g f ts) AllPlaced := by
  mvcgen [parameterType] <;> simp_all

@[local spec] theorem reads_parameterDefault (placed : AllPlaced ts) :
    Reads (parameterDefault g f ts) AllPlaced := by
  mvcgen [parameterDefault] <;> simp_all

@[simp] theorem allPlaced_set {n : Nat} (placed : AllPlaced ts) (own : t.Placed) :
    AllPlaced (ts.set n t) := by
  intro u member
  exact (List.mem_or_eq_of_mem_set member).elim (placed u) fun same => same ▸ own

@[local spec] theorem reads_namedParameter : Reads (namedParameter g f) Tree.Placed := by
  mvcgen [namedParameter] <;> simp_all

@[local spec] theorem reads_collectingParameter {spelling : String} (plain : kind.Composite) :
    Reads (collectingParameter g f spelling kind) Tree.Placed := by
  mvcgen [collectingParameter] <;> simp_all +zetaDelta

@[local spec] theorem reads_tupleParameter : Reads (tupleParameter g f) Tree.Placed := by
  mvcgen [tupleParameter] <;> simp_all

@[local spec] theorem reads_parameter : Reads (parameter g f) Tree.Placed := by
  mvcgen [parameter] <;> simp_all

@[local spec] theorem reads_parameters : Reads (parameters g) Tree.Placed := by
  mvcgen [parameters] <;> simp_all

@[local spec] theorem reads_lambda {body : Parser Tree} (placed : Reads body Tree.Placed) :
    Reads (lambda g body) Tree.Placed := by
  mvcgen [lambda,placed]
  all_goals
    clear placed
    simp_all

theorem reads_binary (level : Nat) : Reads (binary g f level) Tree.Placed := by
  mvcgen [binary] <;> simp_all

@[local spec] theorem reads_comparator : Reads comparator fun found => ∀ t ∈ found, t.Placed := by
  mvcgen [comparator] <;> simp_all

@[local spec] theorem reads_comparison : Reads (comparison g f) Tree.Placed := by
  mvcgen [comparison] <;> simp_all +zetaDelta
  rename_i kept _ on
  exact ⟨on.start,on.stop,kept.1⟩

theorem reads_negation : Reads (negation g f) Tree.Placed := by
  mvcgen [negation] <;> simp_all

omit [g.Located] in
theorem reads_joined {operator : String} {part : Parser Tree} (placed : Reads part Tree.Placed) :
    Reads (joined g operator part) Tree.Placed := by
  mvcgen [joined,placed]
  all_goals
    clear placed
    simp_all

@[local spec] theorem reads_disjunction : Reads (disjunction g f) Tree.Placed :=
  reads_joined (reads_joined reads_negation)

@[local spec] theorem reads_expressionOf (conditional : Bool) :
    Reads (expressionOf g f conditional) Tree.Placed := by
  mvcgen [expressionOf] <;> simp_all

theorem reads_source : Reads (source g f) Tree.Placed := by
  mvcgen [source] <;> simp_all

end Excerpt.Syntax.Grammar
