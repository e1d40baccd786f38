import Excerpt.Proofs.LocatedStatement
import Excerpt.Proofs.Placement
import Mathlib

/-!
What parsers yield. A parser that starts with nothing but comments and line continuations waiting
is described by what holds of its result; the rules for the basic parsers are triples, from which
the conditions for every production are generated. What is read fits into the place it is read for.
-/
namespace Excerpt.Syntax
open Std.Do Excerpt.Text

set_option mvcgen.warning false

namespace Tree

/-- A tree that fits below a node that gives its children the places in `place`. -/
def Suits (place : Option Field → Place) (t : Tree) : Prop := t.fits (place t.field)

/-- A token without a role. -/
def Bare (t : Tree) : Prop := t.isNamed = false ∧ t.field = none ∧ t.children = []

/-- A comment or a line continuation without a role. -/
def Spare (t : Tree) : Prop := t.isExtra ∧ t.field = none ∧ t.children = []

end Tree

def AllSuit (place : Option Field → Place) (ts : List Tree) : Prop := ∀ t ∈ ts, t.Suits place

def Spares (ts : List Tree) : Prop := ∀ t ∈ ts, t.Spare

/-- What may stand below a node that can be evaluated. -/
abbrev Tree.Item (t : Tree) : Prop := t.Suits Place.belowOperand

abbrev Items (ts : List Tree) : Prop := AllSuit Place.belowOperand ts

/-- What may stand below the pattern of a case. -/
abbrev Patterns (ts : List Tree) : Prop := AllSuit (fun _ => .pattern) ts

@[simp] theorem Parser.field_node {k : Kind} {start : Cursor} {ts : List Tree} :
    (Parser.node k start ts).field = none := rfl

@[simp] theorem Tree.field_withField {t : Tree} {f : Field} : (t.withField f).field = some f := rfl

section Suits

variable {place : Option Field → Place} {t : Tree} {ts us : List Tree}

@[simp] theorem allSuit_nil : AllSuit place [] := nofun

@[simp] theorem allSuit_cons : AllSuit place (t :: ts) ↔ t.Suits place ∧ AllSuit place ts := by
  simp [AllSuit]

@[simp] theorem allSuit_append : AllSuit place (ts ++ us) ↔ AllSuit place ts ∧ AllSuit place us := by
  simp [AllSuit,or_imp,forall_and]

@[simp] theorem spares_nil : Spares [] := nofun

@[simp] theorem spares_append : Spares (ts ++ us) ↔ Spares ts ∧ Spares us := by
  simp [Spares,or_imp,forall_and]

/-- A node without parts fits wherever its symbol is allowed. -/
theorem fits_of_leaf {p : Place} (leaf : t.children = []) (allowed : p.allows t.symbol) :
    t.fits p := Tree.fits_iff.2 ⟨allowed,by simp [leaf]⟩

/-- Tokens stand in every place in which tokens are allowed. -/
@[simp] theorem Tree.Bare.suits (bare : t.Bare) (room : (place none).allowsTokens) :
    t.Suits place := by
  obtain ⟨plain,field,leaf⟩ := bare
  rw [Tree.Suits,field]
  refine fits_of_leaf leaf ?_
  unfold Tree.isNamed at plain
  split at plain
  · cases plain
  · rename_i symbol
    rw [symbol]
    exact room

theorem Tree.Spare.suits (spare : t.Spare)
    (room : (place none).allowsKind .comment ∧ (place none).allowsKind .lineContinuation) :
    t.Suits place := by
  obtain ⟨extra,field,leaf⟩ := spare
  rw [Tree.Suits,field]
  refine fits_of_leaf leaf ?_
  simp only [Tree.isExtra,Tree.is,Bool.or_eq_true,beq_iff_eq] at extra
  rcases extra with symbol | symbol <;> rw [symbol]
  · exact room.1
  · exact room.2

@[simp] theorem Spares.allSuit (spares : Spares ts)
    (room : (place none).allowsKind .comment ∧ (place none).allowsKind .lineContinuation) :
    AllSuit place ts := fun t member => (spares t member).suits room

@[simp] theorem suits_withField {f : Field} :
    (t.withField f).Suits place ↔ t.fits (place (some f)) := by
  rw [Tree.Suits,Tree.fits_iff,Tree.fits_iff]
  rfl

@[simp] theorem fits_withField {f : Field} {p : Place} : (t.withField f).fits p ↔ t.fits p := by
  rw [Tree.fits_iff,Tree.fits_iff]
  rfl

theorem suits_node {k : Kind} {start : Cursor} : (Parser.node k start ts).Suits place ↔
    (place none).allowsKind k ∧ AllSuit ((place none).below (.named k)) ts := Tree.fits_iff

end Suits

section Items

variable {t : Tree} {ts : List Tree} {k : Kind} {f : Field} {start : Cursor}

/-- Whatever stands below an operand could be an operand itself. -/
theorem Tree.Suits.operand (item : t.Item) : t.fits .operand := by
  unfold Tree.Item Tree.Suits Place.belowOperand at item
  split at item
  · exact fits_operand_of_parameters item
  · exact item

@[simp] theorem Tree.Suits.fits {p : Place} (item : t.Item) (place : p = .operand) : t.fits p :=
  place ▸ item.operand

theorem item_of_operand (placed : t.fits .operand) (role : t.field ≠ some .parameters) : t.Item := by
  unfold Tree.Item Tree.Suits Place.belowOperand
  split
  · contradiction
  · exact placed

/-- Every construct but a statement or a part of one is an item if its parts are. -/
theorem item_of_label {l : Label} (symbol : l.symbol = .named k) (role : l.field = none) :
    (Tree.node l ts).Item ↔ k.isStructure = false ∧ Items ts := by
  have allowed : Place.allows .operand (.named k) = !k.isStructure := rfl
  have fits : (Tree.node l ts).Item ↔ (Tree.node l ts).fits .operand := by
    rw [Tree.Item,Tree.Suits,Tree.field_node,role]
    rfl
  rw [fits,Tree.fits_iff,Tree.symbol_node,symbol,allowed,Bool.not_eq_true']
  refine and_congr_right fun plain => ?_
  rw [Place.below_operand (by rw [allowed,plain]; rfl)]
  rfl

@[simp] theorem item_node :
    (Parser.node k start ts).Item ↔ k.isStructure = false ∧ Items ts := item_of_label rfl rfl

@[simp] theorem item_nodeTo {stop : Nat} :
    (Parser.nodeTo k start stop ts).Item ↔ k.isStructure = false ∧ Items ts := item_of_label rfl rfl

@[simp] theorem Tree.Bare.item (bare : t.Bare) : t.Item := bare.suits rfl

@[simp] theorem Spares.items (spares : Spares ts) : Items ts := spares.allSuit ⟨rfl,rfl⟩

@[simp] theorem item_leaf {stop : Cursor} :
    (Parser.leaf (.named k) start stop).Item ↔ k.isStructure = false := by
  rw [Parser.leaf,item_of_label rfl rfl]
  exact and_iff_left allSuit_nil

@[simp] theorem item_tokenLeaf {spelling : String} {stop : Cursor} :
    (Parser.leaf (.token spelling) start stop).Item := Tree.Bare.item ⟨rfl,rfl,rfl⟩

/-- A word made of several tokens. -/
@[simp] theorem item_compound {spelling : String} (parts : AllSuit (fun _ => .token) ts) :
    (Parser.compound spelling start ts).Item := Tree.fits_iff.2 ⟨rfl,parts⟩

end Items

section Patterns

variable {t : Tree} {ts : List Tree} {k : Kind} {start : Cursor}

@[simp] theorem suits_pattern : t.Suits (fun _ => .pattern) ↔ t.fits .pattern := Iff.rfl

@[simp] theorem Tree.Bare.pattern (bare : t.Bare) : t.fits .pattern :=
  suits_pattern.1 (bare.suits rfl)

@[simp] theorem Spares.patterns (spares : Spares ts) : Patterns ts := spares.allSuit ⟨rfl,rfl⟩

@[simp] theorem fits_pattern_leaf {stop : Cursor} :
    (Parser.leaf (.named k) start stop).fits .pattern ↔ Place.allowsKind .pattern k := by
  rw [Tree.fits_iff]
  exact and_iff_left nofun

/-- A string in a pattern holds what strings hold elsewhere. -/
@[simp] theorem fits_pattern_string : (Parser.node .string start ts).fits .pattern ↔ Items ts :=
  Tree.fits_iff.trans (and_iff_right rfl)

@[simp] theorem fits_pattern_strings :
    (Parser.node .concatenatedString start ts).fits .pattern ↔ Items ts :=
  Tree.fits_iff.trans (and_iff_right rfl)

/-- Below any other pattern stand patterns. -/
@[simp] theorem fits_pattern_node (part : k.isPattern)
    (other : (k == .string || k == .concatenatedString) = false) :
    (Parser.node k start ts).fits .pattern ↔ Patterns ts := by
  have allowed : Place.allowsKind .pattern k := by simp [Place.allowsKind,part]
  have below : Place.below .pattern (.named k) = fun _ => .pattern := by
    funext role
    simp [Place.below,Place.belowKind,other]
  rw [← suits_pattern,suits_node,below]
  exact and_iff_right allowed

end Patterns

/-- Only comments and line continuations wait for a node to take them. -/
def State.Tidy (s : State) : Prop := Spares s.waiting

namespace Parser

/-- Whatever the parser yields from a tidy state has the property, and the state stays tidy. -/
abbrev Yields {α : Type} (p : Parser α) (post : α → Prop) : Prop :=
  ⦃fun s => ⌜s.Tidy⌝⦄ p ⦃post⟨fun a s => ⌜post a ∧ s.Tidy⌝,fun _ => ⌜True⌝⟩⦄

variable {α : Type} {p q : Parser α} {post : α → Prop}

theorem yields_iff : Yields p post ↔
    ∀ s, s.Tidy → ∀ a t, p s = some (a,t) → post a ∧ t.Tidy := keeps_iff

@[spec] theorem yields_nothing : Yields (failure : Parser α) fun _ => False := keeps_failure

@[spec] theorem yields_orElse (first : Yields p post) (second : Yields q post) :
    Yields (p <|> q) post := keeps_orElse first second

theorem fetch_tidy {limit : Nat} {e : Expect} {l : Layout} : ∀ {n : Nat} {waiting : List Tree}
    {c : Cursor}, Spares waiting → (fetch limit e l waiting n c).Tidy
  | 0,_,_,spares => spares
  | n + 1,waiting,c,spares => by
    rw [fetch]
    split
    · exact fetch_tidy (spares_append.2 ⟨spares,by simp [Spares,Tree.Spare]; exact ⟨rfl,rfl,rfl⟩⟩)
    · exact fetch_tidy (spares_append.2 ⟨spares,by simp [Spares,Tree.Spare]; exact ⟨rfl,rfl,rfl⟩⟩)
    · exact spares

@[spec] theorem yields_advance (e : Expect) : Yields (advance e) fun _ => True := by
  mvcgen [advance]
  exact ⟨trivial,fetch_tidy spares_nil⟩

@[spec] theorem yields_seek (c : Cursor) : Yields (seek c) fun _ => True := by
  mvcgen [seek]
  exact ⟨trivial,spares_nil⟩

@[spec] theorem yields_token : Yields token fun _ => True := by
  mvcgen [token]

@[spec] theorem yields_here : Yields here fun _ => True := by
  mvcgen [here]

@[spec] theorem yields_behind : Yields behind fun _ => True := by
  mvcgen [behind]

@[spec] theorem yields_isMark (spelling : String) : Yields (isMark spelling) fun _ => True := by
  mvcgen [isMark]

@[spec] theorem yields_isWord (spelling : String) : Yields (isWord spelling) fun _ => True := by
  mvcgen [isWord]

@[spec] theorem yields_isOneOf (spellings : List String) :
    Yields (isOneOf spellings) fun _ => True := by
  mvcgen [isOneOf]

@[spec] theorem yields_require (b : Bool) : Yields (require b) fun _ => b := keeps_require b

@[spec] theorem yields_shorten : Yields shorten fun _ => True := by
  mvcgen [shorten]

@[spec] theorem yields_waiting : Yields waiting Spares := by
  mvcgen [waiting]
  rename_i tidy
  exact ⟨tidy,spares_nil⟩

/-- The kind of an atom alone decides where it may stand. -/
@[spec] theorem yields_take (k : Kind) (e : Expect) : Yields (take (.named k) e) fun t =>
    (k.isStructure = false → t.Item) ∧ (k.isPattern → t.fits .pattern) := by
  mvcgen [take]
  simp_all [Place.allowsKind]

theorem yields_takeToken (spelling : String) (e : Expect) :
    Yields (take (.token spelling) e) Tree.Bare := by
  mvcgen [take]
  rename_i tidy
  exact ⟨⟨rfl,rfl,rfl⟩,tidy.2⟩

@[spec] theorem yields_mark (spelling : String) (e : Expect) :
    Yields (mark spelling e) Tree.Bare := by
  mvcgen [mark,yields_takeToken] <;> simp_all

@[spec] theorem yields_keyword (spelling : String) (e : Expect) :
    Yields (keyword spelling e) Tree.Bare := by
  mvcgen [keyword,yields_takeToken] <;> simp_all

@[spec] theorem yields_name (e : Expect) :
    Yields (name e) fun t => t.Item ∧ t.fits .pattern := by
  mvcgen [name] <;> simp_all +decide

/-- What waits suits where comments and line continuations may stand. -/
theorem yields_waitingSuits {place : Option Field → Place}
    (room : (place none).allowsKind .comment ∧ (place none).allowsKind .lineContinuation) :
    Yields waiting (AllSuit place) :=
  keeps_mono yields_waiting fun _ spares => spares.allSuit room

/-- A further child suits where the others do. -/
theorem yields_also {ts : List Tree} {p : Parser Tree} (place : Option Field → Place)
    (room : (place none).allowsKind .comment ∧ (place none).allowsKind .lineContinuation)
    (start : AllSuit place ts) (element : Yields p (Tree.Suits place)) :
    Yields (also ts p) (AllSuit place) := keeps_also (yields_waitingSuits room) start element

theorem yields_alsoAll {ts : List Tree} {p : Parser (List Tree)} (place : Option Field → Place)
    (room : (place none).allowsKind .comment ∧ (place none).allowsKind .lineContinuation)
    (start : AllSuit place ts) (elements : Yields p (AllSuit place)) :
    Yields (alsoAll ts p) (AllSuit place) := keeps_alsoAll (yields_waitingSuits room) start elements

theorem yields_loop {step : α → Parser (Option α)} {n : Nat} {a : α} (kept : α → Prop)
    (start : kept a) (stays : ∀ a, kept a → Yields (step a) fun next => ∀ b ∈ next, kept b) :
    Yields (loop step n a) kept := keeps_loop kept start stays

/-- Elements with commas between them suit where the elements and the commas do. -/
theorem yields_commas {n : Nat} {e : Expect} {more : Parser Bool} {element : Parser (List Tree)}
    {ts : List Tree} (place : Option Field → Place) (marks : (place none).allowsTokens)
    (room : (place none).allowsKind .comment ∧ (place none).allowsKind .lineContinuation)
    (start : AllSuit place ts) (follows : Yields more fun _ => True)
    (elements : Yields element (AllSuit place)) :
    Yields (commas n e more element ts) (AllSuit place) := by
  have comma : Yields (mark "," e) (Tree.Suits place) :=
    keeps_mono (yields_mark "," e) fun _ bare => bare.suits marks
  exact keeps_commas (yields_waitingSuits room) comma (yields_isMark ",") start follows elements

theorem yields_alsoItem {ts : List Tree} {p : Parser Tree} (start : Items ts)
    (element : Yields p Tree.Item) : Yields (also ts p) Items :=
  yields_also Place.belowOperand ⟨rfl,rfl⟩ start element

theorem yields_commasItems {n : Nat} {e : Expect} {more : Parser Bool}
    {element : Parser (List Tree)} {ts : List Tree} (start : Items ts)
    (follows : Yields more fun _ => True) (elements : Yields element Items) :
    Yields (commas n e more element ts) Items :=
  yields_commas Place.belowOperand rfl ⟨rfl,rfl⟩ start follows elements

theorem yields_loopTree {step : Tree → Parser (Option Tree)} {n : Nat} {t : Tree}
    (start : t.Item) (stays : ∀ t : Tree, t.Item → Yields (step t) fun next => ∀ u ∈ next, u.Item) :
    Yields (loop step n t) Tree.Item := yields_loop Tree.Item start stays

theorem yields_loopItems {step : List Tree → Parser (Option (List Tree))} {n : Nat}
    {ts : List Tree} (start : Items ts)
    (stays : ∀ ts, Items ts → Yields (step ts) fun next => ∀ us ∈ next, Items us) :
    Yields (loop step n ts) Items := yields_loop Items start stays

theorem yields_loopWhile {step : List Tree × Bool → Parser (Option (List Tree × Bool))}
    {n : Nat} {x : List Tree × Bool} (start : Items x.1)
    (stays : ∀ ts continues, Items ts →
      Yields (step (ts,continues)) fun next => ∀ y ∈ next, Items y.1) :
    Yields (loop step n x) fun y => Items y.1 :=
  yields_loop (fun y : List Tree × Bool => Items y.1) start fun y => stays y.1 y.2

end Parser

/-- The body of a header: a block, in front of which comments may stand. -/
def IsSuite (ts : List Tree) : Prop :=
  ∃ leading block, ts = leading ++ [block] ∧ Spares leading ∧ block.field = none ∧
    block.fits .block

/-- What holds of the node that a goal stands for. -/
def Goal.Single : Goal → Tree → Prop
  | .typeHint _ _,t => t.Item ∧ t.fits .hint
  | .casePattern _,t => t.field = none ∧ t.fits .pattern
  | .interpolation kind,t => kind.isStructure = false → t.Item
  | .suite _,_ => True
  | _,t => t.Item

/-- What holds of the trees that reach a goal. -/
def Goal.Reached : Goal → List Tree → Prop
  | .suite _,ts => IsSuite ts
  | goal,ts => ∀ t ∈ ts, goal.Single t

/-- A grammar whose parsers reach what their goals stand for. -/
class Grammar.Sound (g : Grammar) : Prop where
  reaches : ∀ goal, Parser.Yields (g.parse goal) goal.Reached

namespace Grammar
open Excerpt.Syntax.Parser

variable {g : Grammar} [g.Sound]

@[spec] theorem yields_suite (after : Expect) : Yields (g.parse (.suite after)) IsSuite :=
  Sound.reaches (.suite after)

@[spec] theorem yields_one (goal : Goal) : Yields (g.one goal) goal.Single := by
  have reached := Sound.reaches (g := g) goal
  mvcgen [one,reached]
  · rename_i holds
    cases goal <;> simp_all [Goal.Reached,Goal.Single]
  · rename_i holds
    exact holds.2
  · exact False.elim

attribute [spec] Grammar.expression

end Grammar

end Excerpt.Syntax
