import Excerpt.Proofs.ClassNames
import Excerpt.Proofs.NamePlaces

/-!
Decorated definitions. Wherever one stands in the tree of a text, it ends with the class or function that
is decorated, and nothing else is defined in front of that.
-/
namespace Excerpt.Syntax
open Std.Do Excerpt.Text

set_option mvcgen.warning false

namespace Place

/-- Places below which nothing can be defined. -/
def isPlain : Place → Bool
  | .token | .operand | .pattern | .parameters | .arguments | .hint | .condition => true
  | _ => false

theorem isPlain_belowOperand (f : Option Field) : (belowOperand f).isPlain := by
  unfold belowOperand
  split <;> rfl

theorem isPlain_below {p : Place} {symbol : Symbol} (plain : p.isPlain) (allowed : p.allows symbol)
    (f : Option Field) : (p.below symbol f).isPlain := by
  cases symbol with
  | token spelling => rfl
  | named k =>
    cases p with
    | token => rfl
    | operand =>
      rw [below_operand allowed]
      exact isPlain_belowOperand f
    | pattern =>
      simp only [below,belowKind]
      split
      · rfl
      · rw [if_pos trivial]
        split
        · exact isPlain_belowOperand f
        · rfl
    | parameters | arguments | hint | condition =>
      cases k <;> cases allowed <;> exact isPlain_belowOperand f
    | _ => cases plain

theorem allowsKind_of_isPlain {p : Place} (plain : p.isPlain) :
    p.allowsKind .classDefinition = false ∧ p.allowsKind .functionDefinition = false ∧
      p.allowsKind .decoratedDefinition = false := by
  cases p <;> first | decide | cases plain

end Place

namespace Tree

/-- Classes and functions. -/
def isDefinition (t : Tree) : Bool := t.is .classDefinition || t.is .functionDefinition

/-- A tree in which nothing is defined. -/
def Plain (t : Tree) : Prop :=
  ∀ u ∈ t.preorder, u.isDefinition = false ∧ u.is .decoratedDefinition = false

/-- The last child is the definition, and nothing is defined in front of it. -/
def Decorates (t : Tree) : Prop :=
  ∃ front d, t.children = front ++ [d] ∧ d.field = some .definition ∧ d.isDefinition ∧
    ∀ c ∈ front, c.field = none ∧ c.Plain

/-- Every decorated definition in the tree ends with the class or function that is decorated. -/
def WellDecorated (t : Tree) : Prop := ∀ u ∈ t.preorder, u.is .decoratedDefinition → u.Decorates

theorem plain_of_fits {t : Tree} {p : Place} (place : p.isPlain) (placed : t.fits p) : t.Plain := by
  obtain ⟨allowed,below⟩ := Tree.fits_iff.1 placed
  intro u inside
  rw [preorder_eq] at inside
  rcases List.mem_cons.1 inside with rfl | lower
  · have kinds := Place.allowsKind_of_isPlain place
    cases symbol : u.symbol with
    | token spelling => simp [isDefinition,is,symbol]
    | named k =>
      have own : p.allows (.named k) := symbol ▸ allowed
      have other {k'} (refused : p.allowsKind k' = false) : k ≠ k' := by
        rintro rfl
        rw [Place.allows,refused] at own
        cases own
      simp [isDefinition,is,symbol,other kinds.1,other kinds.2.1,other kinds.2.2]
  · obtain ⟨c,child,within⟩ := mem_preorderAll.1 lower
    have := sizeOf_lt_of_mem child
    exact plain_of_fits (Place.isPlain_below place allowed c.field) (below c child) u within
termination_by sizeOf t

variable {t : Tree}

theorem Plain.wellDecorated (plain : t.Plain) : t.WellDecorated := by
  intro u inside decorated
  rw [(plain u inside).2] at decorated
  cases decorated

theorem wellDecorated_iff : t.WellDecorated ↔
    (t.is .decoratedDefinition → t.Decorates) ∧ ∀ c ∈ t.children, c.WellDecorated := by
  unfold WellDecorated
  rw [preorder_eq,List.forall_mem_cons]
  refine and_congr_right fun _ => ⟨?_,?_⟩
  · intro all c child u inside
    exact all u (mem_preorderAll.2 ⟨c,child,inside⟩)
  · intro all u inside
    obtain ⟨c,child,within⟩ := mem_preorderAll.1 inside
    exact all c child u within

/-- Below a construct that is no part of a statement nothing is defined. -/
theorem plain_of_ordinary {k : Kind} (symbol : t.symbol = .named k) (ordinary : k.isStructure = false)
    (suits : t.Suits Place.belowCompound) : t.Plain := by
  obtain ⟨pattern,token⟩ := Place.belowCompound_ne t.field
  obtain ⟨allowed,below⟩ := Tree.fits_iff.1 suits
  rw [symbol] at allowed below
  refine plain_of_fits (p := .operand) rfl (Grammar.operand_of_parts symbol ordinary fun c child => ?_)
  have placed := below c child
  rwa [Place.below,Place.below_ordinary ordinary pattern token allowed] at placed

/-- A statement that holds no other statements defines nothing. -/
theorem Simple.plain (simple : t.Simple) (placed : t.fits .statement) : t.Plain := by
  obtain ⟨k,symbol,plain⟩ := simple
  obtain ⟨-,below⟩ := Tree.fits_iff.1 placed
  rw [symbol] at below
  intro u inside
  rw [preorder_eq] at inside
  rcases List.mem_cons.1 inside with rfl | lower
  · cases k <;> first | cases plain; done | simp [isDefinition,is,symbol]
  · obtain ⟨c,child,within⟩ := mem_preorderAll.1 lower
    have place : (Place.below .statement (.named k) c.field).isPlain := by
      cases k <;> first | exact Place.isPlain_belowOperand c.field | rfl | cases plain
    exact plain_of_fits place (below c child) u within

@[simp] theorem wellDecorated_withField {f : Field} :
    (t.withField f).WellDecorated ↔ t.WellDecorated := by
  rw [wellDecorated_iff,wellDecorated_iff]
  rfl

@[simp] theorem Suits.wellDecorated (item : t.Item) : t.WellDecorated :=
  (plain_of_fits rfl item.operand).wellDecorated

@[simp] theorem wellDecorated_of_parameters (placed : t.fits .parameters) : t.WellDecorated :=
  (plain_of_fits rfl placed).wellDecorated

@[simp] theorem wellDecorated_of_arguments (placed : t.fits .arguments) : t.WellDecorated :=
  (plain_of_fits rfl placed).wellDecorated

@[simp] theorem wellDecorated_of_pattern (placed : t.fits .pattern) : t.WellDecorated :=
  (plain_of_fits rfl placed).wellDecorated

theorem Spare.plain (spare : t.Spare) : t.Plain := by
  have suits : t.Suits Place.belowOperand := spare.suits ⟨rfl,rfl⟩
  exact plain_of_fits (p := .operand) rfl suits.operand

end Tree

def AllDecorated (ts : List Tree) : Prop := ∀ t ∈ ts, t.WellDecorated

section Lists

variable {t : Tree} {ts us : List Tree}

@[simp] theorem allDecorated_nil : AllDecorated [] := nofun

@[simp] theorem allDecorated_cons :
    AllDecorated (t :: ts) ↔ t.WellDecorated ∧ AllDecorated ts := by
  simp [AllDecorated]

@[simp] theorem allDecorated_append :
    AllDecorated (ts ++ us) ↔ AllDecorated ts ∧ AllDecorated us := by
  simp [AllDecorated,or_imp,forall_and]

@[simp] theorem Spares.allDecorated (spares : Spares ts) : AllDecorated ts :=
  fun t member => (spares t member).plain.wellDecorated

@[simp] theorem allDecorated_of_items (items : Items ts) : AllDecorated ts :=
  fun t member => (items t member).wellDecorated

@[simp] theorem allDecorated_of_patterns (patterns : Patterns ts) : AllDecorated ts :=
  fun t member => Tree.wellDecorated_of_pattern (patterns t member)

@[simp] theorem AllDecorated.lastAs {role : Field} (all : AllDecorated ts) :
    AllDecorated (Grammar.lastAs role ts) := by
  unfold Grammar.lastAs
  split
  · next t last =>
    have dropped : AllDecorated ts.dropLast := fun u member => all u (List.mem_of_mem_dropLast member)
    simp [dropped,all t (List.mem_of_getLast? last)]
  · simp

end Lists

namespace Parser

variable {α : Type} {p : Parser α} {post other : α → Prop}

/-- What is given from any state can be used together with what is yielded from a tidy one. -/
theorem Gives.and (gives : Gives p post) (yields : Yields p other) :
    Yields p fun a => post a ∧ other a :=
  yields_iff.2 fun s tidy a t ran =>
    have ⟨holds,tidied⟩ := yields_iff.1 yields s tidy a t ran
    ⟨⟨gives s a t ran,holds⟩,tidied⟩

theorem yields_and (first : Yields p post) (second : Yields p other) :
    Yields p fun a => post a ∧ other a :=
  yields_iff.2 fun s tidy a t ran =>
    have ⟨holds,tidied⟩ := yields_iff.1 second s tidy a t ran
    ⟨⟨(yields_iff.1 first s tidy a t ran).1,holds⟩,tidied⟩

end Parser

namespace Grammar
open Excerpt.Syntax.Parser

/-- A grammar that keeps to the form of decorated definitions. -/
class Decorous (g : Grammar) : Prop where
  suites : ∀ after, Yields (g.parse (.suite after)) AllDecorated

@[simp] theorem wellDecorated_node {k : Kind} {start : Cursor} {ts : List Tree}
    (other : (k == .decoratedDefinition) = false) :
    (node k start ts).WellDecorated ↔ AllDecorated ts := by
  rw [Tree.wellDecorated_iff]
  refine and_iff_right fun decorated => ?_
  rw [Tree.is,show (node k start ts).symbol = .named k from rfl] at decorated
  simp_all

attribute [local simp] Goal.Single

theorem gives_withClause {g : Grammar} : Gives (withClause g) fun t => t.symbol = .named .withClause := by
  refine gives_bind fun start => gives_bind fun all => ?_
  split
  · split
    · exact gives_pure rfl
    · exact gives_pure rfl
  · exact gives_pure rfl

theorem gives_decoratorNode {g : Grammar} :
    Gives (decorator g) fun t => t.field = none ∧ t.symbol = .named .decorator :=
  gives_bind fun _ => gives_bind fun _ => gives_bind fun _ => gives_bind fun _ =>
    gives_bind fun _ => gives_bind fun _ => gives_bind fun _ => gives_pure ⟨rfl,rfl⟩

theorem decorated_withClause {g : Grammar} [g.Sound] : Yields (withClause g) Tree.WellDecorated :=
  keeps_mono (gives_withClause.and yields_withClause) fun _ both =>
    (Tree.plain_of_ordinary both.1 rfl both.2).wellDecorated

theorem yields_frontDecorator {g : Grammar} [g.Sound] :
    Yields (decorator g) fun t => t.field = none ∧ t.Plain :=
  keeps_mono (gives_decoratorNode.and yields_decorator) fun _ both =>
    ⟨both.1.1,Tree.plain_of_ordinary both.1.2 rfl both.2⟩

theorem yields_plainStatement {g : Grammar} [g.Sound] : Yields (simpleStatement g) Tree.Plain :=
  keeps_mono (gives_simpleStatement.and yields_simpleStatement) fun _ both => both.1.plain both.2

theorem decorated_lineOfStatements {g : Grammar} [g.Sound] (after : Expect) :
    Yields (lineOfStatements g after) AllDecorated := by
  have simple := keeps_mono (yields_plainStatement (g := g)) fun _ plain => plain.wellDecorated
  have rounds {step} {n} {ts} := @yields_loop (List Tree) step n ts AllDecorated
  mvcgen [lineOfStatements,also,rounds,simple,-yields_lineOfStatements,-yields_simpleStatement]
  all_goals
    clear rounds simple
    simp_all +decide

section Productions

variable {g : Grammar} [g.Decorous] {after : Expect} {start : Cursor} {ts : List Tree}

theorem decorated_body {role : Field} (first : AllDecorated ts) :
    Yields (body g role after ts) AllDecorated := by
  have suites {after} := Decorous.suites (g := g) after
  mvcgen [body,also,alsoAll,suites,-yields_suite]
  all_goals
    clear suites
    simp_all

theorem decorated_plainBody (first : AllDecorated ts) : Yields (plainBody g after ts) AllDecorated := by
  have suites {after} := Decorous.suites (g := g) after
  mvcgen [plainBody,also,alsoAll,suites,-yields_suite]
  all_goals
    clear suites
    simp_all

attribute [local spec] decorated_body decorated_plainBody

theorem decorated_elseClause (after : Expect) : Yields (elseClause g after) Tree.WellDecorated := by
  mvcgen [elseClause,-yields_elseClause,-yields_sectionBody] <;> simp_all +decide

attribute [local spec] decorated_elseClause

theorem decorated_finallyClause (after : Expect) :
    Yields (finallyClause g after) Tree.WellDecorated := by
  mvcgen [finallyClause,also,-yields_finallyClause] <;> simp_all +decide

theorem decorated_otherwise (first : AllDecorated ts) :
    Yields (otherwise g after ts) AllDecorated := by
  mvcgen [otherwise,also,-yields_otherwise,-yields_elseClause] <;> simp_all

variable [g.Sound]

theorem decorated_conditional {spelling : String} {role : Field} :
    Yields (conditional g spelling role after) AllDecorated := by
  mvcgen [conditional,also,-yields_sectionBody] <;> simp_all

attribute [local spec] decorated_otherwise decorated_conditional

theorem decorated_ifStatement : Yields (ifStatement g after) Tree.WellDecorated := by
  have rounds {step} {n} {ts} := @yields_loop (List Tree) step n ts AllDecorated
  mvcgen [ifStatement,also,rounds,-yields_ifStatement,-yields_otherwise]
  all_goals
    clear rounds
    simp_all +decide +zetaDelta

theorem decorated_whileStatement : Yields (whileStatement g after) Tree.WellDecorated := by
  mvcgen [whileStatement,-yields_whileStatement,-yields_otherwise] <;> simp_all +decide

theorem decorated_forStatement (first : AllDecorated ts) :
    Yields (forStatement g after start ts) Tree.WellDecorated := by
  mvcgen [forStatement,also,-yields_forStatement,-yields_otherwise,-yields_sectionBody]
  all_goals simp_all +decide

attribute [local spec] decorated_withClause

theorem decorated_withStatement (first : AllDecorated ts) :
    Yields (withStatement g after start ts) Tree.WellDecorated := by
  mvcgen [withStatement,also,-yields_withStatement,-yields_withClause,-yields_sectionBody]
  all_goals simp_all +decide

theorem decorated_exceptClause (after : Expect) : Yields (exceptClause g after) Tree.WellDecorated := by
  mvcgen [exceptClause,also,-yields_exceptClause] <;> simp_all +decide

theorem decorated_exceptGroupClause (after : Expect) :
    Yields (exceptGroupClause g after) Tree.WellDecorated := by
  mvcgen [exceptGroupClause,also,-yields_exceptGroupClause] <;> simp_all +decide

attribute [local spec] decorated_exceptClause decorated_exceptGroupClause decorated_finallyClause

theorem decorated_tryStatement : Yields (tryStatement g after) Tree.WellDecorated := by
  have rounds {step} {n} {ts} := @yields_loop (List Tree) step n ts AllDecorated
  mvcgen [tryStatement,also,rounds,-yields_tryStatement,-yields_exceptClause,-yields_exceptGroupClause,
    -yields_finallyClause,-yields_elseClause,-yields_sectionBody]
  all_goals
    clear rounds
    simp_all +decide

theorem decorated_functionDefinition (first : AllDecorated ts) :
    Yields (functionDefinition g after start ts) Tree.WellDecorated := by
  mvcgen [functionDefinition,also,-yields_functionDefinition,-yields_sectionBody]
  all_goals simp_all +decide

theorem decorated_classDefinition : Yields (classDefinition g after) Tree.WellDecorated := by
  mvcgen [classDefinition,also,yields_bases,-yields_arguments,-yields_classDefinition,
    -yields_sectionBody]
  all_goals simp_all +decide

attribute [local spec] decorated_functionDefinition decorated_classDefinition decorated_forStatement
  decorated_withStatement

theorem decorated_asynchronous : Yields (asynchronous g after) Tree.WellDecorated := by
  mvcgen [asynchronous,-yields_asynchronous,-yields_functionDefinition,-yields_forStatement,
    -yields_withStatement]
  all_goals simp_all +decide

theorem isDefinition_of_fits {t : Tree} (placed : t.fits .definition) : t.isDefinition := by
  have allowed := (Tree.fits_iff.1 placed).1
  cases symbol : t.symbol with
  | token spelling => rw [symbol] at allowed; cases allowed
  | named k =>
    rw [symbol] at allowed
    simpa [Tree.isDefinition,Tree.is,symbol,Place.allows,Place.allowsKind] using allowed

/-- What may stand in front of a definition that is decorated. -/
def Fronts (ts : List Tree) : Prop := ∀ t ∈ ts, t.field = none ∧ t.Plain

@[simp] theorem fronts_nil : Fronts [] := nofun

@[simp] theorem fronts_cons {t : Tree} :
    Fronts (t :: ts) ↔ (t.field = none ∧ t.Plain) ∧ Fronts ts := by
  simp [Fronts]

@[simp] theorem fronts_append {us : List Tree} : Fronts (ts ++ us) ↔ Fronts ts ∧ Fronts us := by
  simp only [Fronts,List.forall_mem_append]

@[simp] theorem fronts_of_spares (spares : Spares ts) : Fronts ts :=
  fun t member => ⟨(spares t member).2.1,(spares t member).plain⟩

theorem wellDecorated_of_fronts {d : Tree} (fronts : Fronts ts) (defined : d.isDefinition)
    (inside : d.WellDecorated) :
    (node .decoratedDefinition start (ts ++ [d.withField .definition])).WellDecorated := by
  refine Tree.wellDecorated_iff.2 ⟨fun _ => ⟨ts,_,rfl,rfl,defined,fronts⟩,fun c child => ?_⟩
  rcases List.mem_append.1 child with front | last
  · exact (fronts c front).2.wellDecorated
  · cases List.mem_singleton.1 last
    exact Tree.wellDecorated_withField.2 inside

theorem decorated_decorated : Yields (decorated g after) Tree.WellDecorated := by
  have decorators := yields_frontDecorator (g := g)
  have classes : Yields (classDefinition g after) fun t => t.isDefinition ∧ t.WellDecorated :=
    keeps_mono (yields_and (yields_classDefinition after) decorated_classDefinition) fun _ both =>
      ⟨isDefinition_of_fits both.1.2,both.2⟩
  have functions {start ts} (parts : Sections ts) (first : AllDecorated ts) :
      Yields (functionDefinition g after start ts) fun t => t.isDefinition ∧ t.WellDecorated :=
    keeps_mono (yields_and (yields_functionDefinition parts) (decorated_functionDefinition first))
      fun _ both => ⟨isDefinition_of_fits both.1.2,both.2⟩
  have rounds {step} {n} {ts} := @yields_loop (List Tree) step n ts Fronts
  mvcgen [decorated,also,rounds,decorators,classes,functions,-yields_decorated,-yields_decorator,
    -yields_classDefinition,-yields_functionDefinition,-decorated_functionDefinition,
    -decorated_classDefinition]
  all_goals
    clear rounds decorators classes functions
    simp_all +decide [wellDecorated_of_fronts,-List.append_assoc]

theorem decorated_caseClause : Yields (caseClause g) Tree.WellDecorated := by
  mvcgen [caseClause,also,yields_commasPatterns,-yields_caseClause,-yields_sectionBody]
  all_goals simp_all +decide

attribute [local spec] decorated_caseClause

theorem decorated_matchBody (after : Expect) : Yields (matchBody g after) Tree.WellDecorated := by
  have rounds {step} {n} {ts} := @yields_loop (List Tree) step n ts AllDecorated
  mvcgen [matchBody,also,rounds,-yields_matchBody,-yields_caseClause]
  all_goals
    clear rounds
    simp_all +decide

attribute [local spec] decorated_matchBody

theorem decorated_matchStatement : Yields (matchStatement g after) Tree.WellDecorated := by
  mvcgen [matchStatement,also,yields_commasItems,-yields_matchStatement,-yields_matchBody]
  all_goals simp_all +decide

attribute [local spec] decorated_matchStatement decorated_lineOfStatements

theorem decorated_matching (after : Expect) : Yields (matching g after) AllDecorated := by
  mvcgen [matching,-yields_matching,-yields_matchStatement,-yields_lineOfStatements]
  all_goals simp_all +decide

attribute [local spec] decorated_ifStatement decorated_whileStatement decorated_tryStatement
  decorated_asynchronous decorated_decorated decorated_matching

theorem decorated_statement (after : Expect) : Yields (statement g after) AllDecorated := by
  mvcgen [statement,-yields_statement,-yields_ifStatement,-yields_whileStatement,-yields_tryStatement,
    -yields_forStatement,-yields_withStatement,-yields_functionDefinition,-yields_classDefinition,
    -yields_asynchronous,-yields_decorated,-yields_lineOfStatements,-yields_matching]
  all_goals simp_all +decide

attribute [local spec] decorated_statement

theorem decorated_suite (after : Expect) : Yields (suite g after) AllDecorated := by
  have rounds {step} {n} {ts} := @yields_loop (List Tree) step n ts AllDecorated
  mvcgen [suite,alsoAll,rounds,-yields_statement,-yields_lineOfStatements]
  all_goals
    clear rounds
    simp_all +decide

theorem decorated_statements {start : Cursor} :
    Yields (statements g start) Tree.WellDecorated := by
  have rounds {step} {n} {ts} := @yields_loop (List Tree) step n ts AllDecorated
  mvcgen [statements,alsoAll,rounds,-yields_statement]
  all_goals
    clear rounds
    simp_all +decide

end Productions

/-- Bodies are reached by the production for bodies over the grammar with one step less. -/
theorem decorous_reach (steps : Nat) : ∀ n, Decorous ⟨steps,reach n⟩
  | 0 => ⟨fun _ => keeps_failure⟩
  | n + 1 =>
    have := sound_reach n n
    have := decorous_reach n n
    ⟨fun after => decorated_suite (g := ⟨n,reach n⟩) after⟩

end Grammar

open Excerpt.Syntax.Parser Excerpt.Syntax.Grammar

theorem wellDecorated_of_readTree {text : String} {root : Tree} (read : readTree text = some root) :
    root.WellDecorated := by
  obtain ⟨⟨tree,rest⟩,parsed,rfl⟩ := Option.map_eq_some_iff.1 read
  have := sound_reach (16 * (Cursor.ofString text).rest.length + 64)
    (16 * (Cursor.ofString text).rest.length + 64)
  have := decorous_reach (16 * (Cursor.ofString text).rest.length + 64)
    (16 * (Cursor.ofString text).rest.length + 64)
  exact (yields_iff.1 decorated_statements _ (fetch_tidy spares_nil) _ _ parsed).1

end Excerpt.Syntax
