import Excerpt.Proofs.StatementGrammar

/-!
The productions for statements with bodies, and the trees of whole texts: below the root stand
statements, and everything below them stands in its place.
-/
namespace Excerpt.Syntax.Grammar
open Std.Do Excerpt.Text Excerpt.Syntax.Parser

set_option mvcgen.warning false

attribute [local simp] Goal.Single

/-- The parts of a compound statement. -/
abbrev Sections (ts : List Tree) : Prop := AllSuit Place.belowCompound ts

section Places

variable {p : Place} {t : Tree} {ts : List Tree} {k : Kind} {start : Cursor} {role : Field}
  {place : Option Field → Place}

@[simp] theorem belowCompound_alternative :
    Place.belowCompound (some .alternative) = .clause := rfl

@[simp] theorem belowCompound_definition :
    Place.belowCompound (some .definition) = .definition := rfl

@[simp] theorem belowCompound_superclasses :
    Place.belowCompound (some .superclasses) = .arguments := rfl

@[simp] theorem belowCompound_parameters :
    Place.belowCompound (some .parameters) = .parameters := rfl

@[simp] theorem belowMatch_body : Place.belowMatch (some .body) = .cases := rfl

@[simp] theorem belowCase_guard : Place.belowCase (some .guard) = .condition := rfl

theorem fits_node : (node k start ts).fits p ↔ p.allowsKind k ∧ AllSuit (p.belowKind k) ts :=
  Tree.fits_iff

@[simp] theorem fits_compound_node (compound : k.isCompound)
    (other : (k == .matchStatement) = false) (allowed : p.allowsKind k) :
    (node k start ts).fits p ↔ Sections ts := by
  rw [fits_node,Place.below_compound compound other allowed]
  exact and_iff_right allowed

@[simp] theorem fits_clause_node (clause : k.isClause) (other : k.isHandler = false)
    (allowed : p.allowsKind k) : (node k start ts).fits p ↔ AllSuit Place.belowClause ts := by
  rw [fits_node,Place.below_clause clause other allowed]
  exact and_iff_right allowed

@[simp] theorem fits_handler_node (handler : k.isHandler) (allowed : p.allowsKind k) :
    (node k start ts).fits p ↔ AllSuit (fun _ => .interior) ts := by
  rw [fits_node,show p.belowKind k = fun _ => .interior from
    funext (Place.below_handler handler allowed)]
  exact and_iff_right allowed

@[simp] theorem fits_match_node :
    (node .matchStatement start ts).fits .statement ↔ AllSuit Place.belowMatch ts :=
  fits_node.trans (and_iff_right rfl)

@[simp] theorem fits_cases_node :
    (node .block start ts).fits .cases ↔ AllSuit (fun _ => .caseItem) ts :=
  fits_node.trans (and_iff_right rfl)

@[simp] theorem fits_case_node :
    (node .caseClause start ts).fits .caseItem ↔ AllSuit Place.belowCase ts :=
  fits_node.trans (and_iff_right rfl)

@[simp] theorem fits_condition_node : (node .ifClause start ts).fits .condition ↔ Items ts :=
  fits_node.trans (and_iff_right rfl)

@[simp] theorem fits_block_node : (node .block start ts).fits .block ↔ Statements ts :=
  fits_node.trans (and_iff_right rfl)

/-- A block may stand anywhere in a handler. -/
@[simp] theorem interior_of_block (placed : t.fits .block) : t.fits .interior := by
  obtain ⟨allowed,below⟩ := Tree.fits_iff.1 placed
  cases symbol : t.symbol with
  | token spelling => rw [symbol] at allowed; cases allowed
  | named own =>
    rw [symbol] at allowed below
    obtain rfl : own = .block := beq_iff_eq.1 allowed
    exact Tree.fits_iff.2 ⟨symbol ▸ rfl,symbol ▸ below⟩

/-- What can be evaluated may stand below compound statements and handlers, too. -/
theorem fits_of_operand (placed : t.fits .operand) (pattern : p ≠ .pattern) (token : p ≠ .token)
    (marks : p.allowsTokens) (wide : ∀ k, k.isStructure = false → p.allowsKind k) : t.fits p := by
  obtain ⟨allowed,below⟩ := Tree.fits_iff.1 placed
  cases symbol : t.symbol with
  | token spelling =>
    rw [symbol] at below
    exact Tree.fits_iff.2 ⟨symbol ▸ marks,symbol ▸ below⟩
  | named own =>
    rw [symbol] at allowed below
    have plain : own.isStructure = false := by
      simpa [Place.allows,Place.allowsKind] using allowed
    have same : p.belowKind own = Place.belowKind .operand own := by
      rw [Place.below_ordinary plain pattern token (wide own plain),
        Place.below_ordinary (p := .operand) plain (by decide) (by decide) allowed]
    refine Tree.fits_iff.2 ⟨symbol ▸ wide own plain,?_⟩
    rw [symbol]
    intro c member
    simpa only [Place.below,same] using below c member

@[simp] theorem suits_section_node (plain : k.isStructure = false) :
    (node k start ts).Suits Place.belowCompound ↔ Items ts := by
  have allowed : Place.allowsKind .part k := by simp [Place.allowsKind,plain]
  refine (fits_node (p := .part)).trans ?_
  rw [Place.below_ordinary (p := .part) plain (by decide) (by decide) allowed]
  exact and_iff_right allowed

@[simp] theorem suits_section_clause (clause : k.isClause) (other : k.isHandler = false) :
    (node k start ts).Suits Place.belowCompound ↔ AllSuit Place.belowClause ts :=
  fits_clause_node (p := .part) clause other (by simp [Place.allowsKind,clause])

/-- Handlers and final clauses stand below a statement in no role. -/
@[simp] theorem suits_section_handler (handler : k.isHandler) :
    (node k start ts).Suits Place.belowCompound ↔ AllSuit (fun _ => .interior) ts :=
  fits_handler_node (p := .part) handler (by cases k <;> cases handler <;> rfl)

@[simp] theorem interior_of_item (item : t.Item) : t.fits .interior :=
  fits_of_operand item.operand nofun nofun rfl fun k plain => by simp [Place.allowsKind,plain]

@[simp] theorem suits_interior (item : t.Item) : t.Suits fun _ => .interior :=
  interior_of_item item

@[simp] theorem isSuite_append {us : List Tree} (leading : Spares ts) (inside : Statements us) :
    IsSuite (ts ++ [node .block start us]) :=
  ⟨ts,node .block start us,rfl,leading,rfl,fits_block_node.2 inside⟩

@[simp] theorem isSuite_block (inside : Statements ts) : IsSuite [node .block start ts] :=
  isSuite_append spares_nil inside

theorem IsSuite.lastAs (suite : IsSuite ts)
    (room : (place none).allowsKind .comment ∧ (place none).allowsKind .lineContinuation)
    (block : place (some role) = .block) : AllSuit place (lastAs role ts) := by
  obtain ⟨leading,body,rfl,spares,-,placed⟩ := suite
  simp [Grammar.lastAs,spares,room,block,placed]

theorem IsSuite.interior (suite : IsSuite ts) : AllSuit (fun _ => .interior) ts := by
  obtain ⟨leading,body,rfl,spares,-,placed⟩ := suite
  have inside : body.Suits fun _ => .interior := interior_of_block placed
  have before : AllSuit (fun _ => .interior) leading := spares.allSuit ⟨rfl,rfl⟩
  simp [before,inside]

end Places

section Bodies

variable {g : Grammar} [g.Sound] {ts : List Tree} {after : Expect} {role : Field}
  {start : Cursor}

section Header

-- The same header stands below statements, clauses and cases, so its place is a parameter.
variable {place : Option Field → Place} (marks : (place none).allowsTokens)
  (room : (place none).allowsKind .comment ∧ (place none).allowsKind .lineContinuation)
  (block : place (some role) = .block)
include marks room block

theorem yields_body (start : AllSuit place ts) : Yields (body g role after ts) (AllSuit place) := by
  mvcgen [body,also,alsoAll] <;> simp_all [IsSuite.lastAs]

theorem yields_conditional {spelling : String} (condition : place (some .condition) = .operand) :
    Yields (conditional g spelling role after) (AllSuit place) := by
  have bodies {ts} (start : AllSuit place ts) : Yields (body g role after ts) (AllSuit place) :=
    yields_body marks room block start
  mvcgen [conditional,also,bodies]
  all_goals
    clear bodies
    simp_all

end Header

theorem yields_plainBody (start : AllSuit (fun _ => .interior) ts) :
    Yields (plainBody g after ts) (AllSuit fun _ => .interior) := by
  mvcgen [plainBody,also,alsoAll] <;> simp_all +decide [IsSuite.interior]

@[spec] theorem yields_elseClause (after : Expect) :
    Yields (elseClause g after) fun t => t.fits .clause ∧ t.Suits Place.belowCompound := by
  have bodies {ts} (start : AllSuit Place.belowClause ts) :
      Yields (body g .body after ts) (AllSuit Place.belowClause) :=
    yields_body rfl ⟨rfl,rfl⟩ rfl start
  mvcgen [elseClause,bodies]
  all_goals
    clear bodies
    simp_all +decide

@[spec] theorem yields_otherwise (parts : Sections ts) : Yields (otherwise g after ts) Sections := by
  mvcgen [otherwise,also] <;> simp_all +decide

@[spec] theorem yields_sectionBody (parts : Sections ts) :
    Yields (body g .body after ts) Sections :=
  yields_body rfl ⟨rfl,rfl⟩ rfl parts

@[spec] theorem yields_ifStatement (after : Expect) :
    Yields (ifStatement g after) fun t => t.fits .statement := by
  have first : Yields (conditional g "if" .consequence after) Sections :=
    yields_conditional rfl ⟨rfl,rfl⟩ rfl rfl
  have other : Yields (conditional g "elif" .consequence after) (AllSuit Place.belowClause) :=
    yields_conditional rfl ⟨rfl,rfl⟩ rfl rfl
  have rounds {step} {n} {ts} := @yields_loop (List Tree) step n ts Sections
  mvcgen [ifStatement,also,first,other,rounds]
  all_goals
    clear first other rounds
    simp_all +decide +zetaDelta

@[spec] theorem yields_whileStatement (after : Expect) :
    Yields (whileStatement g after) fun t => t.fits .statement := by
  have first : Yields (conditional g "while" .body after) Sections :=
    yields_conditional rfl ⟨rfl,rfl⟩ rfl rfl
  mvcgen [whileStatement,first]
  all_goals
    clear first
    simp_all +decide

@[spec] theorem yields_forStatement (parts : Sections ts) :
    Yields (forStatement g after start ts) fun t => t.fits .statement := by
  mvcgen [forStatement,also] <;> simp_all +decide

/-- The elements of a tuple, each as an item of a with statement. -/
theorem items_of_asItems {t : Tree} (symbol : t.symbol = .named .tuple) (placed : t.fits .operand)
    (found : asItems t = some ts) : Items ts := by
  have parts := parts_of_operand symbol placed
  simp only [asItems] at found
  split at found
  · cases found
    intro u member
    obtain ⟨c,inside,rfl⟩ := List.mem_map.1 member
    split
    · have value : (c.withField .value).Item := by simp +decide [parts c inside]
      refine item_of_operand (operand_of_parts (k := .withItem) rfl rfl ?_) nofun
      exact allSuit_cons.2 ⟨value,allSuit_nil⟩
    · exact parts c inside
  · cases found

theorem symbol_of_asItems {t : Tree} (found : asItems t = some ts) : t.symbol = .named .tuple := by
  simp only [asItems] at found
  split at found
  · next conditions =>
    simp only [Bool.and_eq_true,Tree.is,beq_iff_eq] at conditions
    exact conditions.1.1
  · cases found

/-- A tuple cannot stand below a token, so the only child of an item is an operand if it is one. -/
theorem items_getD_asItems {t value : Tree} (items : Items [t]) (only : t.children = [value]) :
    Items ((asItems value).getD [t]) := by
  cases found : asItems value with
  | none => exact items
  | some us =>
    have tuple := symbol_of_asItems found
    refine items_of_asItems tuple ?_ found
    have placed := (allSuit_cons.1 items).1.operand
    have below := (Tree.fits_iff.1 placed).2 value (by simp [only])
    cases symbol : t.symbol with
    | token spelling =>
      rw [symbol] at below
      have allowed := (Tree.fits_iff.1 below).1
      rw [tuple] at allowed
      cases allowed
    | named k =>
      exact (parts_of_operand symbol placed value (by simp [only])).operand

attribute [local spec] yields_commasItems in
@[spec] theorem yields_withClause :
    Yields (withClause g) fun t => t.Suits Place.belowCompound := by
  mvcgen [withClause]
  all_goals simp_all +decide
  exact items_getD_asItems (by simp_all) (by assumption)

@[spec] theorem yields_withStatement (parts : Sections ts) :
    Yields (withStatement g after start ts) fun t => t.fits .statement := by
  mvcgen [withStatement,also] <;> simp_all +decide

attribute [local spec] yields_plainBody

@[spec] theorem yields_exceptClause (after : Expect) :
    Yields (exceptClause g after) fun t => t.Suits Place.belowCompound := by
  mvcgen [exceptClause,also] <;> simp_all +decide

@[spec] theorem yields_exceptGroupClause (after : Expect) :
    Yields (exceptGroupClause g after) fun t => t.Suits Place.belowCompound := by
  mvcgen [exceptGroupClause,also] <;> simp_all +decide

@[spec] theorem yields_finallyClause (after : Expect) :
    Yields (finallyClause g after) fun t => t.Suits Place.belowCompound := by
  mvcgen [finallyClause,also] <;> simp_all +decide

@[spec] theorem yields_tryStatement (after : Expect) :
    Yields (tryStatement g after) fun t => t.fits .statement := by
  have rounds {step} {n} {ts} := @yields_loop (List Tree) step n ts Sections
  mvcgen [tryStatement,also,rounds]
  all_goals
    clear rounds
    simp_all +decide

@[spec] theorem yields_startsGenericLine : Yields startsGenericLine fun _ => True := by
  mvcgen [startsGenericLine]
  simp_all

/-- A definition stands as a statement or below a decorator. -/
@[spec] theorem yields_functionDefinition (parts : Sections ts) :
    Yields (functionDefinition g after start ts) fun t =>
      t.fits .statement ∧ t.fits .definition := by
  mvcgen [functionDefinition,also] <;> simp_all +decide

@[spec] theorem yields_classDefinition (after : Expect) :
    Yields (classDefinition g after) fun t => t.fits .statement ∧ t.fits .definition := by
  mvcgen [classDefinition,also,yields_bases,-yields_arguments] <;> simp_all +decide

@[spec] theorem yields_asynchronous (after : Expect) :
    Yields (asynchronous g after) fun t => t.fits .statement := by
  mvcgen [asynchronous] <;> simp_all +decide

@[spec] theorem yields_decorator : Yields (decorator g) fun t => t.Suits Place.belowCompound := by
  mvcgen [decorator,also] <;> simp_all +decide

@[spec] theorem yields_decorated (after : Expect) :
    Yields (decorated g after) fun t => t.fits .statement := by
  have rounds {step} {n} {ts} := @yields_loop (List Tree) step n ts Sections
  mvcgen [decorated,also,rounds]
  all_goals
    clear rounds
    simp_all +decide

@[simp] theorem suits_case {t : Tree} (role : t.field = none) (placed : t.fits .pattern) :
    t.Suits Place.belowCase := by
  rw [Tree.Suits,role]
  exact placed

@[spec] theorem yields_caseClause : Yields (caseClause g) fun t => t.fits .caseItem := by
  have patterns {n e more element ts} :=
    @yields_commas n e more element ts Place.belowCase rfl ⟨rfl,rfl⟩
  have bodies {ts} (start : AllSuit Place.belowCase ts) :
      Yields (body g .consequence {dedent := true} ts) (AllSuit Place.belowCase) :=
    yields_body rfl ⟨rfl,rfl⟩ rfl start
  mvcgen [caseClause,also,patterns,bodies]
  all_goals
    clear patterns bodies
    simp_all +decide

@[spec] theorem yields_matchBody (after : Expect) :
    Yields (matchBody g after) fun t => t.fits .cases := by
  have rounds {step} {n} {ts} :=
    @yields_loop (List Tree) step n ts (AllSuit fun _ => .caseItem)
  mvcgen [matchBody,also,rounds]
  all_goals
    clear rounds
    simp_all +decide

@[spec] theorem yields_matchStatement (after : Expect) :
    Yields (matchStatement g after) fun t => t.fits .statement := by
  have subjects {n e more element ts} :=
    @yields_commas n e more element ts Place.belowMatch rfl ⟨rfl,rfl⟩
  mvcgen [matchStatement,also,subjects]
  all_goals
    clear subjects
    simp_all +decide

@[spec] theorem yields_lineOfStatements (after : Expect) :
    Yields (lineOfStatements g after) Statements := by
  have rounds {step} {n} {ts} := @yields_loop (List Tree) step n ts Statements
  mvcgen [lineOfStatements,also,rounds]
  all_goals
    clear rounds
    simp_all +decide

@[spec] theorem yields_matching (after : Expect) : Yields (matching g after) Statements := by
  mvcgen [matching] <;> simp_all +decide

@[spec] theorem yields_statement (after : Expect) : Yields (statement g after) Statements := by
  mvcgen [statement] <;> simp_all +decide

/-- Comments in front of an indented block stay outside it. -/
theorem yields_ownSuite (after : Expect) : Yields (suite g after) IsSuite := by
  have rounds {step} {n} {ts} := @yields_loop (List Tree) step n ts Statements
  mvcgen [suite,alsoAll,rounds]
  all_goals
    clear rounds
    simp_all +decide

/-- Productions over a sound grammar reach their goals. -/
theorem yields_produce (goal : Goal) : Yields (produce g goal) goal.Reached := by
  cases goal with
  | suite after => exact yields_ownSuite after
  | _ =>
    mvcgen [produce]
    simp_all [Goal.Reached]

end Bodies

/-- Every number of steps makes a sound grammar: a goal is reached by a production over the grammar
with one step less. -/
theorem sound_reach (steps : Nat) : ∀ n, Sound ⟨steps,reach n⟩
  | 0 => ⟨fun _ => keeps_failure⟩
  | n + 1 =>
    have := sound_reach n n
    ⟨fun goal => yields_produce (g := ⟨n,reach n⟩) goal⟩

end Excerpt.Syntax.Grammar

namespace Excerpt.Syntax
open Std.Do Excerpt.Text Excerpt.Syntax.Parser Excerpt.Syntax.Grammar

set_option mvcgen.warning false

theorem yields_statements {g : Grammar} [g.Sound] (start : Cursor) : Yields (statements g start)
    fun t => t.symbol = .named .program ∧ Statements t.children := by
  have rounds {step} {n} {ts} := @yields_loop (List Tree) step n ts Statements
  have root {ts : List Tree} : (node .program start ts).symbol = .named .program ∧
      (node .program start ts).children = ts := ⟨rfl,rfl⟩
  mvcgen [statements,alsoAll,rounds]
  all_goals
    clear rounds
    simp_all +decide

/-- In the tree of a text everything stands in its place: statements below the root, and below them
definitions, imports and declarations nowhere but where statements may stand. -/
theorem placed_of_readTree {text : String} {root : Tree} (read : readTree text = some root) :
    root.symbol = .named .program ∧ ∀ t ∈ root.children, t.fits .statement := by
  obtain ⟨⟨tree,rest⟩,parsed,rfl⟩ := Option.map_eq_some_iff.1 read
  have := sound_reach (16 * (Cursor.ofString text).rest.length + 64)
    (16 * (Cursor.ofString text).rest.length + 64)
  exact (yields_iff.1 (yields_statements _) _ (fetch_tidy spares_nil) _ _ parsed).1

end Excerpt.Syntax
