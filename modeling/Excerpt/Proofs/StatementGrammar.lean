import Excerpt.Proofs.CaseGrammar

/-!
The productions for statements, and with them every text that has a tree: below the root stand
statements, and everything below them stands in its place.
-/
namespace Excerpt.Syntax.Grammar
open Std.Do Excerpt.Text Excerpt.Syntax.Parser

set_option mvcgen.warning false

attribute [local simp] Goal.Single

/-- What may stand in a block. -/
abbrev Statements (ts : List Tree) : Prop := AllSuit (fun _ => .statement) ts

section Places

variable {t : Tree} {ts : List Tree} {k : Kind} {start : Cursor}

@[simp] theorem suits_statement : t.Suits (fun _ => .statement) ↔ t.fits .statement := Iff.rfl

@[simp] theorem fits_statement_simple (simple : k.isSimple)
    (other : (k == .typeAliasStatement) = false) :
    (node k start ts).fits .statement ↔ Items ts := by
  have allowed : Place.allowsKind .statement k := by simp [Place.allowsKind,simple]
  have below : Place.below .statement (.named k) = Place.belowOperand := by
    cases k <;> cases simple <;> cases other <;> rfl
  rw [← suits_statement,suits_node,below]
  exact and_iff_right allowed

@[simp] theorem fits_statement_alias :
    (node .typeAliasStatement start ts).fits .statement ↔ AllSuit (fun _ => .hint) ts :=
  Tree.fits_iff.trans (and_iff_right rfl)

end Places

section Words

variable {g : Grammar} {ts : List Tree}

attribute [local spec] yields_alsoItem yields_commasItems yields_loopItems

@[spec] theorem yields_importedName (f : Follow) : Yields (importedName g f) Tree.Item := by
  mvcgen [importedName] <;> simp_all +decide

@[spec] theorem yields_importedNames {f : Follow} (items : Items ts) :
    Yields (importedNames g f ts) Items := by
  mvcgen [importedNames] <;> simp_all +decide

@[spec] theorem yields_importStatement : Yields (importStatement g) fun t => t.fits .statement := by
  mvcgen [importStatement] <;> simp_all +decide

@[spec] theorem yields_importedPart {wildcard : Bool} (items : Items ts) :
    Yields (importedPart g wildcard ts) Items := by
  mvcgen [importedPart] <;> simp_all +decide

@[spec] theorem yields_relativeModule : Yields (relativeModule g) Tree.Item := by
  mvcgen [relativeModule] <;> simp_all +decide +zetaDelta

@[spec] theorem yields_importFrom : Yields (importFrom g) fun t => t.fits .statement := by
  mvcgen [importFrom] <;> simp_all +decide

@[spec] theorem yields_bare {spelling : String} {kind : Kind} (simple : kind.isSimple)
    (other : (kind == .typeAliasStatement) = false) :
    Yields (bare spelling kind) fun t => t.fits .statement := by
  mvcgen [bare] <;> simp_all

@[spec] theorem yields_declaration {spelling : String} {kind : Kind} (simple : kind.isSimple)
    (other : (kind == .typeAliasStatement) = false) :
    Yields (declaration g spelling kind) fun t => t.fits .statement := by
  mvcgen [declaration] <;> simp_all

end Words

section Simple

variable {g : Grammar} [g.Sound] {t : Tree} {ts : List Tree} {start : Cursor}

attribute [local spec] yields_alsoItem yields_commasItems yields_loopItems
  yields_loopTree yields_loopWhile

@[spec] theorem yields_assigns : Yields assigns fun _ => True := by
  mvcgen [assigns]

@[spec] theorem yields_statementEnds : Yields statementEnds fun _ => True := by
  mvcgen [statementEnds]

theorem item_of_leftSide (items : Items ts) (left : leftSide? start ts = some t) : t.Item := by
  unfold leftSide? at left
  split at left
  · obtain ⟨u,target,rfl⟩ := Option.map_eq_some_iff.1 left
    have item := item_of_toTarget (allSuit_cons.1 items).1 target
    simp +decide [item]
  · obtain ⟨us,targets,rfl⟩ := Option.map_eq_some_iff.1 left
    have parts := items_of_toTargets items targets
    have list : (node .patternList start us).Item := by simp +decide [parts]
    simp +decide [list]

@[spec] theorem yields_assignmentBehind (item : t.Item) :
    Yields (assignmentBehind g start t) Tree.Item := by
  mvcgen [assignmentBehind] <;> simp_all +decide

@[spec] theorem yields_lineExpressions : Yields (lineExpressions g) Items := by
  mvcgen [lineExpressions] <;> simp_all +decide

@[spec] theorem yields_rightSide : Yields (rightSide g) Tree.Item := by
  mvcgen [rightSide] <;> simp_all +decide
  rename_i items _ left
  exact fun _ _ => item_of_leftSide items.1 left

@[spec] theorem yields_expressionsEnd (items : Items ts) :
    Yields (expressionsEnd g start ts) fun t => t.fits .statement := by
  mvcgen [expressionsEnd] <;> simp_all +decide
  rename_i left _ _
  exact item_of_leftSide items left

@[spec] theorem yields_crossing (items : Items ts) :
    Yields (crossing g start ts) fun t => t.fits .statement := by
  mvcgen [crossing] <;> simp_all +decide

@[spec] theorem yields_expressionsBehind : ∀ {n : Nat} {ts : List Tree}, Items ts →
    Yields (expressionsBehind g start n ts) fun t => t.fits .statement
  | 0,_,_ => keeps_failure
  | n + 1,ts,items => by
    have later {us : List Tree} (more : Items us) :=
      yields_expressionsBehind (n := n) more
    mvcgen [expressionsBehind,later]
    all_goals
      clear later
      simp_all +decide

@[spec] theorem yields_expressionStatement :
    Yields (expressionStatement g) fun t => t.fits .statement := by
  mvcgen [expressionStatement] <;> simp_all +decide

@[spec] theorem yields_wholeExpression : Yields (wholeExpression g) fun t => t.fits .statement := by
  mvcgen [wholeExpression] <;> simp_all +decide

@[spec] theorem yields_printArguments (items : Items ts) : Yields (printArguments g ts) Items := by
  mvcgen [printArguments] <;> simp_all +decide

@[spec] theorem yields_printTo : Yields (printTo g) fun t => t.fits .statement := by
  mvcgen [printTo] <;> simp_all +decide

@[spec] theorem yields_printValues : Yields (printValues g) fun t => t.fits .statement := by
  mvcgen [printValues] <;> simp_all +decide

@[spec] theorem yields_printing : Yields (printing g) fun t => t.fits .statement :=
  yields_orElse yields_printTo (yields_orElse yields_wholeExpression yields_printValues)

@[spec] theorem yields_execution : Yields (execution g) fun t => t.fits .statement := by
  mvcgen [execution] <;> simp_all +decide

/-- An alias holds annotations only. -/
@[spec] theorem yields_aliasing : Yields (aliasing g) fun t => t.fits .statement := by
  refine yields_orElse ?_ yields_expressionStatement
  mvcgen [also,-yields_alsoItem] <;> simp_all +decide

@[spec] theorem yields_raising : Yields (raising g) fun t => t.fits .statement := by
  mvcgen [raising] <;> simp_all +decide

@[spec] theorem yields_returning : Yields (returning g) fun t => t.fits .statement := by
  mvcgen [returning] <;> simp_all +decide

@[spec] theorem yields_deletion : Yields (deletion g) fun t => t.fits .statement := by
  mvcgen [deletion] <;> simp_all +decide

@[spec] theorem yields_assertion : Yields (assertion g) fun t => t.fits .statement := by
  mvcgen [assertion] <;> simp_all +decide

@[spec] theorem yields_simpleStatement : Yields (simpleStatement g) fun t => t.fits .statement := by
  mvcgen [simpleStatement] <;> simp_all +decide

end Simple

end Excerpt.Syntax.Grammar
