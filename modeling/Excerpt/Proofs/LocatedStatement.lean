import Excerpt.Proofs.LocatedGrammar

/-!
The productions for patterns and statements find trees of the text, and with them so does the reading of
a whole text: every node of its tree lies where it says.
-/
namespace Excerpt.Syntax.Grammar
open Std.Do Excerpt.Text Excerpt.Syntax.Parser

set_option mvcgen.warning false

attribute [local simp] Goal.Plain

attribute [local spec] reads_nothing reads_orElse reads_advance reads_token reads_here reads_isMark
  reads_isWord reads_isOneOf reads_require reads_waiting reads_take reads_mark reads_keyword reads_name
  reads_also reads_alsoAll reads_commas Grammar.expression reads_one reads_loopTree reads_loopTrees
  reads_loopWhile reads_startsOperand

attribute [local spec] reads_string reads_strings reads_expressions reads_yielding reads_loopTarget
  reads_loopTargetItem reads_arguments reads_typeParameters reads_startsGeneric reads_parameters

variable [Script] {g : Grammar} {t : Tree} {ts : List Tree} {start : Cursor} {f : Follow} {kind : Kind}
  {after : Expect}

@[local spec] theorem reads_dottedName {n : Nat} : Reads (dottedName n after) Tree.Placed := by
  mvcgen [dottedName] <;> simp_all

@[local spec] theorem reads_importedName : Reads (importedName g f) Tree.Placed := by
  mvcgen [importedName] <;> simp_all

@[local spec] theorem reads_importedNames (placed : AllPlaced ts) : Reads (importedNames g f ts) AllPlaced := by
  mvcgen [importedNames] <;> simp_all

@[local spec] theorem reads_importStatement : Reads (importStatement g) Tree.Placed := by
  mvcgen [importStatement] <;> simp_all

@[local spec] theorem reads_importedPart {wildcard : Bool} (placed : AllPlaced ts) :
    Reads (importedPart g wildcard ts) AllPlaced := by
  mvcgen [importedPart] <;> simp_all

@[local spec] theorem reads_relativeModule : Reads (relativeModule g) Tree.Placed := by
  mvcgen [relativeModule] <;> simp_all +zetaDelta

@[local spec] theorem reads_importFrom : Reads (importFrom g) Tree.Placed := by
  mvcgen [importFrom] <;> simp_all

@[local spec] theorem reads_bare {spelling : String} (plain : kind.Composite) :
    Reads (bare spelling kind) Tree.Placed := by
  mvcgen [bare] <;> simp_all

@[local spec] theorem reads_declaration {spelling : String} (plain : kind.Composite) :
    Reads (declaration g spelling kind) Tree.Placed := by
  mvcgen [declaration] <;> simp_all

variable [g.Located]

@[local spec] theorem reads_number : Reads (number after) Tree.Placed := by
  mvcgen [number] <;> simp_all

@[local spec] theorem reads_numberPattern : Reads (numberPattern f) AllPlaced := by
  mvcgen [numberPattern] <;> simp_all +zetaDelta

@[local spec] theorem reads_patternsUpTo {close : String} (placed : AllPlaced ts) :
    Reads (patternsUpTo g close f ts) AllPlaced := by
  mvcgen [patternsUpTo] <;> simp_all

@[local spec] theorem reads_splatPattern {spelling : String} :
    Reads (splatPattern f spelling) Tree.Placed := by
  mvcgen [splatPattern] <;> simp_all +zetaDelta

@[simp] theorem placed_map_withField {role : Field} :
    AllPlaced (ts.map (·.withField role)) ↔ AllPlaced ts := by
  simp [AllPlaced]

theorem reads_closedPattern {simple : Parser (List Tree)} (keys : Reads simple AllPlaced) :
    Reads (closedPattern g simple f) AllPlaced := by
  mvcgen [closedPattern,keys]
  all_goals
    clear keys
    simp_all +zetaDelta

@[local spec] theorem reads_simplePattern {keys : Nat} : Reads (simplePattern g f keys) AllPlaced := by
  induction keys generalizing f with
  | zero => exact keeps_failure
  | succ keys ih =>
    have part := reads_closedPattern (g := g) (f := f) (ih (f := {}))
    mvcgen [simplePattern,part]
    all_goals
      clear part ih
      simp_all

theorem reads_casePattern : Reads (casePattern g f) Tree.Placed := by
  have either {p q} := @reads_orElse _ (List Tree) p q AllPlaced
  mvcgen [casePattern,either,-reads_orElse]
  all_goals
    clear either
    simp_all +zetaDelta

@[local spec] theorem reads_assigns : Reads assigns fun _ => True := by
  mvcgen [assigns]

@[local spec] theorem reads_statementEnds : Reads statementEnds fun _ => True := by
  mvcgen [statementEnds]

theorem placed_leftSide (inside : start.In) (placed : AllPlaced ts)
    (left : leftSide? start ts = some t) : t.Placed := by
  unfold leftSide? at left
  split at left
  · obtain ⟨u,target,rfl⟩ := Option.map_eq_some_iff.1 left
    exact placed_withField.2 (placed_toTarget (allPlaced_cons.1 placed).1 target)
  · obtain ⟨us,targets,rfl⟩ := Option.map_eq_some_iff.1 left
    simp [inside,placed_toTargets placed targets]

@[local spec] theorem reads_assignmentBehind (inside : start.In) (placed : t.Placed) :
    Reads (assignmentBehind g start t) Tree.Placed := by
  mvcgen [assignmentBehind] <;> simp_all

@[local spec] theorem reads_lineExpressions : Reads (lineExpressions g) AllPlaced := by
  mvcgen [lineExpressions] <;> simp_all

theorem reads_rightSide : Reads (rightSide g) Tree.Placed := by
  mvcgen [rightSide] <;> simp_all
  rename_i inside placed _ left
  exact fun _ _ => placed_leftSide inside.1 placed.1 left

@[local spec] theorem reads_expressionsEnd (inside : start.In) (placed : AllPlaced ts) :
    Reads (expressionsEnd g start ts) Tree.Placed := by
  mvcgen [expressionsEnd] <;> simp_all
  rename_i left _ _
  exact placed_leftSide inside placed left

@[local spec] theorem reads_crossing (inside : start.In) (placed : AllPlaced ts) :
    Reads (crossing g start ts) Tree.Placed := by
  mvcgen [crossing] <;> simp_all

@[local spec] theorem reads_expressionsBehind {n : Nat} (inside : start.In) (placed : AllPlaced ts) :
    Reads (expressionsBehind g start n ts) Tree.Placed := by
  induction n generalizing ts with
  | zero => exact keeps_failure
  | succ n ih =>
    mvcgen [expressionsBehind,ih]
    all_goals
      clear ih
      simp_all

@[local spec] theorem reads_expressionStatement : Reads (expressionStatement g) Tree.Placed := by
  mvcgen [expressionStatement] <;> simp_all

theorem reads_wholeExpression : Reads (wholeExpression g) Tree.Placed := by
  mvcgen [wholeExpression] <;> simp_all

@[local spec] theorem reads_printArguments (placed : AllPlaced ts) : Reads (printArguments g ts) AllPlaced := by
  mvcgen [printArguments] <;> simp_all

theorem reads_printTo : Reads (printTo g) Tree.Placed := by
  mvcgen [printTo] <;> simp_all

theorem reads_printValues : Reads (printValues g) Tree.Placed := by
  mvcgen [printValues] <;> simp_all

@[local spec] theorem reads_printing : Reads (printing g) Tree.Placed :=
  reads_orElse reads_printTo (reads_orElse reads_wholeExpression reads_printValues)

@[local spec] theorem reads_execution : Reads (execution g) Tree.Placed := by
  mvcgen [execution] <;> simp_all

@[local spec] theorem reads_aliasing : Reads (aliasing g) Tree.Placed := by
  refine reads_orElse ?_ reads_expressionStatement
  mvcgen <;> simp_all

@[local spec] theorem reads_raising : Reads (raising g) Tree.Placed := by
  mvcgen [raising] <;> simp_all

@[local spec] theorem reads_returning : Reads (returning g) Tree.Placed := by
  mvcgen [returning] <;> simp_all

@[local spec] theorem reads_deletion : Reads (deletion g) Tree.Placed := by
  mvcgen [deletion] <;> simp_all

@[local spec] theorem reads_assertion : Reads (assertion g) Tree.Placed := by
  mvcgen [assertion] <;> simp_all

@[local spec] theorem reads_simpleStatement : Reads (simpleStatement g) Tree.Placed := by
  mvcgen [simpleStatement] <;> simp_all

@[local spec] theorem reads_lineOfStatements : Reads (lineOfStatements g after) AllPlaced := by
  mvcgen [lineOfStatements] <;> simp_all

@[simp] theorem placed_lastAs {role : Field} (placed : AllPlaced ts) : AllPlaced (lastAs role ts) := by
  unfold lastAs
  split
  · next last => exact placed_relast placed last
  · exact allPlaced_nil

@[local spec] theorem reads_parseSuite : Reads (g.parse (.suite after)) AllPlaced := Located.reaches _ trivial

@[local spec] theorem reads_body {role : Field} (placed : AllPlaced ts) : Reads (body g role after ts) AllPlaced := by
  mvcgen [body] <;> simp_all

@[local spec] theorem reads_plainBody (placed : AllPlaced ts) : Reads (plainBody g after ts) AllPlaced := by
  mvcgen [plainBody] <;> simp_all

@[local spec] theorem reads_elseClause : Reads (elseClause g after) Tree.Placed := by
  mvcgen [elseClause] <;> simp_all

@[local spec] theorem reads_otherwise (placed : AllPlaced ts) : Reads (otherwise g after ts) AllPlaced := by
  mvcgen [otherwise] <;> simp_all

@[local spec] theorem reads_conditional {spelling : String} {role : Field} :
    Reads (conditional g spelling role after) AllPlaced := by
  mvcgen [conditional] <;> simp_all

@[local spec] theorem reads_ifStatement : Reads (ifStatement g after) Tree.Placed := by
  mvcgen [ifStatement] <;> simp_all +zetaDelta

@[local spec] theorem reads_whileStatement : Reads (whileStatement g after) Tree.Placed := by
  mvcgen [whileStatement] <;> simp_all

@[local spec] theorem reads_forStatement (inside : start.In) (placed : AllPlaced ts) :
    Reads (forStatement g after start ts) Tree.Placed := by
  mvcgen [forStatement] <;> simp_all

theorem placed_asItems (placed : t.Placed) (found : asItems t = some ts) : AllPlaced ts := by
  have parts := (placed_iff.1 placed).2
  unfold asItems at found
  dsimp only at found
  split at found
  · cases found
    intro u member
    obtain ⟨⟨l,cs⟩,inside,rfl⟩ := List.mem_map.1 member
    have own := parts _ inside
    split
    · refine .node ((placed_iff.1 own).1.relabel rfl rfl nofun nofun) fun c inner => ?_
      rw [List.mem_singleton.1 inner]
      exact placed_withField.2 own
    · exact own
  · cases found

/-- The items in the brackets of a tuple lie where the tuple does. -/
theorem placed_getD_asItems {value : Tree} (placed : AllPlaced [t]) (only : t.children = [value]) :
    AllPlaced ((asItems value).getD [t]) := by
  cases found : asItems value with
  | none => exact placed
  | some us =>
    have parts := (placed_iff.1 (allPlaced_cons.1 placed).1).2
    exact placed_asItems (parts value (by simp [only])) found

@[local spec] theorem reads_withClause : Reads (withClause g) Tree.Placed := by
  mvcgen [withClause] <;> simp_all
  exact placed_getD_asItems (by simp_all) (by assumption)

@[local spec] theorem reads_withStatement (inside : start.In) (placed : AllPlaced ts) :
    Reads (withStatement g after start ts) Tree.Placed := by
  mvcgen [withStatement] <;> simp_all

@[local spec] theorem reads_exceptClause : Reads (exceptClause g after) Tree.Placed := by
  mvcgen [exceptClause] <;> simp_all

@[local spec] theorem reads_exceptGroupClause : Reads (exceptGroupClause g after) Tree.Placed := by
  mvcgen [exceptGroupClause] <;> simp_all

@[local spec] theorem reads_finallyClause : Reads (finallyClause g after) Tree.Placed := by
  mvcgen [finallyClause] <;> simp_all

@[local spec] theorem reads_tryStatement : Reads (tryStatement g after) Tree.Placed := by
  mvcgen [tryStatement] <;> simp_all

@[local spec] theorem reads_startsGenericLine : Reads startsGenericLine fun _ => True := by
  mvcgen [startsGenericLine]
  simp_all

@[local spec] theorem reads_functionDefinition (inside : start.In) (placed : AllPlaced ts) :
    Reads (functionDefinition g after start ts) Tree.Placed := by
  mvcgen [functionDefinition] <;> simp_all

@[local spec] theorem reads_classDefinition : Reads (classDefinition g after) Tree.Placed := by
  mvcgen [classDefinition] <;> simp_all

@[local spec] theorem reads_asynchronous : Reads (asynchronous g after) Tree.Placed := by
  mvcgen [asynchronous] <;> simp_all

@[local spec] theorem reads_decorator : Reads (decorator g) Tree.Placed := by
  mvcgen [decorator] <;> simp_all

@[local spec] theorem reads_decorated : Reads (decorated g after) Tree.Placed := by
  mvcgen [decorated] <;> simp_all

@[local spec] theorem reads_caseClause : Reads (caseClause g) Tree.Placed := by
  mvcgen [caseClause] <;> simp_all

@[local spec] theorem reads_matchBody : Reads (matchBody g after) Tree.Placed := by
  mvcgen [matchBody] <;> simp_all

@[local spec] theorem reads_matchStatement : Reads (matchStatement g after) Tree.Placed := by
  mvcgen [matchStatement] <;> simp_all

@[local spec] theorem reads_matching : Reads (matching g after) AllPlaced := by
  mvcgen [matching] <;> simp_all

@[local spec] theorem reads_statement : Reads (statement g after) AllPlaced := by
  mvcgen [statement] <;> simp_all

theorem reads_suite : Reads (suite g after) AllPlaced := by
  mvcgen [suite] <;> simp_all

attribute [local spec] reads_expressionOf reads_source reads_disjunction reads_negation reads_binary
  reads_chain reads_rightSide reads_typeHint reads_casePattern reads_interpolation reads_suite in
theorem reads_produce {goal : Goal} (plain : goal.Plain) : Reads (produce g goal) AllPlaced := by
  cases goal <;> mvcgen [produce] <;> simp_all

/-- Every number of steps makes a grammar that finds trees of the text: a goal is reached by a production
over the grammar with one step less. -/
theorem located_reach (steps : Nat) : ∀ n, Located ⟨steps,reach n⟩
  | 0 => ⟨fun _ _ => keeps_failure⟩
  | n + 1 =>
    have := located_reach n n
    ⟨fun _ plain => reads_produce (g := ⟨n,reach n⟩) plain⟩

theorem reads_statements (inside : start.In) : Reads (statements g start) Tree.Placed := by
  mvcgen [statements] <;> simp_all

end Excerpt.Syntax.Grammar

namespace Excerpt.Syntax
open Excerpt.Text Excerpt.Syntax.Parser Excerpt.Syntax.Grammar

/-- Every node of the tree of a text lies in the text. -/
theorem readTree_placed {text : String} {root : Tree} (read : readTree text = some root) :
    @Tree.Placed ⟨text.toList⟩ root := by
  let _ : Script := ⟨text.toList⟩
  obtain ⟨⟨t,s⟩,parsed,rfl⟩ := Option.map_eq_some_iff.1 read
  have := located_reach (16 * (Cursor.ofString text).rest.length + 64)
    (16 * (Cursor.ofString text).rest.length + 64)
  have inside : (Cursor.ofString text).In := Cursor.in_start
  exact (reads_iff.1 (reads_statements inside) _ (fetch_on allPlaced_nil inside) _ _ parsed).1

end Excerpt.Syntax
