import Excerpt.Proofs.ClassReads
import Excerpt.Proofs.JoinedParts
import Excerpt.Validation

/-!
Verdicts on sources whose lines are joined. Each kind of statement is read from the tree without line
continuations as it was with them, but for blanks and skipped statements, and so the verdict stays.
Where parts are counted it may change: a broken conditional expression is no conditional any more.
-/
namespace Excerpt.Program
open Excerpt.Execution Excerpt.Syntax

/-- The statement of a tree loses nothing but blanks and skipped statements when the lines are joined. -/
def RunsJoined (live : Bool) (t : Tree) : Prop := (stmtOf t).Joins live (stmtOf t.joined)

theorem stmtOf_of_isBreak {t : Tree} (rest : t.isBreak) : stmtOf t = .skip := by
  obtain ⟨l,cs⟩ := t
  have symbol : l.symbol = .named .lineContinuation := Tree.symbol_of_isBreak rest
  simp only [stmtOf,symbol]

theorem BodyJoins.append {live : Bool} {ss ss' rs rs' : List Stmt} (front : BodyJoins live ss ss')
    (back : BodyJoins live rs rs') : BodyJoins live (ss ++ rs) (ss' ++ rs') := by
  induction ss generalizing ss' with
  | nil =>
    cases front
    exact back
  | cons s ss ih =>
    cases front with
    | cons first rest => exact .cons first (ih rest)
    | skip rest => exact .skip (ih rest)

theorem CasesJoin.append {live : Bool} {cs cs' ds ds' : List Case} (front : CasesJoin live cs cs')
    (back : CasesJoin live ds ds') : CasesJoin live (cs ++ ds) (cs' ++ ds') := by
  induction cs generalizing cs' with
  | nil =>
    cases front
    exact back
  | cons c cs ih =>
    cases front with
    | cons parts runs rest => exact .cons parts runs (ih rest)

section Bodies
variable {live : Bool} {cs : List Tree}

theorem bodyOf_joins (each : ∀ c ∈ cs, c.isNamed → RunsJoined live c) :
    BodyJoins live (bodyOf cs) (bodyOf (joinedAll cs)) := by
  refine joinedAll_induction (P := fun ds ds' => BodyJoins live (bodyOf ds) (bodyOf ds')) .nil
    (fun c member _ ds ds' joins => ?_) fun c _ rest ds ds' joins => ?_
  · rw [bodyOf,bodyOf,Tree.isNamed_joined]
    split
    · next named => exact .cons (each c member named) joins
    · exact joins
  · rw [bodyOf,if_pos (Tree.isNamed_of_isBreak rest),stmtOf_of_isBreak rest]
    exact .skip joins

theorem bodyOfRole_joins (bare : BareBreaks cs) {f : Field}
    (each : ∀ c ∈ cs, c.field = some f → BodyJoins live (bodyOf c.children) (bodyOf c.joined.children)) :
    BodyJoins live (bodyOfRole f cs) (bodyOfRole f (joinedAll cs)) := by
  refine joinedAll_node_induction (P := fun ds ds' => BodyJoins live (bodyOfRole f ds) (bodyOfRole f ds')) .nil
    (fun l es member ds ds' joins => ?_) fun l es member symbol ds ds' joins => ?_
  · rw [bodyOfRole,bodyOfRole]
    split
    · next role => exact each _ member (beq_iff_eq.1 role)
    · exact joins
  · simpa [bodyOfRole,bare.field_eq member symbol] using joins

theorem bodyOfBlocks_joins
    (each : ∀ c ∈ cs, c.is .block → BodyJoins live (bodyOf c.children) (bodyOf c.joined.children)) :
    BodyJoins live (bodyOfBlocks cs) (bodyOfBlocks (joinedAll cs)) := by
  refine joinedAll_node_induction (P := fun ds ds' => BodyJoins live (bodyOfBlocks ds) (bodyOfBlocks ds')) .nil
    (fun l es member ds ds' joins => ?_) fun l es _ symbol ds ds' joins => ?_
  · rw [bodyOfBlocks,bodyOfBlocks]
    split
    · next block => exact .append (each _ member block) joins
    · exact joins
  · simpa [bodyOfBlocks,symbol] using joins

end Bodies

/-- A tree up to a given size that stands in its place and whose lines can be joined. -/
structure Ready (size : Nat) (live : Bool) (p : Place) (t : Tree) : Prop where
  small : sizeOf t ≤ size
  fits : t.fits p
  joinable : t.joinable (.ofLive live)

namespace Ready
variable {size : Nat} {live : Bool} {p : Place} {t c : Tree}

theorem bare (ready : Ready size live p t) : BareBreaks t.children := (Tree.joinable_iff.1 ready.joinable).1

theorem head (ready : Ready size live p t) : headedAt t.symbol t.children :=
  (Tree.joinable_iff.1 ready.joinable).2.1

theorem decided (ready : Ready size true p t) : decidedAt t.symbol t.children :=
  (Tree.joinable_iff.1 ready.joinable).2.2.1 rfl

theorem child {k : Kind} (ready : Ready size live p t) (symbol : t.symbol = .named k)
    (member : c ∈ t.children) (plain : Use.below .live (.named k) c = .live) :
    Ready size live (p.belowKind k c.field) c where
  small := Nat.le_of_lt (Nat.lt_of_lt_of_le (Tree.sizeOf_lt_of_mem member) ready.small)
  fits := by
    have fits := (Tree.fits_iff.1 ready.fits).2 c member
    rwa [symbol] at fits
  joinable := Tree.joinable_child ready.joinable member (symbol ▸ plain)

theorem deferred {k : Kind} (ready : Ready size live p t) (symbol : t.symbol = .named k)
    (member : c ∈ t.children) (later : Use.below .live (.named k) c = .scanned) :
    Ready size false (p.belowKind k c.field) c where
  small := Nat.le_of_lt (Nat.lt_of_lt_of_le (Tree.sizeOf_lt_of_mem member) ready.small)
  fits := by
    have fits := (Tree.fits_iff.1 ready.fits).2 c member
    rwa [symbol] at fits
  joinable := Tree.joinable_deferred ready.joinable member (symbol ▸ later)

theorem inPlace {q : Place} (ready : Ready size live p t) (fits : t.fits q) : Ready size live q t :=
  ⟨ready.small,fits,ready.joinable⟩

theorem reads (ready : Ready size live .operand t) : ReadsJoined live t :=
  readsJoined live t ready.fits ready.joinable

/-- What stands below something that can be evaluated can be evaluated. -/
theorem operand {k : Kind} (ready : Ready size live .operand t) (symbol : t.symbol = .named k)
    (plain : defers k = false) (member : c ∈ t.children) : Ready size live .operand c := by
  have named : t.isNamed := by simp [Tree.isNamed,symbol]
  have ordinary : k.isStructure = false := by
    have allowed := (Tree.fits_iff.1 ready.fits).1
    rw [symbol] at allowed
    simpa [Place.allows,Place.allowsKind] using allowed
  have below := ready.child symbol member (below_operand ordinary plain)
  exact below.inPlace (fits_operand_of_mem ready.fits named member)

/-- In a role that is given, a child of a compound statement stands in the place of the role. -/
theorem inRole {place : Option Field → Place} {f : Field} (ready : Ready size live (place c.field) c)
    (role : c.field = some f) : Ready size live (place (some f)) c := role ▸ ready

theorem below_clause {k : Kind} (ready : Ready size live p t) (symbol : t.symbol = .named k)
    (clause : k = .elifClause ∨ k = .elseClause) (member : c ∈ t.children) :
    Ready size live (Place.belowClause c.field) c := by
  have allowed := (Tree.fits_iff.1 ready.fits).1
  rw [symbol] at allowed
  rcases clause with rfl | rfl
  · have below := ready.child symbol member rfl
    rwa [Place.below_clause rfl rfl allowed] at below
  · have below := ready.child symbol member rfl
    rwa [Place.below_clause rfl rfl allowed] at below

theorem below_compound {k : Kind} (ready : Ready size live p t) (symbol : t.symbol = .named k)
    (compound : k.isCompound) (other : (k == .matchStatement) = false) (member : c ∈ t.children)
    (plain : Use.below .live (.named k) c = .live) : Ready size live (Place.belowCompound c.field) c := by
  have allowed := (Tree.fits_iff.1 ready.fits).1
  rw [symbol] at allowed
  have below := ready.child symbol member plain
  rwa [Place.below_compound compound other allowed] at below

/-- What is no statement and no part of one can be evaluated below a compound statement. -/
theorem ordinary {k : Kind} (ready : Ready size live (Place.belowCompound c.field) c) (is : c.is k)
    (ordinary : k.isStructure = false) : Ready size live .operand c := by
  obtain ⟨pattern,token⟩ := Place.belowCompound_ne c.field
  exact ready.inPlace (fits_operand_of_is pattern token is ordinary ready.fits)

/-- What a simple statement holds can be evaluated. -/
theorem below_simple {k : Kind} (ready : Ready size live .statement t) (symbol : t.symbol = .named k)
    (simple : k.isSimple) (other : (k == .typeAliasStatement) = false) (member : c ∈ t.children) :
    Ready size live .operand c := by
  have plain : Use.below .live (.named k) c = .live := by cases k <;> cases simple <;> cases other <;> rfl
  have below := ready.child symbol member plain
  obtain ⟨l,cs⟩ := t
  exact below.inPlace (fits_of_simple symbol simple other ready.fits c member)

end Ready

/-- Statements below a given size lose nothing but blanks and skipped statements. -/
def RunsBelow (size : Nat) : Prop := ∀ (live : Bool) (u : Tree), u.isNamed → sizeOf u < size →
  u.fits .statement → u.joinable (.ofLive live) → RunsJoined live u

section Statements
variable {size : Nat} {live : Bool} {cs : List Tree} {p : Place} {t : Tree}

/-- What stands in a place for one kind only is of that kind. -/
theorem is_of_fits {k : Kind} (tokens : ∀ spelling, p.allows (.token spelling) = false)
    (only : ∀ j, p.allowsKind j → j = k) (fits : t.fits p) : t.is k := by
  have allowed := (Tree.fits_iff.1 fits).1
  cases symbol : t.symbol with
  | token spelling =>
    rw [symbol,tokens] at allowed
    cases allowed
  | named j =>
    rw [symbol] at allowed
    rw [Tree.is,symbol,only j allowed]
    exact beq_self_eq_true _

theorem block_joins (smaller : RunsBelow size) (ready : Ready size live p t) (is : t.is .block)
    (cases_ : p ≠ .cases) : BodyJoins live (bodyOf t.children) (bodyOf t.joined.children) := by
  rw [Tree.children_joined]
  refine bodyOf_joins fun c member named => ?_
  have below := ready.child (beq_iff_eq.1 is) member rfl
  exact smaller live c named (Nat.lt_of_lt_of_le (Tree.sizeOf_lt_of_mem member) ready.small)
    (fits_of_block is cases_ ready.fits c member) below.joinable

theorem roleBody_joins (smaller : RunsBelow size) (bare : BareBreaks cs) {f : Field}
    (each : ∀ c ∈ cs, c.field = some f → Ready size live .block c) :
    BodyJoins live (bodyOfRole f cs) (bodyOfRole f (joinedAll cs)) := by
  refine bodyOfRole_joins bare fun c member role => ?_
  have ready := each c member role
  have is : c.is .block := is_of_fits (fun _ => rfl) (fun _ => beq_iff_eq.1) ready.fits
  exact block_joins smaller ready is (by simp)

theorem branchesOf_joins (smaller : RunsBelow size)
    (each : ∀ c ∈ cs, Ready size live (Place.belowCompound c.field) c) :
    BranchesJoin live (branchesOf cs) (branchesOf (joinedAll cs)) := by
  refine joinedAll_node_induction (P := fun ds ds' => BranchesJoin live (branchesOf ds) (branchesOf ds')) .nil
    (fun l es member ds ds' joins => ?_) fun l es _ symbol ds ds' joins => ?_
  · have ready := each _ member
    rw [branchesOf,branchesOf]
    split
    · next elif =>
      have below (d : Tree) (among : d ∈ es) := ready.below_clause (beq_iff_eq.1 elif) (.inl rfl) among
      exact .cons (exprOfRole_joins ready.bare fun d among role => ((below d among).inRole role).reads)
        (roleBody_joins smaller ready.bare fun d among role => (below d among).inRole role) joins
    split
    · next otherwise =>
      have below (d : Tree) (among : d ∈ es) := ready.below_clause (beq_iff_eq.1 otherwise) (.inr rfl) among
      exact .cons .none
        (roleBody_joins smaller ready.bare fun d among role => (below d among).inRole role) joins
    · exact joins
  · simpa [branchesOf,symbol] using joins

/-- A handler: what stands in front of its body is not evaluated, the body is run. -/
theorem handler_ready (smaller : RunsBelow size) (ready : Ready size live p t)
    (excepts : t.symbol = .named .exceptClause ∨ t.symbol = .named .exceptGroupClause) :
    JoinsAll false (handlerItems t.children) (handlerItems t.joined.children) ∧
      (live → catches (handlerItems t.joined.children) = catches (handlerItems t.children)) ∧
      (live → bindAliases (handlerItems t.joined.children) = bindAliases (handlerItems t.children)) ∧
      BodyJoins live (bodyOfBlocks t.children) (bodyOfBlocks t.joined.children) := by
  obtain ⟨k,symbol,handler,uses,first⟩ : ∃ k : Kind, t.symbol = .named k ∧ k.isHandler ∧
      (∀ c, Use.below .live (.named k) c = if c.is .block then .live else .handled) ∧
      ∀ cs, decidedAt (.named k) cs = headed (cs.filter (!·.is .block)) :=
    excepts.elim (fun symbol => ⟨_,symbol,rfl,fun _ => rfl,fun _ => rfl⟩)
      fun symbol => ⟨_,symbol,rfl,fun _ => rfl,fun _ => rfl⟩
  have below := (Tree.joinable_iff.1 ready.joinable).2.2.2
  have fits : ∀ c ∈ t.children, c.fits .interior := by
    obtain ⟨l,cs⟩ := t
    exact fits_of_handler symbol handler ready.fits
  have handled (runs : live) : ∀ c ∈ t.children, c.is .block = false → c.joinable .handled := by
    subst runs
    intro c member header
    have handled := below c member
    rwa [symbol,show Use.ofLive true = .live from rfl,uses,if_neg (by simp [header])] at handled
  have head (runs : live) : headed (t.children.filter (!·.is .block)) := by
    subst runs
    have decided := ready.decided
    rwa [symbol,first] at decided
  have scanned : ∀ c ∈ t.children, c.is .block = false → c.joinable .scanned :=
    fun c member _ => Tree.joinable_scanned (below c member)
  obtain ⟨parts,caught,aliases⟩ := handler_joins fits scanned handled head
  rw [Tree.children_joined]
  refine ⟨parts,caught,aliases,bodyOfBlocks_joins fun c member block => ?_⟩
  have inner := ready.child symbol member (by rw [uses,if_pos block])
  exact block_joins smaller (inner.inPlace (fits c member)) block (by simp)

/-- The first `else` of a statement. -/
theorem otherwiseOf_joins (smaller : RunsBelow size)
    (each : ∀ c ∈ cs, Ready size live (Place.belowCompound c.field) c) :
    BodyJoins live (otherwiseOf cs) (otherwiseOf (joinedAll cs)) := by
  refine joinedAll_node_induction (P := fun ds ds' => BodyJoins live (otherwiseOf ds) (otherwiseOf ds')) .nil
    (fun l es member ds ds' joins => ?_) fun l es _ symbol ds ds' joins => ?_
  · have ready := each _ member
    rw [otherwiseOf,otherwiseOf]
    split
    · next otherwise =>
      have below (d : Tree) (among : d ∈ es) := ready.below_clause (beq_iff_eq.1 otherwise) (.inr rfl) among
      exact roleBody_joins smaller ready.bare fun d among role => (below d among).inRole role
    · exact joins
  · simpa [otherwiseOf,symbol] using joins

theorem handlersOf_joins (smaller : RunsBelow size)
    (each : ∀ c ∈ cs, Ready size live (Place.belowCompound c.field) c) :
    HandlersJoin live (handlersOf cs) (handlersOf (joinedAll cs)) := by
  refine joinedAll_node_induction (P := fun ds ds' => HandlersJoin live (handlersOf ds) (handlersOf ds')) .nil
    (fun l es member ds ds' joins => ?_) fun l es _ symbol ds ds' joins => ?_
  · have ready := each _ member
    rw [handlersOf,handlersOf]
    split
    · next handler =>
      obtain ⟨parts,caught,aliases,runs⟩ := handler_ready smaller ready (by simpa using handler)
      exact .cons parts caught aliases runs joins
    · exact joins
  · simpa [handlersOf,symbol] using joins

/-- The `finally` of a statement. -/
theorem finalOf_joins (smaller : RunsBelow size)
    (each : ∀ c ∈ cs, Ready size live (Place.belowCompound c.field) c) :
    BodyJoins live (finalOf cs) (finalOf (joinedAll cs)) := by
  refine joinedAll_node_induction (P := fun ds ds' => BodyJoins live (finalOf ds) (finalOf ds')) .nil
    (fun l es member ds ds' joins => ?_) fun l es _ symbol ds ds' joins => ?_
  · have ready := each _ member
    rw [finalOf,finalOf]
    split
    · next final =>
      have fits := fits_of_handler (beq_iff_eq.1 final) rfl ready.fits
      refine bodyOfBlocks_joins fun d among block => ?_
      have inner := ready.child (beq_iff_eq.1 final) among rfl
      exact block_joins smaller (inner.inPlace (fits d among)) block (by simp)
    · exact joins
  · simpa [finalOf,symbol] using joins

/-- A case: its pattern is not evaluated, its condition may be. -/
theorem case_ready (smaller : RunsBelow size) (ready : Ready size live p t)
    (symbol : t.symbol = .named .caseClause) :
    casePatterns t.joined.children = casePatterns t.children ∧
      JoinsAll live (guardOf t.children) (guardOf t.joined.children) ∧
      BodyJoins live (bodyOfBlocks t.children) (bodyOfBlocks t.joined.children) := by
  have fits : ∀ c ∈ t.children, c.fits (Place.belowCase c.field) := by
    obtain ⟨l,cs⟩ := t
    exact fits_of_case symbol ready.fits
  have inner {c : Tree} {k : Kind} (member : c ∈ t.children) (is : c.is k) (other : k ≠ .casePattern) :=
    ready.child symbol member (by
      have other : c.is .casePattern = false := by
        rw [Tree.is,beq_iff_eq.1 is]
        simpa using other
      rw [Use.below,other]
      rfl)
  rw [Tree.children_joined]
  refine ⟨casePatterns_joined fun c member pattern => ?_,guardOf_joins fun c member guard_ d among => ?_,
    bodyOfBlocks_joins fun c member block => ?_⟩
  · exact (ready.deferred symbol member (by rw [Use.below,pattern]; rfl)).joinable
  · have condition : c.fits .operand := by
      have placed := fits c member
      have allowed := (Tree.fits_iff.1 placed).1
      rw [beq_iff_eq.1 guard_] at allowed
      rcases Place.belowCase_cases c.field with place | place | place <;> rw [place] at placed allowed
      · cases allowed
      · exact fits_operand_of_is (by simp) (by simp) guard_ rfl placed
      · cases allowed
    have inner := inner member guard_ (by simp)
    exact ((inner.inPlace condition).operand (beq_iff_eq.1 guard_) rfl among).reads
  · have inner := inner member block (by simp)
    refine block_joins smaller (inner.inPlace (fits c member)) block ?_
    rcases Place.belowCase_cases c.field with place | place | place <;> simp [place]

theorem casesOf_joins (smaller : RunsBelow size) (each : ∀ c ∈ cs, Ready size live .caseItem c) :
    CasesJoin live (casesOf cs) (casesOf (joinedAll cs)) := by
  refine joinedAll_node_induction (P := fun ds ds' => CasesJoin live (casesOf ds) (casesOf ds')) .nil
    (fun l es member ds ds' joins => ?_) fun l es _ symbol ds ds' joins => ?_
  · have ready := each _ member
    rw [casesOf,casesOf]
    split
    · next clause =>
      obtain ⟨patterns,condition,runs⟩ := case_ready smaller ready (beq_iff_eq.1 clause)
      rw [show casePatterns (joinedAll es) = casePatterns es from patterns]
      exact .cons condition runs joins
    · exact joins
  · simpa [casesOf,symbol] using joins

theorem casesIn_joins (smaller : RunsBelow size)
    (each : ∀ c ∈ cs, Ready size live (Place.belowMatch c.field) c) :
    CasesJoin live (casesIn cs) (casesIn (joinedAll cs)) := by
  refine joinedAll_node_induction (P := fun ds ds' => CasesJoin live (casesIn ds) (casesIn ds')) .nil
    (fun l es member ds ds' joins => ?_) fun l es _ symbol ds ds' joins => ?_
  · have ready := each _ member
    rw [casesIn,casesIn]
    split
    · next clause =>
      obtain ⟨patterns,condition,runs⟩ := case_ready smaller ready (beq_iff_eq.1 clause)
      rw [show casePatterns (joinedAll es) = casePatterns es from patterns]
      exact .cons condition runs joins
    split
    · next block =>
      have fits := fits_cases_of_block (t := .node l es) block ready.fits
      refine .append (casesOf_joins smaller fun d among => ?_) joins
      have inner := ready.child (beq_iff_eq.1 block) among rfl
      exact inner.inPlace (fits d among)
    · exact joins
  · simpa [casesIn,symbol] using joins

theorem class_ready (smaller : RunsBelow size) (ready : Ready size live p t)
    (symbol : t.symbol = .named .classDefinition) :
    (definitionOf t.symbol t.children (bodyOfRole .body t.children)).Joins live
      (definitionOf t.symbol t.joined.children (bodyOfRole .body t.joined.children)) := by
  have below {c : Tree} (member : c ∈ t.children) := ready.below_compound symbol rfl rfl member rfl
  rw [symbol,Tree.children_joined]
  refine classDef_joins ready.bare
    (roleBody_joins smaller ready.bare fun c member role => (below member).inRole role)
    fun c member role d among => ?_
  have bases : Ready size live .arguments c := (below member).inRole role
  have is : c.is .argumentList := is_of_fits (fun _ => rfl) (fun _ => beq_iff_eq.1) bases.fits
  have operand := fits_operand_of_is (by simp) (by simp) is rfl bases.fits
  exact ((bases.inPlace operand).operand (beq_iff_eq.1 is) rfl among).reads

/-- A function: only its head is evaluated with the definition. -/
theorem function_ready (smaller : RunsBelow size) (ready : Ready size live p t)
    (symbol : t.symbol = .named .functionDefinition) :
    (definitionOf t.symbol t.children (bodyOfRole .body t.children)).Joins live
      (definitionOf t.symbol t.joined.children (bodyOfRole .body t.joined.children)) := by
  have fits : ∀ c ∈ t.children, c.fits (Place.belowCompound c.field) := by
    obtain ⟨l,cs⟩ := t
    exact fits_of_compound symbol rfl rfl ready.fits
  have outside {c : Tree} {f : Field} (member : c ∈ t.children) (role : c.field = some f) (other : f ≠ .body) :
      Ready size live (Place.belowCompound (some f)) c := by
    refine (ready.below_compound symbol rfl rfl member ?_).inRole role
    rw [Use.below,role,if_neg (by simpa using other)]
  rw [symbol,Tree.children_joined]
  refine function_joins ready.bare (roleBody_joins smaller ready.bare fun c member role => ?_)
    (parametersOfRole_joins ready.bare fun c member role => ?_)
    fun c member role => (outside member role (by simp)).reads
  · have inner := ready.deferred symbol member (by rw [Use.below,role]; rfl)
    have placed := fits c member
    rw [role] at placed
    exact inner.inPlace placed
  · have heads := outside member role (by simp)
    exact parameters_joins heads.fits heads.joinable fun u _ => readsJoined live u

theorem decorated_joins (smaller : RunsBelow size) (bare : BareBreaks cs)
    (each : ∀ c ∈ cs, c.field = some .definition → Ready size live .definition c) :
    (decorated cs).Joins live (decorated (joinedAll cs)) := by
  refine joinedAll_node_induction (P := fun ds ds' => (decorated ds).Joins live (decorated ds'))
    (.classDef .nil .nil) (fun l es member ds ds' joins => ?_) fun l es member symbol ds ds' joins => ?_
  · have ready := each _ member
    rw [decorated,decorated]
    split
    · next role =>
      have ready := ready (beq_iff_eq.1 role)
      have allowed := (Tree.fits_iff.1 ready.fits).1
      cases symbol : l.symbol with
      | token spelling => rw [Tree.symbol_node,symbol] at allowed; cases allowed
      | named k =>
        simp only [Tree.symbol_node,symbol,Place.allows,Place.allowsKind,Bool.or_eq_true,beq_iff_eq] at allowed
        rcases allowed with rfl | rfl
        · exact symbol ▸ class_ready smaller ready symbol
        · exact symbol ▸ function_ready smaller ready symbol
    · exact joins
  · simpa [decorated,bare.field_eq member symbol] using joins

theorem withItems_ready (below : ∀ c ∈ cs, Ready size live (Place.belowCompound c.field) c) :
    JoinsAll live (withItems cs) (withItems (joinedAll cs)) := by
  refine withItems_joins fun c member is => ?_
  have ready : Ready size live .operand c := by
    obtain ⟨d,outer,inside⟩ := List.mem_flatMap.1 member
    cases clause : d.is .withClause with
    | false =>
      rw [clause,if_neg Bool.false_ne_true,List.mem_singleton] at inside
      subst inside
      exact (below c outer).ordinary is rfl
    | true =>
      rw [clause,if_pos rfl] at inside
      exact ((below d outer).ordinary clause rfl).operand (beq_iff_eq.1 clause) rfl inside
  have head := ready.head
  rw [beq_iff_eq.1 is] at head
  exact ⟨ready.bare,head,fun d among => (ready.operand (beq_iff_eq.1 is) rfl among).reads⟩

/-- Conditional statements, loops, handlers and context managers. -/
theorem compound_ready {k : Kind} (smaller : RunsBelow size) (ready : Ready size live p t)
    (symbol : t.symbol = .named k) (kind : k = .ifStatement ∨ k = .forStatement ∨ k = .whileStatement ∨
      k = .tryStatement ∨ k = .withStatement) : RunsJoined live t := by
  have below : ∀ c ∈ t.children, Ready size live (Place.belowCompound c.field) c := by
    intro c member
    refine ready.below_compound symbol ?_ ?_ member ?_ <;> rcases kind with rfl | rfl | rfl | rfl | rfl <;> rfl
  have role (f : Field) (evaluated : Place.belowCompound (some f) = .operand) :
      JoinsOption live (exprOfRole f t.children) (exprOfRole f (joinedAll t.children)) := by
    refine exprOfRole_joins ready.bare fun c member role => ?_
    have inner := (below c member).inRole role
    rw [evaluated] at inner
    exact inner.reads
  have body (f : Field) (block : Place.belowCompound (some f) = .block) :
      BodyJoins live (bodyOfRole f t.children) (bodyOfRole f (joinedAll t.children)) :=
    roleBody_joins smaller ready.bare fun c member role => block ▸ (below c member).inRole role
  have otherwise := otherwiseOf_joins smaller below
  have branches := branchesOf_joins smaller below
  have handlers := handlersOf_joins smaller below
  have final := finalOf_joins smaller below
  have items := withItems_ready below
  obtain ⟨l,cs⟩ := t
  have own : l.symbol = .named k := symbol
  rw [RunsJoined,Tree.joined]
  rcases kind with rfl | rfl | rfl | rfl | rfl <;> simp only [stmtOf,own]
  · exact .branch (.cons (role .condition rfl) (body .consequence rfl) branches)
  · exact .forLoop (role .left rfl).getD (role .right rfl).getD (body .body rfl) otherwise
  · exact .whileLoop (role .condition rfl).getD (body .body rfl) otherwise
  · exact .attempt (body .body rfl) handlers otherwise final
  · exact .within items (body .body rfl)

theorem match_ready (smaller : RunsBelow size) (ready : Ready size live .statement t)
    (symbol : t.symbol = .named .matchStatement) : RunsJoined live t := by
  have below : ∀ c ∈ t.children, Ready size live (Place.belowMatch c.field) c :=
    fun c member => ready.child symbol member rfl
  have bare := ready.bare
  obtain ⟨l,cs⟩ := t
  have own : l.symbol = .named .matchStatement := symbol
  rw [RunsJoined,Tree.joined]
  simp only [stmtOf,own]
  have whole (c : Tree) (member : c ∈ cs) (subject : c.field == some .subject && c.isNamed) :
      c.isBreak = false := by
    cases rest : c.isBreak with
    | false => rfl
    | true => simp [(bare c member rest).1] at subject
  rw [exprsOfRole_eq_filter,exprsOfRole_eq_filter]
  refine .choose (filter_joins (fun t => by simp) fun c member subject => ?_) (fun _ => ?_)
    (casesIn_joins smaller below)
  · rw [Bool.and_eq_true,beq_iff_eq] at subject
    exact ((below c member).inRole subject.1).reads
  · rw [filter_joinedAll (fun t => by simp) whole,List.length_map,List.length_map,List.length_map]

theorem decorated_ready (smaller : RunsBelow size) (ready : Ready size live .statement t)
    (symbol : t.symbol = .named .decoratedDefinition) : RunsJoined live t := by
  have below : ∀ c ∈ t.children, Ready size live (Place.belowCompound c.field) c :=
    fun c member => ready.below_compound symbol rfl rfl member rfl
  have decorator {c : Tree} (member : c ∈ t.children) (is : c.is .decorator) := (below c member).ordinary is rfl
  have bare := ready.bare
  obtain ⟨l,cs⟩ := t
  have own : l.symbol = .named .decoratedDefinition := symbol
  rw [RunsJoined,Tree.joined]
  simp only [stmtOf,own]
  have reads (c : Tree) (member : c ∈ cs) (is : c.is .decorator) (d : Tree) (among : d ∈ c.children) :=
    ((decorator member is).operand (beq_iff_eq.1 is) rfl among).reads
  refine .define (decorationNames_joined reads) (fun runs => ?_)
    (decorated_joins smaller bare fun c member role => (below c member).inRole role)
  subst runs
  refine decoratorValues_joined fun c member is => ⟨?_,reads c member is⟩
  have head := (decorator member is).decided
  rwa [beq_iff_eq.1 is] at head

theorem typeAlias_ready (ready : Ready size live .statement t)
    (symbol : t.symbol = .named .typeAliasStatement) :
    RunsJoined live t := by
  have operand {c : Tree} (member : c ∈ t.children) : c.fits .operand ∧ c.joinable .scanned := by
    have inner := ready.deferred symbol member rfl
    have fits : c.fits .hint := inner.fits
    refine ⟨fits_operand (by simp) (by simp) (fun k symbol => ?_) fits,inner.joinable⟩
    have allowed := (Tree.fits_iff.1 fits).1
    rw [symbol] at allowed
    cases k <;> cases allowed <;> rfl
  have bare := ready.bare
  have head := ready.head
  obtain ⟨l,cs⟩ := t
  have own : l.symbol = .named .typeAliasStatement := symbol
  rw [Tree.symbol_node,own] at head
  rw [RunsJoined,Tree.joined]
  simp only [stmtOf,own]
  refine typeAliasOf_joins bare head
    (fun c member => readsJoined false c (operand member).1 (operand member).2) fun c target => ?_
  obtain ⟨left,first,second⟩ := Option.bind_eq_some_iff.1 target
  have member := List.mem_of_find?_eq_some first
  have inner := List.mem_of_find?_eq_some second
  exact readsJoined false c (fits_operand_of_mem (operand member).1 (List.find?_some first) inner)
    ((Tree.joinable_iff.1 (operand member).2).2.2.2 c inner)

/-- Simple statements are evaluated or kept as they are. -/
theorem simple_ready {k : Kind} (ready : Ready size live .statement t) (symbol : t.symbol = .named k)
    (simple : k.isSimple) (other : (k == .typeAliasStatement) = false) : RunsJoined live t := by
  have items : JoinsAll live (exprsOf t.children).items (exprsOf (joinedAll t.children)).items :=
    items_joins fun c member _ => (ready.below_simple symbol simple other member).reads
  have parts : ∀ c ∈ t.children, BareBreaks c.children := fun c member =>
    (ready.below_simple symbol simple other member).bare
  have bare := ready.bare
  have thrown (raises : k = .raiseStatement) (runs : live) : thrownBy t.joined = thrownBy t := by
    subst runs raises
    have decided := ready.decided
    rw [symbol] at decided
    exact thrownBy_joined parts decided
  obtain ⟨l,cs⟩ := t
  have own : l.symbol = .named k := symbol
  have plain : plainImport (.node l (joinedAll cs)) = plainImport (.node l cs) := plainImport_joined parts
  have future : futureImport (.node l (joinedAll cs)) = futureImport (.node l cs) := futureImport_joined parts
  have from_ : fromImport (.node l (joinedAll cs)) = fromImport (.node l cs) := fromImport_joined bare parts
  rw [RunsJoined,Tree.joined]
  cases k <;> cases simple <;> cases other <;> simp only [stmtOf,own]
  case importStatement => exact plain ▸ .same live _
  case importFromStatement => exact from_ ▸ .same live _
  case futureImportStatement => exact future ▸ .same live _
  case passStatement | breakStatement | continueStatement => exact .same live .skip
  case globalStatement | nonlocalStatement => exact identifiers_joined cs ▸ .same live _
  case deleteStatement => exact .delete items
  case raiseStatement => exact .raising items (thrown rfl)
  case returnStatement => exact .result items
  all_goals exact .evaluate items

/-- A definition that is not decorated. -/
theorem definition_ready {k : Kind} (smaller : RunsBelow size) (ready : Ready size live p t)
    (symbol : t.symbol = .named k) (kind : k = .classDefinition ∨ k = .functionDefinition) :
    RunsJoined live t := by
  have joins : (definitionOf t.symbol t.children (bodyOfRole .body t.children)).Joins live
      (definitionOf t.symbol t.joined.children (bodyOfRole .body t.joined.children)) := by
    rcases kind with rfl | rfl
    · exact class_ready smaller ready symbol
    · exact function_ready smaller ready symbol
  obtain ⟨l,cs⟩ := t
  have own : l.symbol = .named k := symbol
  rw [RunsJoined,Tree.joined]
  rw [Tree.symbol_node,own] at joins
  rcases kind with rfl | rfl <;> simp only [stmtOf,own] <;>
    exact .define (fun _ => rfl) (fun _ => rfl) joins

theorem extra_runs {k : Kind} (symbol : t.symbol = .named k) (extra : k.isExtra) : RunsJoined live t := by
  obtain ⟨l,cs⟩ := t
  have own : l.symbol = .named k := symbol
  rw [RunsJoined,Tree.joined]
  cases k <;> cases extra <;> simp only [stmtOf,own] <;> exact .same live .skip

end Statements

/-- The statement of a joinable tree loses nothing but blanks and skipped statements. -/
theorem runsJoined (live : Bool) (t : Tree) (named : t.isNamed) (placed : t.fits .statement)
    (joinable : t.joinable (.ofLive live)) : RunsJoined live t := by
  have smaller : RunsBelow (sizeOf t) := fun live u named small => runsJoined live u named
  have ready : Ready (sizeOf t) live .statement t := ⟨Nat.le_refl _,placed,joinable⟩
  have allowed := (Tree.fits_iff.1 placed).1
  obtain ⟨k,symbol⟩ : ∃ k, t.symbol = .named k := by
    cases symbol : t.symbol with
    | token spelling => simp [Tree.isNamed,symbol] at named
    | named k => exact ⟨k,rfl⟩
  rw [symbol] at allowed
  cases k <;> cases allowed
  case comment | lineContinuation => exact extra_runs symbol rfl
  case typeAliasStatement => exact typeAlias_ready ready symbol
  case classDefinition | functionDefinition => exact definition_ready smaller ready symbol (by simp)
  case decoratedDefinition => exact decorated_ready smaller ready symbol
  case ifStatement | forStatement | whileStatement | tryStatement | withStatement =>
    exact compound_ready smaller ready symbol (by simp)
  case matchStatement => exact match_ready smaller ready symbol
  all_goals exact simple_ready ready symbol rfl rfl
termination_by sizeOf t

/-- The program of a source loses nothing but blanks and skipped statements. -/
theorem ofTree_joins {root : Tree} (symbol : root.symbol = .named .program)
    (placed : ∀ t ∈ root.children, t.fits .statement) (joinable : root.joinable .live) :
    BodyJoins true (ofTree root) (ofTree root.joined) := by
  rw [ofTree,ofTree,Tree.children_joined]
  have joinable : root.joinable (.ofLive true) := joinable
  refine bodyOf_joins fun c member named => runsJoined true c named (placed c member) ?_
  exact Tree.joinable_child joinable member (by rw [symbol]; rfl)

end Excerpt.Program

namespace Excerpt
open Excerpt.Execution Excerpt.Program Excerpt.Syntax

/-- A backslash at the end of a line means nothing where it separates the parts of a construct that are
neither counted nor told apart by their order: a source without its line continuations, with all else in
its place, gets the same verdict, whatever modules are known. -/
theorem verdict_of_joined_lines (known : List String) {text : String} {source : Source}
    (read : Source.read text = .ok source) (joinable : source.root.joinable .live) :
    source.root.joined.preorder.map Tree.label =
        (source.root.preorder.filter (!·.isBreak)).map Tree.label ∧
      runStatically known {source with root := source.root.joined} = runStatically known source := by
  obtain ⟨symbol,placed⟩ := placed_of_readTree (Source.readTree_of_read read)
  refine ⟨Tree.labels_joined joinable (by simp [Tree.isBreak,Tree.is,symbol]),?_⟩
  rw [runStatically,runStatically,run_joins (ofTree_joins symbol placed joinable)]

/-- Lines that are broken in an import, a head, a body, a call and a handler. -/
theorem verdict_of_joined_lines_module : ∃ source, Source.read
      ("import os, \\\n sys\ndef f(a, \\\n b=[\\\n 1]): return (\\\n a) if b \\\n else os\n" ++
        "try: f(1, \\\n 2)\nexcept (\\\n ValueError) as e: e\n") = .ok source ∧
    (source.root.preorder.filter Tree.isBreak).length = 7 ∧
    source.root.joined.preorder.map Tree.label =
      (source.root.preorder.filter (!·.isBreak)).map Tree.label ∧
    runStatically [] source = .valid ∧
    runStatically [] {source with root := source.root.joined} = .valid := by
  have computed : (Source.read
      ("import os, \\\n sys\ndef f(a, \\\n b=[\\\n 1]): return (\\\n a) if b \\\n else os\n" ++
        "try: f(1, \\\n 2)\nexcept (\\\n ValueError) as e: e\n")).toOption.any fun source =>
    source.root.joinable .live && decide ((source.root.preorder.filter Tree.isBreak).length = 7) &&
      decide (runStatically [] source = .valid) := by decide +kernel
  obtain ⟨source,read,computed⟩ := ok_of_any computed
  simp only [Bool.and_eq_true,decide_eq_true_eq] at computed
  obtain ⟨⟨joinable,breaks⟩,valid⟩ := computed
  obtain ⟨kept,same⟩ := verdict_of_joined_lines [] read joinable
  exact ⟨source,read,breaks,kept,valid,same.trans valid⟩

/-- A conditional expression is told by its three parts, and a line continuation is counted as a fourth:
all parts are evaluated, even the one that never runs. -/
theorem broken_conditional_evaluates_all : ∃ source,
    Source.read "x = missing if False \\\n else 1\n" = .ok source ∧
    runStatically [] source = .undefinedReference "missing" 1 ∧
    runStatically [] {source with root := source.root.joined} = .valid := by
  have computed : (Source.read "x = missing if False \\\n else 1\n").toOption.any fun source =>
    decide (runStatically [] source = .undefinedReference "missing" 1) &&
      decide (runStatically [] {source with root := source.root.joined} = .valid) := by decide +kernel
  obtain ⟨source,read,computed⟩ := ok_of_any computed
  rw [Bool.and_eq_true,decide_eq_true_eq,decide_eq_true_eq] at computed
  exact ⟨source,read,computed.1,computed.2⟩

end Excerpt
