import Excerpt.Program.Reading
import Excerpt.Usage

/-!
Where nodes of a tree may stand. Every node of a source stands in a place that allows its symbol,
and the place and the symbol say in which places its children stand. The rules are coarse: they
keep statements, clauses and definitions apart from what can be evaluated.
-/
namespace Excerpt.Syntax

namespace Kind

def isExtra : Kind → Bool
  | .comment | .lineContinuation => true
  | _ => false

/-- Statements that hold no other statements. -/
def isSimple : Kind → Bool
  | .importStatement | .importFromStatement | .futureImportStatement | .printStatement
  | .assertStatement | .expressionStatement | .returnStatement | .deleteStatement
  | .raiseStatement | .passStatement | .breakStatement | .continueStatement | .globalStatement
  | .nonlocalStatement | .execStatement | .typeAliasStatement => true
  | _ => false

/-- Statements that hold other statements. -/
def isCompound : Kind → Bool
  | .ifStatement | .forStatement | .whileStatement | .tryStatement | .withStatement
  | .matchStatement | .classDefinition | .functionDefinition | .decoratedDefinition => true
  | _ => false

/-- Parts of a statement that hold other statements. -/
def isClause : Kind → Bool
  | .elifClause | .elseClause | .exceptClause | .exceptGroupClause | .finallyClause => true
  | _ => false

/-- Clauses whose body plays no role. -/
def isHandler : Kind → Bool
  | .exceptClause | .exceptGroupClause | .finallyClause => true
  | _ => false

theorem isHandler_eq_false {k : Kind} (other : k.isClause = false) : k.isHandler = false := by
  cases k <;> cases other <;> rfl

/-- Kinds that are never evaluated as a whole. -/
def isStructure (k : Kind) : Bool :=
  k.isSimple || k.isCompound || k.isClause || k == .block || k == .caseClause || k == .program

/-- What the pattern of a case is made of. -/
def isPattern : Kind → Bool
  | .casePattern | .asPattern | .unionPattern | .listPattern | .tuplePattern | .dictPattern
  | .keywordPattern | .splatPattern | .classPattern | .complexPattern | .dottedName
  | .identifier | .trueLiteral | .falseLiteral | .noneLiteral | .integer | .float | .string
  | .concatenatedString => true
  | _ => false

end Kind

inductive Place
  /-- Below a token. -/
  | token
  /-- Wherever something is evaluated or assigned to. -/
  | operand
  | pattern
  | parameters
  | arguments
  | hint
  | condition
  | statement
  | definition
  | block
  | clause
  /-- Directly below a compound statement, in no role. -/
  | part
  /-- Directly below a clause, in no role, or anywhere below a handler. -/
  | interior
  /-- The body of a `match`. -/
  | cases
  | caseItem
deriving DecidableEq, Repr

namespace Place

/-- Whether a construct of the given kind may stand in a place. -/
def allowsKind : Place → Kind → Bool
  | .token,k => k.isExtra
  | .operand,k => !k.isStructure
  | .pattern,k => k.isExtra || k.isPattern
  | .parameters,k => k == .parameters || k == .lambdaParameters
  | .arguments,k => k == .argumentList
  | .hint,k => k.isExtra || k == .typeExpression
  | .condition,k => k == .ifClause
  | .statement,k => k.isExtra || k.isSimple || k.isCompound
  | .definition,k => k == .classDefinition || k == .functionDefinition
  | .block,k => k == .block
  | .clause,k => k.isClause
  | .part,k => !k.isStructure || k.isClause
  | .interior,k => !k.isStructure || k == .block
  | .cases,k => k == .block
  | .caseItem,k => k.isExtra || k == .caseClause

/-- Places in which tokens may stand too. -/
def allowsTokens : Place → Bool
  | .token | .operand | .pattern | .hint | .statement | .part | .interior | .caseItem => true
  | _ => false

def allows (p : Place) : Symbol → Bool
  | .named k => p.allowsKind k
  | .token _ => p.allowsTokens

/-- The places below what can be evaluated. -/
def belowOperand : Option Field → Place
  | some .parameters => .parameters
  | _ => .operand

def belowCompound : Option Field → Place
  | some .body | some .consequence => .block
  | some .alternative => .clause
  | some .definition => .definition
  | some .superclasses => .arguments
  | some .parameters => .parameters
  | some _ => .operand
  | none => .part

def belowMatch : Option Field → Place
  | some .body | some .consequence => .cases
  | some _ => .operand
  | none => .part

def belowClause : Option Field → Place
  | some .body | some .consequence => .block
  | some _ => .operand
  | none => .interior

def belowCase : Option Field → Place
  | some .body | some .consequence => .block
  | some _ => .condition
  | none => .pattern

/-- The place of a child below a construct that stands in a place. -/
def belowKind (p : Place) (k : Kind) (role : Option Field) : Place :=
  if p = .token then .token
  else if p = .pattern then
    if k == .string || k == .concatenatedString then belowOperand role else .pattern
  else if p = .cases then .caseItem
  else if k == .block || k == .program then .statement
  else if k == .caseClause then belowCase role
  else if k.isHandler then .interior
  else if k.isClause then belowClause role
  else if k == .matchStatement then belowMatch role
  else if k.isCompound then belowCompound role
  else if k == .typeAliasStatement then .hint
  else belowOperand role

/-- The place of a child in the given role. -/
def below (p : Place) (symbol : Symbol) (role : Option Field) : Place :=
  match symbol with
  | .named k => p.belowKind k role
  | .token _ => .token

theorem below_operand {k : Kind} (allowed : allows .operand (.named k)) :
    below .operand (.named k) = belowOperand := by
  cases k <;> cases allowed <;> rfl

theorem below_clause {p : Place} {k : Kind} (clause : k.isClause) (other : k.isHandler = false)
    (allowed : p.allowsKind k) : p.belowKind k = belowClause := by
  cases k <;> cases clause <;> cases other <;> cases p <;> cases allowed <;> rfl

theorem below_handler {p : Place} {k : Kind} (handler : k.isHandler) (allowed : p.allowsKind k)
    (f : Option Field) : p.belowKind k f = .interior := by
  cases k <;> cases handler <;> cases p <;> cases allowed <;> rfl

theorem below_compound {p : Place} {k : Kind} (compound : k.isCompound)
    (other : (k == .matchStatement) = false) (allowed : p.allowsKind k) :
    p.belowKind k = belowCompound := by
  cases k <;> cases compound <;> cases other <;> cases p <;> cases allowed <;> rfl

theorem below_ordinary {p : Place} {k : Kind} (ordinary : k.isStructure = false)
    (pattern : p ≠ .pattern) (token : p ≠ .token) (allowed : p.allowsKind k) :
    p.belowKind k = belowOperand := by
  simp only [Kind.isStructure,Bool.or_eq_false_iff] at ordinary
  obtain ⟨⟨⟨⟨⟨simple,compound⟩,clause⟩,block⟩,case_⟩,program⟩ := ordinary
  have cases_ : p ≠ .cases := by
    rintro rfl
    simp [allowsKind,block] at allowed
  have choice : (k == .matchStatement) = false :=
    beq_eq_false_iff_ne.2 fun same => by simp [same,Kind.isCompound] at compound
  have typeAlias : (k == .typeAliasStatement) = false :=
    beq_eq_false_iff_ne.2 fun same => by simp [same,Kind.isSimple] at simple
  have handler := Kind.isHandler_eq_false clause
  funext role
  simp [belowKind,pattern,token,cases_,block,program,case_,handler,clause,choice,compound,typeAlias]

theorem belowCompound_ne (f : Option Field) :
    belowCompound f ≠ .pattern ∧ belowCompound f ≠ .token := by
  unfold belowCompound
  split <;> simp

theorem belowCase_cases (f : Option Field) :
    belowCase f = .block ∨ belowCase f = .condition ∨ belowCase f = .pattern := by
  unfold belowCase
  split <;> simp

theorem below_block {p : Place} (cases_ : p ≠ .cases) (allowed : p.allowsKind .block)
    (f : Option Field) : p.belowKind .block f = .statement := by
  cases p with
  | cases => exact absurd rfl cases_
  | block | interior => rfl
  | _ => cases allowed

end Place

mutual
/-- Whether a tree fits into a place. -/
def Tree.fits (p : Place) : Tree → Bool
  | .node l cs => p.allows l.symbol && fitAll (p.below l.symbol) cs
/-- Whether trees fit into the places that are given by their roles. -/
def fitAll (place : Option Field → Place) : List Tree → Bool
  | [] => true
  | .node l cs :: ts => Tree.fits (place l.field) (.node l cs) && fitAll place ts
end

theorem fitAll_iff {place : Option Field → Place} {ts : List Tree} :
    fitAll place ts ↔ ∀ t ∈ ts, t.fits (place t.field) := by
  induction ts with
  | nil => simp [fitAll]
  | cons t ts ih =>
    obtain ⟨l,cs⟩ := t
    simp only [fitAll,Bool.and_eq_true,ih,List.forall_mem_cons]
    rfl

theorem Tree.fits_iff {p : Place} {t : Tree} :
    t.fits p ↔ p.allows t.symbol ∧ ∀ c ∈ t.children, c.fits (p.below t.symbol c.field) := by
  obtain ⟨l,cs⟩ := t
  simp only [Tree.fits,Bool.and_eq_true,fitAll_iff]
  rfl

/-- What stands in the place of parameters could be evaluated, too. -/
theorem fits_operand_of_parameters {t : Tree} (placed : t.fits .parameters) : t.fits .operand := by
  obtain ⟨allowed,below⟩ := Tree.fits_iff.1 placed
  refine Tree.fits_iff.2 ?_
  cases symbol : t.symbol with
  | token spelling => simp [symbol,Place.allows,Place.allowsTokens] at allowed
  | named k =>
    simp only [symbol,Place.allows,Place.allowsKind,Bool.or_eq_true,beq_iff_eq] at allowed
    simp only [symbol] at below
    rcases allowed with rfl | rfl <;> exact ⟨rfl,below⟩

end Excerpt.Syntax
