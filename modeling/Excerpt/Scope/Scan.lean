import Excerpt.Program.Statement
import Excerpt.Scope.Basic

/-!
What a piece of a program contributes to the scope it stands in. Bodies of functions, lambdas,
comprehensions and classes make scopes of their own.
-/
namespace Excerpt.Program

/-- Whether an expression is read or assigned to. -/
inductive Role
  | read
  | bind
deriving DecidableEq, Repr

mutual
/-- The findings of an expression. Hints of assignments count only where they are evaluated. -/
def Expr.findings (hinted : Bool) (role : Role) : Expr → List Finding
  | .name id line =>
    match role with
    | .read => [.load ⟨id,line⟩]
    | .bind => [.bind id]
  | .none | .truth _ | .integer _ | .blank => []
  | .group items => findingsAll hinted .read items
  | .parens items => findingsAll hinted role items
  | .sequence form items => findingsAll hinted (if form.isTarget then role else .read) items
  | .splat double items => findingsAll hinted (if double then .read else role) items
  | .member object _ => object.findings hinted .read
  | .call function arguments => function.findings hinted .read ++ arguments.findings hinted .read
  | .subscript value indices => value.findings hinted .read ++ findingsAll hinted .read indices
  | .keyword _ value => value.findings hinted .read
  | .walrus name value => .walrus name :: value.findings hinted .read
  | .aliased value target => value.findings hinted .read ++ target.findings hinted .bind
  | .conditional body condition alternative =>
    body.findings hinted .read ++ condition.findings hinted .read ++
      alternative.findings hinted .read
  | .conjunction left right => left.findings hinted .read ++ right.findings hinted .read
  | .disjunction left right => left.findings hinted .read ++ right.findings hinted .read
  | .negation argument => argument.findings hinted .read
  | .comparison operands _ => findingsAll hinted .read operands
  | .binary left right => left.findings hinted .read ++ right.findings hinted .read
  | .lambda parameters body =>
    defaultFindings hinted parameters ++
      [.inner (.mk .lambda (targetFindings parameters ++ body.findings false .read))]
  | .comprehension parts =>
    let scope := Scope.mk .comprehension (partFindings false parts)
    firstFindings hinted parts ++ scope.escaping.map .walrus ++ [.inner scope]
  | .suspension _ items => findingsAll hinted .read items
  | .assignment target hint value =>
    target.findings hinted .bind ++ (if hinted then findingsOf hinted hint else []) ++
      findingsOf hinted value
  | .augmented target value =>
    target.findings hinted .bind ++ target.findings hinted .read ++ value.findings hinted .read
def findingsAll (hinted : Bool) (role : Role) : List Expr → List Finding
  | [] => []
  | e :: es => e.findings hinted role ++ findingsAll hinted role es
def findingsOf (hinted : Bool) : Option Expr → List Finding
  | none => []
  | some e => e.findings hinted .read
/-- The names that parameters bind. -/
def targetFindings : List Parameter → List Finding
  | [] => []
  | p :: ps => p.targetFindings ++ targetFindings ps
def Parameter.targetFindings : Parameter → List Finding
  | .mk target _ _ => boundFindings target
def boundFindings : Option Expr → List Finding
  | none => []
  | some e => e.findings false .bind
/-- The findings of default values, which are evaluated outside the function. -/
def defaultFindings (hinted : Bool) : List Parameter → List Finding
  | [] => []
  | p :: ps => p.defaultFindings hinted ++ defaultFindings hinted ps
def Parameter.defaultFindings (hinted : Bool) : Parameter → List Finding
  | .mk _ _ default => findingsOf hinted default
/-- The findings of the first iterables of a comprehension, which are evaluated outside it. -/
def firstFindings (hinted : Bool) : List Part → List Finding
  | [] => []
  | .clause _ iterables :: _ => findingsAll hinted .read iterables
  | .element _ :: ps => firstFindings hinted ps
/-- The findings inside a comprehension. The iterables of the first clause are left out. -/
def partFindings (seen : Bool) : List Part → List Finding
  | [] => []
  | .clause target iterables :: ps =>
    target.findings false .bind ++ (if seen then findingsAll false .read iterables else []) ++
      partFindings true ps
  | .element value :: ps => value.findings false .read ++ partFindings seen ps
end

/-- The scope of a lambda. -/
def lambdaScope (parameters : List Parameter) (body : Expr) : Scope :=
  .mk .lambda (targetFindings parameters ++ body.findings false .read)

def comprehensionScope (parts : List Part) : Scope := .mk .comprehension (partFindings false parts)

/-- The hint and default of a parameter, as far as they are evaluated with the definition. -/
def Parameter.definitionTime (lazy : Bool) : Parameter → List Expr
  | .mk _ hint default => (if lazy then [] else hint.toList) ++ default.toList

/-- What is evaluated when a function is defined. -/
def definitionTime (lazy : Bool) (parameters : List Parameter) (hint : Option Expr) : List Expr :=
  parameters.flatMap (·.definitionTime lazy) ++ if lazy then [] else hint.toList

def PatternName.finding : PatternName → Finding
  | .capture name => .bind name
  | .load name line => .load ⟨name,line⟩

def Decoration.findings (hinted : Bool) (d : Decoration) : List Finding :=
  findingsAll hinted .read d.items

mutual
/-- The findings of a statement in a scope where hints count or not. With lazy annotations they
count nowhere. -/
def Stmt.findings (lazy hinted : Bool) : Stmt → List Finding
  | .skip => []
  | .evaluate items => findingsAll hinted .read items
  | .importing statement => statement.boundNames.map .bind
  | .define decorations definition =>
    decorations.flatMap (·.findings hinted) ++ definition.findings lazy hinted
  | .branch branches => branchFindings lazy hinted branches
  | .forLoop target iterable body otherwise =>
    target.findings hinted .bind ++ iterable.findings hinted .read ++
      bodyFindings lazy hinted body ++ bodyFindings lazy hinted otherwise
  | .whileLoop condition body otherwise =>
    condition.findings hinted .read ++ bodyFindings lazy hinted body ++
      bodyFindings lazy hinted otherwise
  | .attempt body handlers otherwise final =>
    bodyFindings lazy hinted body ++ handlerFindings lazy hinted handlers ++
      bodyFindings lazy hinted otherwise ++ bodyFindings lazy hinted final
  | .within items body => findingsAll hinted .read items ++ bodyFindings lazy hinted body
  | .choose subjects cases => findingsAll hinted .read subjects ++ caseFindings lazy hinted cases
  | .delete targets => findingsAll hinted .bind targets
  | .raising items _ => findingsAll hinted .read items
  | .result _ items => findingsAll hinted .read items
  | .globals names => names.map .declareGlobal
  | .nonlocals names => names.map .declareNonlocal
  | .typeAlias _ target value =>
    (match target with
      | some e => e.findings hinted .bind
      | none => []) ++ findingsOf hinted value
def bodyFindings (lazy hinted : Bool) : List Stmt → List Finding
  | [] => []
  | s :: ss => s.findings lazy hinted ++ bodyFindings lazy hinted ss
def Definition.findings (lazy hinted : Bool) : Definition → List Finding
  | .classDef name bases body =>
    findingsAll hinted .read bases ++
      [.bind name,.inner (.mk .classBody (bodyFindings lazy (!lazy) body))]
  | .function name parameters hint body =>
    findingsAll hinted .read (definitionTime lazy parameters hint) ++
      [.bind name,.inner (.mk .function (targetFindings parameters ++ bodyFindings lazy false body))]
def branchFindings (lazy hinted : Bool) : List Branch → List Finding
  | [] => []
  | .mk condition body :: bs =>
    findingsOf hinted condition ++ bodyFindings lazy hinted body ++ branchFindings lazy hinted bs
def handlerFindings (lazy hinted : Bool) : List Handler → List Finding
  | [] => []
  | .mk items body :: hs =>
    findingsAll hinted .read items ++ bodyFindings lazy hinted body ++
      handlerFindings lazy hinted hs
def caseFindings (lazy hinted : Bool) : List Case → List Finding
  | [] => []
  | .mk patterns condition body :: cs =>
    patterns.map PatternName.finding ++ findingsAll hinted .read condition ++
      bodyFindings lazy hinted body ++ caseFindings lazy hinted cs
end

/-- The scope of a function. -/
def functionScope (lazy : Bool) (parameters : List Parameter) (body : List Stmt) : Scope :=
  .mk .function (targetFindings parameters ++ bodyFindings lazy false body)

end Excerpt.Program
