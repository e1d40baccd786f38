import Excerpt.Proofs.Forgetting
import Excerpt.Proofs.JoinedReading
import Excerpt.Proofs.NamePlaces

/-!
What conditions mean. A world gives objects to the names, and a condition evaluates to an object in it as
the language has it, operand by operand. Whatever a foreign object answers is left open.
-/
namespace Excerpt.Syntax

/-- The constructs that conditions are made of. -/
def Kind.isCondition : Kind → Bool
  | .trueLiteral | .falseLiteral | .noneLiteral | .integer | .identifier | .parenthesizedExpression
  | .notOperator | .booleanOperator | .comparisonOperator | .conditionalExpression | .tuple | .list
  | .set | .dictionary | .pair | .listSplat | .dictionarySplat | .comment => true
  | _ => false

namespace Tree

/-- Trees of nothing but conditions. -/
def IsCondition (t : Tree) : Prop := ∀ u ∈ t.preorder, ∀ k ∈ u.kind?, k.isCondition

instance (t : Tree) : Decidable t.IsCondition := inferInstanceAs (Decidable (∀ u ∈ _, ∀ k ∈ _, _))

/-- The constructs below a node that are no comments. -/
def items (t : Tree) : List Tree := t.children.filter isItem

def operators (t : Tree) : List Tree := t.children.filter (·.field == some .operators)

/-- Whether a node is a connective that its left side decides if that is `deciding`. -/
def Connects (t : Tree) (deciding : Bool) : Prop :=
  t.is .booleanOperator ∧ ∃ op, t.child? .operator = some op ∧
    op.isToken (if deciding then "or" else "and")

variable {t c : Tree}

theorem IsCondition.child (condition : t.IsCondition) (child : c ∈ t.children) : c.IsCondition :=
  fun u inside => condition u (mem_preorder_of_child child inside)

theorem IsCondition.own (condition : t.IsCondition) {k : Kind} (symbol : t.symbol = .named k) :
    k.isCondition := condition t (mem_preorder_self t) k (by rw [kind?,symbol]; rfl)

theorem mem_children_of_mem_items (item : c ∈ t.items) : c ∈ t.children := List.mem_of_mem_filter item

end Tree

end Excerpt.Syntax

namespace Excerpt.Execution
open Excerpt.Syntax Excerpt.Program

inductive Object
  | none
  | module (path : String)
  | boolean (value : Bool)
  | integer (value : Nat)
  /-- A tuple, list, set or dictionary. The items of a dictionary are pairs. -/
  | display (form : SequenceForm) (items : List Object)
  /-- Any other object. -/
  | foreign (id : Nat)

/-- The objects of the names, and the truth of the objects that are not built in. An object may have
none: to ask it fails. -/
structure World where
  names : String → Option Object
  truth : Nat → Option Bool

namespace Object

def truth (w : World) : Object → Option Bool
  | .none => some false
  | .module _ => some true
  | .boolean value => some value
  | .integer value => some (value != 0)
  | .display _ items => some (!items.isEmpty)
  | .foreign id => w.truth id

def isNone : Object → Bool
  | .none => true
  | _ => false

def isModule : Object → Bool
  | .module _ => true
  | _ => false

/-- Whether one of the objects is `None` and neither has a say in whether they are equal. -/
def isSettled (a b : Object) : Bool :=
  a.isNone && (b.isNone || b.isModule) || b.isNone && (a.isNone || a.isModule)

end Object

/-- The answer to a comparison of two objects. `None` is identical to itself only and equal to no module;
all other answers are open, also that an operator gives no boolean. -/
inductive Compares (op : Tree) (a b : Object) : Object → Prop
  | identical {same : Bool} (spelled : op.isToken "is")
      (fixed : a.isNone || b.isNone → same = (a.isNone && b.isNone)) : Compares op a b (.boolean same)
  | notIdentical {same : Bool} (spelled : op.isToken "is not")
      (fixed : a.isNone || b.isNone → same = (a.isNone && b.isNone)) : Compares op a b (.boolean !same)
  | equal {answer : Object} (spelled : op.isToken "==")
      (fixed : a.isSettled b → answer = .boolean (a.isNone && b.isNone)) : Compares op a b answer
  | notEqual {answer : Object} (spelled : op.isToken "!=")
      (fixed : a.isSettled b → answer = .boolean !(a.isNone && b.isNone)) : Compares op a b answer
  | other {answer : Object} (spelled : ∀ known ∈ ["is","is not","==","!="], op.isToken known = false) :
      Compares op a b answer

/-- The number that a literal stands for. Which one it is stays open for literals that are not decimal. -/
def Denotes (text : String) (o : Object) : Prop :=
  let digits := text.toList.filter (· != '_')
  digits ≠ [] → digits.all Char.isDigit → o = .integer (Nat.ofDigitChars 10 digits 0)

/-- The displays. -/
def displayForm : Kind → Option SequenceForm
  | .tuple => some .tuple
  | .list => some .list
  | .set => some .set
  | .dictionary => some .dictionary
  | _ => none

/-- What a display keeps of its items: tuples and lists all, sets and dictionaries one of those that are
equal. -/
def Keeps (form : SequenceForm) (items kept : List Object) : Prop :=
  if form = .tuple ∨ form = .list then kept = items else kept.Sublist items ∧ (kept = [] → items = [])

mutual
/-- The objects that a condition can evaluate to. If an operand fails, it evaluates to none. -/
inductive Evaluates (w : World) : Tree → Object → Prop
  | noneLiteral {t : Tree} (kind : t.is .noneLiteral) : Evaluates w t .none
  | trueLiteral {t : Tree} (kind : t.is .trueLiteral) : Evaluates w t (.boolean true)
  | falseLiteral {t : Tree} (kind : t.is .falseLiteral) : Evaluates w t (.boolean false)
  | integer {t : Tree} {o : Object} (kind : t.is .integer) (value : Denotes t.text o) :
      Evaluates w t o
  | identifier {t : Tree} {o : Object} (kind : t.is .identifier) (held : w.names t.text = some o) :
      Evaluates w t o
  | parentheses {t e : Tree} {o : Object} (kind : t.is .parenthesizedExpression) (item : t.items = [e])
      (inner : Evaluates w e o) : Evaluates w t o
  | negation {t e : Tree} {o : Object} {b : Bool} (kind : t.is .notOperator)
      (argument : t.child? .argument = some e) (inner : Evaluates w e o)
      (truth : o.truth w = some b) : Evaluates w t (.boolean !b)
  /-- The left side decides the connective. -/
  | decided {t l : Tree} {o : Object} {deciding : Bool} (connective : t.Connects deciding)
      (left : t.child? .left = some l) (first : Evaluates w l o) (truth : o.truth w = some deciding) :
      Evaluates w t o
  /-- The left side leaves the connective to the right side. -/
  | undecided {t l r : Tree} {o p : Object} {deciding : Bool} (connective : t.Connects deciding)
      (left : t.child? .left = some l) (first : Evaluates w l o) (truth : o.truth w = some !deciding)
      (right : t.child? .right = some r) (second : Evaluates w r p) : Evaluates w t p
  | consequence {t body condition alternative : Tree} {o p : Object}
      (kind : t.is .conditionalExpression) (parts : t.items = [body,condition,alternative])
      (test : Evaluates w condition o) (truth : o.truth w = some true) (branch : Evaluates w body p) :
      Evaluates w t p
  | alternative {t body condition alternative : Tree} {o p : Object}
      (kind : t.is .conditionalExpression) (parts : t.items = [body,condition,alternative])
      (test : Evaluates w condition o) (truth : o.truth w = some false)
      (branch : Evaluates w alternative p) : Evaluates w t p
  | comparison {t first : Tree} {rest : List Tree} {a answer : Object} (kind : t.is .comparisonOperator)
      (operands : t.items = first :: rest) (start : Evaluates w first a)
      (chain : Chains w a t.operators rest answer) : Evaluates w t answer
  | display {t : Tree} {k : Kind} {form : SequenceForm} {items kept : List Object}
      (symbol : t.symbol = .named k) (shape : displayForm k = some form)
      (filled : Fills w t.items items) (keeps : Keeps form items kept) :
      Evaluates w t (.display form kept)
/-- A comparison goes on from operand to operand as long as the answers are true. -/
inductive Chains (w : World) : Object → List Tree → List Tree → Object → Prop
  | last {a b answer : Object} {op e : Tree} (next : Evaluates w e b)
      (compares : Compares op a b answer) : Chains w a [op] [e] answer
  | stop {a b answer : Object} {op op' e : Tree} {ops es : List Tree} (next : Evaluates w e b)
      (compares : Compares op a b answer) (truth : answer.truth w = some false) :
      Chains w a (op :: op' :: ops) (e :: es) answer
  | goOn {a b answer answer' : Object} {op op' e : Tree} {ops es : List Tree} (next : Evaluates w e b)
      (compares : Compares op a b answer) (truth : answer.truth w = some true)
      (rest : Chains w b (op' :: ops) es answer') : Chains w a (op :: op' :: ops) (e :: es) answer'
/-- The items of a display. A splat takes over any number of them. -/
inductive Fills (w : World) : List Tree → List Object → Prop
  | nil : Fills w [] []
  | item {c : Tree} {cs : List Tree} {o : Object} {os : List Object} (value : Evaluates w c o)
      (rest : Fills w cs os) : Fills w (c :: cs) (o :: os)
  | pair {c k v : Tree} {cs : List Tree} {a b : Object} {os : List Object} (kind : c.is .pair)
      (key : c.child? .key = some k) (value : c.child? .value = some v) (first : Evaluates w k a)
      (second : Evaluates w v b) (rest : Fills w cs os) :
      Fills w (c :: cs) (.display .tuple [a,b] :: os)
  | splat {c e : Tree} {cs : List Tree} {o : Object} {taken os : List Object}
      (kind : c.is .listSplat ∨ c.is .dictionarySplat) (item : c.items = [e]) (value : Evaluates w e o)
      (rest : Fills w cs os) : Fills w (c :: cs) (taken ++ os)
end

end Excerpt.Execution
