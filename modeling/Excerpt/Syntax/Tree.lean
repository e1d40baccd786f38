import Excerpt.Syntax.Kind
import Excerpt.Text.Position

/-!
Trees of Python source. Every node keeps the place where it starts and the text that it covers,
so a tree can be read without the source it came from.
-/
namespace Excerpt.Syntax
open Excerpt.Text

structure Label where
  symbol : Symbol
  field : Option Field
  start : Position
  text : String
deriving DecidableEq, Repr, Inhabited

inductive Tree
  | node (label : Label) (children : List Tree)

namespace Tree

instance : Inhabited Tree := ⟨.node default []⟩

def label : Tree → Label
  | .node l _ => l

def children : Tree → List Tree
  | .node _ cs => cs

def symbol (t : Tree) : Symbol := t.label.symbol

def field (t : Tree) : Option Field := t.label.field

def start (t : Tree) : Position := t.label.start

def text (t : Tree) : String := t.label.text

@[simp] theorem label_node (l : Label) (cs : List Tree) : (node l cs).label = l := rfl

@[simp] theorem children_node (l : Label) (cs : List Tree) : (node l cs).children = cs := rfl

@[simp] theorem symbol_node (l : Label) (cs : List Tree) : (node l cs).symbol = l.symbol := rfl

@[simp] theorem field_node (l : Label) (cs : List Tree) : (node l cs).field = l.field := rfl

@[simp] theorem text_node (l : Label) (cs : List Tree) : (node l cs).text = l.text := rfl

def startByte (t : Tree) : Nat := t.start.byte

def endByte (t : Tree) : Nat := t.start.byte + t.text.utf8ByteSize

/-- The one-based line on which the node starts. -/
def line (t : Tree) : Nat := t.start.line

def is (t : Tree) (kind : Kind) : Bool := t.symbol == .named kind

def isToken (t : Tree) (spelling : String) : Bool := t.symbol == .token spelling

def isNamed (t : Tree) : Bool :=
  match t.symbol with
  | .named _ => true
  | .token _ => false

def kind? (t : Tree) : Option Kind :=
  match t.symbol with
  | .named k => some k
  | .token _ => none

def withField (t : Tree) (f : Field) : Tree := .node {t.label with field := some f} t.children

def withKind (t : Tree) (k : Kind) : Tree := .node {t.label with symbol := .named k} t.children

def withChildren (t : Tree) (cs : List Tree) : Tree := .node t.label cs

/-- The children that are constructs, comments and line continuations among them. -/
def namedChildren (t : Tree) : List Tree := t.children.filter isNamed

/-- The first child in the role `f`. -/
def child? (t : Tree) (f : Field) : Option Tree := t.children.find? (·.field == some f)

theorem sizeOf_children_lt (t : Tree) : sizeOf t.children < sizeOf t := by
  cases t
  simp only [children,node.sizeOf_spec]
  omega

theorem sizeOf_lt_of_mem {t u : Tree} (member : u ∈ t.children) : sizeOf u < sizeOf t :=
  Nat.lt_trans (List.sizeOf_lt_of_mem member) t.sizeOf_children_lt

theorem mem_children_of_child? {t u : Tree} {f : Field} (found : t.child? f = some u) :
    u ∈ t.children := List.mem_of_find?_eq_some found

theorem mem_children_of_mem_named {t u : Tree} (member : u ∈ t.namedChildren) :
    u ∈ t.children := (List.mem_filter.1 member).1

mutual
/-- The node itself, then what lies below it, in the order of the source. -/
def preorder : Tree → List Tree
  | .node l cs => .node l cs :: preorderAll cs
def preorderAll : List Tree → List Tree
  | [] => []
  | t :: ts => preorder t ++ preorderAll ts
end

end Tree

end Excerpt.Syntax
