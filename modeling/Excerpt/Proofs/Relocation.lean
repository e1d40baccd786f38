import Excerpt.Import
import Excerpt.Outline
import Excerpt.Usage
import Mathlib.Data.List.DropRight

/-!
Trees that stand elsewhere in a text. A tree and its copy have the same constructs in the same
roles; what may differ is where they start and, at the end of a text, trailing white space. Names,
classes and import statements read the same from both.
-/
namespace Excerpt.Syntax
open Excerpt.Text

mutual
/-- Trees of one shape whose labels are related node by node. -/
def Tree.alike (same : Label → Label → Bool) : Tree → Tree → Bool
  | .node l cs,.node m ds =>
    l.symbol == m.symbol && l.field == m.field && same l m && alikeAll same cs ds
def alikeAll (same : Label → Label → Bool) : List Tree → List Tree → Bool
  | [],[] => true
  | t :: ts,u :: us => t.alike same u && alikeAll same ts us
  | _,_ => false
end

/-- The same text, as far behind `later` as it was behind `before`. -/
def Label.shifts (before later : Nat) (l m : Label) : Bool :=
  l.text == m.text && l.start.byte + later == m.start.byte + before

/-- The same text up to white space at its end. Names stay as they are. -/
def Label.crops (l m : Label) : Bool :=
  l.text == m.text ||
    l.symbol != .named .identifier && l.field != some .name && m.text == trimEnd l.text

namespace Tree

/-- The same tree at another place. -/
def shifted (t u : Tree) : Bool := t.alike (Label.shifts t.startByte u.startByte) u

/-- The same tree but for white space at its end. -/
def cropped (t u : Tree) : Bool := t.alike Label.crops u

variable {same : Label → Label → Bool} {t u : Tree}

theorem alike_iff : t.alike same u ↔
    t.symbol = u.symbol ∧ t.field = u.field ∧ same t.label u.label ∧
      alikeAll same t.children u.children := by
  cases t
  cases u
  simp [alike,and_assoc]

theorem symbol_of_alike (related : t.alike same u) : t.symbol = u.symbol := (alike_iff.1 related).1

theorem field_of_alike (related : t.alike same u) : t.field = u.field := (alike_iff.1 related).2.1

theorem label_of_alike (related : t.alike same u) : same t.label u.label :=
  (alike_iff.1 related).2.2.1

theorem children_of_alike (related : t.alike same u) : alikeAll same t.children u.children :=
  (alike_iff.1 related).2.2.2

theorem is_of_alike (related : t.alike same u) (k : Kind) : t.is k = u.is k := by
  rw [is,is,symbol_of_alike related]

theorem isNamed_of_alike (related : t.alike same u) : t.isNamed = u.isNamed := by
  rw [isNamed,isNamed,symbol_of_alike related]

theorem kind_of_alike (related : t.alike same u) : t.kind? = u.kind? := by
  rw [kind?,kind?,symbol_of_alike related]

end Tree

theorem alikeAll_cons {same : Label → Label → Bool} {t u : Tree} {ts us : List Tree} :
    alikeAll same (t :: ts) (u :: us) ↔ t.alike same u ∧ alikeAll same ts us := by
  rw [alikeAll,Bool.and_eq_true]

/-- What is chosen by a test that alike trees answer alike is alike. -/
theorem alikeAll_filter {same : Label → Label → Bool} {p q : Tree → Bool}
    (agree : ∀ t u, t.alike same u → p t = q u) :
    ∀ {ts us : List Tree}, alikeAll same ts us → alikeAll same (ts.filter p) (us.filter q)
  | [],[],_ => rfl
  | t :: ts,u :: us,related => by
    obtain ⟨head,tail⟩ := alikeAll_cons.1 related
    have rest := alikeAll_filter agree tail
    rw [List.filter_cons,List.filter_cons,← agree t u head]
    split
    · exact alikeAll_cons.2 ⟨head,rest⟩
    · exact rest

/-- Alike trees give the same results where a function reads the same from alike trees. -/
theorem filterMap_of_alikeAll {α : Type} {same : Label → Label → Bool} {f : Tree → Option α}
    (agree : ∀ t u, t.alike same u → f t = f u) :
    ∀ {ts us : List Tree}, alikeAll same ts us → ts.filterMap f = us.filterMap f
  | [],[],_ => rfl
  | t :: ts,u :: us,related => by
    obtain ⟨head,tail⟩ := alikeAll_cons.1 related
    rw [List.filterMap_cons,List.filterMap_cons,agree t u head,filterMap_of_alikeAll agree tail]

theorem any_of_alikeAll {same : Label → Label → Bool} {p : Tree → Bool}
    (agree : ∀ t u, t.alike same u → p t = p u) :
    ∀ {ts us : List Tree}, alikeAll same ts us → ts.any p = us.any p
  | [],[],_ => rfl
  | t :: ts,u :: us,related => by
    obtain ⟨head,tail⟩ := alikeAll_cons.1 related
    rw [List.any_cons,List.any_cons,agree t u head,any_of_alikeAll agree tail]

theorem find_of_alikeAll {same : Label → Label → Bool} (f : Field) :
    ∀ {ts us : List Tree}, alikeAll same ts us →
      (ts.find? (·.field == some f) = none ∧ us.find? (·.field == some f) = none) ∨
      ∃ t u, ts.find? (·.field == some f) = some t ∧ us.find? (·.field == some f) = some u ∧
        t.alike same u
  | [],[],_ => .inl ⟨rfl,rfl⟩
  | t :: ts,u :: us,related => by
    obtain ⟨head,tail⟩ := alikeAll_cons.1 related
    rw [List.find?_cons,List.find?_cons,← Tree.field_of_alike head]
    split
    · exact .inr ⟨t,u,rfl,rfl,head⟩
    · exact find_of_alikeAll f tail

namespace Tree

variable {same : Label → Label → Bool} {t u : Tree}

theorem namedChildren_of_alike (related : t.alike same u) :
    alikeAll same t.namedChildren u.namedChildren :=
  alikeAll_filter (fun _ _ => isNamed_of_alike) (children_of_alike related)

/-- Both trees have a child in a role, and the children are alike, or neither has one. -/
theorem child_of_alike (related : t.alike same u) (f : Field) :
    (t.child? f = none ∧ u.child? f = none) ∨
    ∃ a b, t.child? f = some a ∧ u.child? f = some b ∧ a.alike same b :=
  find_of_alikeAll f (children_of_alike related)

theorem definition_of_alike (related : t.alike same u) : t.definition.alike same u.definition := by
  rw [definition,definition,← is_of_alike related]
  split
  · rcases child_of_alike related .definition with ⟨left,right⟩ | ⟨a,b,left,right,below⟩
    · simpa [left,right] using related
    · simpa [left,right] using below
  · exact related

/-- Roles whose text the relation keeps are read alike. -/
theorem childText_of_alike {f : Field} (related : t.alike same u)
    (keeps : ∀ a b : Tree, a.field = some f → a.alike same b → a.text = b.text) :
    t.childText f = u.childText f := by
  rw [childText,childText]
  rcases child_of_alike related f with ⟨left,right⟩ | ⟨a,b,left,right,below⟩
  · rw [left,right]
  · have role : a.field = some f := by simpa using List.find?_some left
    rw [left,right,Option.map_some,Option.map_some,keeps a b role below]

end Tree

end Excerpt.Syntax

namespace Excerpt
open Excerpt.Text Excerpt.Syntax

-- The induction follows the traversal that collects names: the role and the kind of every child
-- decide whether it counts, and both are the same in the copy.
mutual
/-- White space at the end holds no names. -/
theorem namesIn_of_cropped : ∀ {t u : Tree}, t.cropped u → namesIn t = namesIn u
  | .node l cs,.node m ds,related => by
    obtain ⟨symbol,_,label,below⟩ := Tree.alike_iff.1 related
    simp only [Tree.symbol_node,Tree.label_node,Tree.children_node] at symbol label below
    rw [namesIn,namesIn,← symbol]
    cases kind : l.symbol with
    | token => exact namesInAll_of_cropped below
    | named k =>
      simp only
      split
      · rename_i identifier
        have role : l.symbol = .named .identifier := by rw [kind,eq_of_beq identifier]
        have text : l.text = m.text := by simpa [Label.crops,role] using label
        rw [text]
      · rw [namesInObject_of_cropped below,namesInFirst_of_cropped below,
          namesInUnnamed_of_cropped below,namesInAll_of_cropped below]
theorem namesInAll_of_cropped :
    ∀ {ts us : List Tree}, alikeAll Label.crops ts us → namesInAll ts = namesInAll us
  | [],[],_ => rfl
  | t :: ts,u :: us,related => by
    obtain ⟨head,tail⟩ := alikeAll_cons.1 related
    rw [namesInAll,namesInAll,Tree.isNamed_of_alike head,namesIn_of_cropped head,
      namesInAll_of_cropped tail]
theorem namesInObject_of_cropped :
    ∀ {ts us : List Tree}, alikeAll Label.crops ts us → namesInObject ts = namesInObject us
  | [],[],_ => rfl
  | t :: ts,u :: us,related => by
    obtain ⟨head,tail⟩ := alikeAll_cons.1 related
    rw [namesInObject,namesInObject,Tree.field_of_alike head,namesIn_of_cropped head,
      namesInObject_of_cropped tail]
theorem namesInFirst_of_cropped :
    ∀ {ts us : List Tree}, alikeAll Label.crops ts us → namesInFirst ts = namesInFirst us
  | [],[],_ => rfl
  | t :: ts,u :: us,related => by
    obtain ⟨head,tail⟩ := alikeAll_cons.1 related
    rw [namesInFirst,namesInFirst,Tree.isNamed_of_alike head,namesIn_of_cropped head,
      namesInFirst_of_cropped tail]
theorem namesInUnnamed_of_cropped :
    ∀ {ts us : List Tree}, alikeAll Label.crops ts us → namesInUnnamed ts = namesInUnnamed us
  | [],[],_ => rfl
  | t :: ts,u :: us,related => by
    obtain ⟨head,tail⟩ := alikeAll_cons.1 related
    rw [namesInUnnamed,namesInUnnamed,Tree.field_of_alike head,Tree.isNamed_of_alike head,
      namesIn_of_cropped head,namesInAll_of_cropped tail,namesInUnnamed_of_cropped tail]
end

theorem usage_of_cropped {t u : Tree} (related : t.cropped u) : usage t = usage u := by
  rw [usage,usage,namesIn_of_cropped related]

theorem className_of_cropped {t u : Tree} (related : t.cropped u) : className t = className u := by
  have text : t.definition.childText .name = u.definition.childText .name := by
    refine Tree.childText_of_alike (Tree.definition_of_alike related) ?_
    intro a b role below
    have label := Tree.label_of_alike below
    have field : a.label.field = some .name := role
    exact (by simpa [Label.crops,field] using label : a.label.text = b.label.text)
  rw [className,className,text]

theorem trimEnd_trimEnd (s : String) : trimEnd (trimEnd s) = trimEnd s := by
  have twice : dropEndWhile isBlank (dropEndWhile isBlank s.toList) = dropEndWhile isBlank s.toList :=
    List.rdropWhile_idempotent isBlank s.toList
  rw [trimEnd,trimEnd,String.toList_ofList,twice]

/-- White space behind a class is all that a copy of it may lack. -/
theorem trimEnd_of_cropped {t u : Tree} (related : t.cropped u) :
    trimEnd u.text = trimEnd t.text := by
  have label := Tree.label_of_alike related
  simp only [Label.crops,Bool.or_eq_true,Bool.and_eq_true,beq_iff_eq] at label
  rcases label with same | ⟨_,trimmed⟩
  · exact congrArg trimEnd same.symm
  · exact (congrArg trimEnd trimmed).trans (trimEnd_trimEnd t.text)

end Excerpt
