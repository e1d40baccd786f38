import Excerpt.Proofs.ClassNames
import Excerpt.Proofs.ClassReads
import Excerpt.Proofs.ModulePath
import Mathlib.Data.List.Forall2

/-!
Classes in a listing, in an outline and by their names. All three see the same classes in the same
order, and a name leads to the first class that is called so.
-/
namespace Excerpt
open Excerpt.Text Excerpt.Syntax Excerpt.Execution

theorem bne_dot_of_undotted {name : String} (plain : Undotted name) :
    ∀ c ∈ name.toList.reverse, (c != '.') = true := by
  intro c member
  rw [bne_iff_ne]
  rintro rfl
  exact plain (List.mem_reverse.1 member)

theorem lastSegment_of_undotted {name : String} (plain : Undotted name) : lastSegment name = name := by
  rw [lastSegment,List.takeWhile_eq_self_iff.2 (bne_dot_of_undotted plain),List.reverse_reverse,
    String.ofList_toList]

theorem lastSegment_join (path : String) {name : String} (plain : Undotted name) :
    lastSegment (join path name) = name := by
  rw [lastSegment,toList_join,List.reverse_append,List.reverse_cons,List.append_assoc,
    List.takeWhile_append_of_pos (bne_dot_of_undotted plain)]
  simp

theorem undotted_of_worded {text : String} (worded : Worded text) : Undotted text := by
  intro dot
  have part := worded '.' dot
  revert part
  decide +kernel

/-- The decorators above a class. -/
def ownDecorators (t : Tree) : List Decorator :=
  if t.is .decoratedDefinition then decoratorsOf t.children else []

theorem unitsInDefinition_of_find {depth : Nat} {decorators : List Decorator} {d : Tree} :
    ∀ {cs : List Tree}, cs.find? (·.field == some .definition) = some d →
      unitsInDefinition depth decorators cs =
        programUnit depth decorators d (unitsInBody (depth + 1) d.children) ::
          unitsInBody (depth + 1) d.children
  | .node l ds :: cs,found => by
    rw [List.find?_cons] at found
    rw [unitsInDefinition]
    split at found
    · next role =>
      cases found
      rw [if_pos (by simpa using role)]
      rfl
    · next other =>
      rw [if_neg (by simpa using other)]
      exact unitsInDefinition_of_find found

/-- The units of a class begin with the class, below its decorators or not. -/
theorem unitsIn_class (depth : Nat) {t : Tree} (isClass : t.definition.is .classDefinition) :
    unitsIn depth t =
      programUnit depth (ownDecorators t) t.definition (unitsInBody (depth + 1) t.definition.children) ::
        unitsInBody (depth + 1) t.definition.children := by
  obtain ⟨l,cs⟩ := t
  by_cases below : (Syntax.Tree.node l cs).is .decoratedDefinition
  · have symbol : l.symbol = .named .decoratedDefinition := beq_iff_eq.1 below
    cases found : (Syntax.Tree.node l cs).child? .definition with
    | none =>
      rw [Tree.definition,if_pos below,found,Option.getD_none,Tree.is,Tree.symbol_node,symbol] at isClass
      cases isClass
    | some d =>
      have whole : (Syntax.Tree.node l cs).definition = d := by
        rw [Tree.definition,if_pos below,found,Option.getD_some]
      rw [unitsIn,symbol,ownDecorators,if_pos below,whole]
      exact unitsInDefinition_of_find found
  · have whole : (Syntax.Tree.node l cs).definition = .node l cs := by rw [Tree.definition,if_neg below]
    have symbol : l.symbol = .named .classDefinition := by
      rw [whole] at isClass
      exact beq_iff_eq.1 isClass
    rw [unitsIn,symbol,ownDecorators,if_neg below,whole]
    rfl

/-- An entry of an outline that begins with the class at a node. -/
structure ClassOutline.Begins (t : Tree) (entry : ClassOutline) : Prop where
  name : entry.name = className t
  units : ∃ inside, entry.units = programUnit 0 (ownDecorators t) t.definition inside :: inside
  kind : ∀ u ∈ entry.units.head?, u.kind = .classUnit ∧ u.depth = 0 ∧ u.name = className t
  line : ∀ u ∈ entry.units.head?, u.headerLine = t.definition.line ∧ entry.line = u.anchorLine

theorem classOutline_of_class {t : Tree} (isClass : t.definition.is .classDefinition) :
    ∃ entry, classOutline? t = some entry ∧ entry.Begins t := by
  have kind : unitKind t.definition = .classUnit := by rw [unitKind,if_pos isClass]
  rw [classOutline?,unitsIn_class 0 isClass]
  refine ⟨_,rfl,rfl,⟨_,rfl⟩,?_,?_⟩
  · rintro u ⟨⟩
    exact ⟨kind,rfl,rfl⟩
  · rintro u ⟨⟩
    exact ⟨rfl,rfl⟩

theorem begins_filterMap {ts : List Tree} (classes : ∀ t ∈ ts, t.definition.is .classDefinition) :
    List.Forall₂ ClassOutline.Begins ts (ts.filterMap classOutline?) := by
  induction ts with
  | nil => exact .nil
  | cons t ts ih =>
    obtain ⟨entry,outlined,begins⟩ := classOutline_of_class (classes t (by simp))
    rw [List.filterMap_cons_some outlined]
    exact .cons begins (ih fun u member => classes u (by simp [member]))

theorem map_name_of_begins {ts : List Tree} {entries : List ClassOutline}
    (begins : List.Forall₂ ClassOutline.Begins ts entries) :
    entries.map ClassOutline.name = ts.map className := by
  induction begins with
  | nil => rfl
  | cons first _ ih => rw [List.map_cons,List.map_cons,first.name,ih]

theorem isClass_of_mem_classNodes {source : Source} {t : Tree} (member : t ∈ source.classNodes) :
    t.definition.is .classDefinition := (List.mem_filter.1 member).2

/-- In a source that was read, classes are called by words. -/
theorem undotted_of_mem_classNames {text : String} {source : Source}
    (read : Source.read text = .ok source) {name : String} (listed : name ∈ source.classNames) :
    Undotted name := by
  obtain ⟨t,member,rfl⟩ := List.mem_map.1 listed
  have among : t ∈ source.root.children :=
    Tree.mem_children_of_mem_named (List.mem_filter.1 member).1
  obtain ⟨n,found,-,worded⟩ := titled_of_readTree (Source.readTree_of_read read) t among
    (isClass_of_mem_classNodes member)
  rw [className,Tree.childText,found]
  exact undotted_of_worded worded

/-- The first of the classes that have the name of a class. -/
def Source.IsFirst (s : Source) (name : String) (t : Tree) : Prop :=
  ∃ before later, s.classNodes = before ++ t :: later ∧ className t = name ∧
    ∀ u ∈ before, className u ≠ name

theorem Source.findClass?_eq_some {s : Source} {name : String} {t : Tree} :
    s.findClass? name = some t ↔ s.IsFirst (lastSegment name) t := by
  rw [findClass?,List.find?_eq_some_iff_append]
  constructor
  · rintro ⟨called,before,later,whole,others⟩
    exact ⟨before,later,whole,beq_iff_eq.1 called,fun u member => by simpa using others u member⟩
  · rintro ⟨before,later,whole,called,others⟩
    exact ⟨beq_iff_eq.2 called,before,later,whole,fun u member => by simpa using others u member⟩

theorem Source.findClass?_eq_none {s : Source} {name : String} :
    s.findClass? name = none ↔ lastSegment name ∉ s.classNames := by
  simp [findClass?,classNames,List.find?_eq_none]

theorem Source.exists_isFirst {s : Source} {name : String} (listed : lastSegment name ∈ s.classNames) :
    ∃ t, s.IsFirst (lastSegment name) t := by
  cases found : s.findClass? name with
  | none => exact absurd listed (findClass?_eq_none.1 found)
  | some t => exact ⟨t,findClass?_eq_some.1 found⟩

/-- A class with the imports that bind names in use in it. -/
def Source.unitText (s : Source) (t : Tree) : String :=
  extractionText (selectImports s.imports (usage t)) t.text

theorem Source.extract_of_isFirst {s : Source} {name : String} {t : Tree}
    (first : s.IsFirst (lastSegment name) t) :
    s.extract name = .ok ⟨s.unitText t,usage t,selectImports s.imports (usage t)⟩ := by
  rw [extract,findClass?_eq_some.2 first]
  rfl

theorem Source.extract_eq_notFound {s : Source} {name : String} :
    s.extract name = .error (.classNotFound name) ↔ lastSegment name ∉ s.classNames := by
  rw [← findClass?_eq_none,extract]
  cases s.findClass? name <;> simp

/-- Trimming cuts off blanks and nothing else. -/
theorem trimEnd_append (text : String) :
    ∃ blanks : String, trimEnd text ++ blanks = text ∧ ∀ c ∈ blanks.toList, isBlank c := by
  refine ⟨String.ofList (text.toList.reverse.takeWhile isBlank).reverse,?_,fun c member => ?_⟩
  · apply String.toList_injective
    rw [trimEnd,dropEndWhile,String.toList_append,String.toList_ofList,String.toList_ofList,
      ← List.reverse_append,List.takeWhile_append_dropWhile,List.reverse_reverse]
  · rw [String.toList_ofList,List.mem_reverse] at member
    exact List.mem_takeWhile_imp member

/-- Listing, outlining and extracting see the same classes of a source that was read. An outline has
one entry for each class, which begins with the class itself. A class is found by the last segment of
a name exactly if it is listed; it is the first that is called so, and its text, up to blanks at its
end, ends what is extracted. -/
theorem listing_outline_extraction {text : String} {source : Source}
    (read : Source.read text = .ok source) :
    source.classNames = source.outline.map ClassOutline.name ∧
    List.Forall₂ ClassOutline.Begins source.classNodes source.outline ∧
    (∀ name, source.extract name = .error (.classNotFound name) ↔
      lastSegment name ∉ source.classNames) ∧
    (∀ name, lastSegment name ∈ source.classNames → ∃ t out header body blanks,
      source.IsFirst (lastSegment name) t ∧ source.extract name = .ok out ∧
      out.text = header ++ body ++ "\n" ∧ body ++ blanks = t.text ∧ ∀ c ∈ blanks.toList, isBlank c) ∧
    ∀ name ∈ source.classNames, ∀ path,
      lastSegment name = name ∧ lastSegment (join path name) = name ∧
      ∃ out, source.extract name = .ok out ∧ source.extract (join path name) = .ok out := by
  have begins : List.Forall₂ ClassOutline.Begins source.classNodes source.outline :=
    begins_filterMap fun t => isClass_of_mem_classNodes
  refine ⟨(map_name_of_begins begins).symm,begins,fun name => Source.extract_eq_notFound,
    fun name listed => ?_,fun name listed path => ?_⟩
  · obtain ⟨t,first⟩ := Source.exists_isFirst listed
    obtain ⟨blanks,whole,blank⟩ := trimEnd_append t.text
    exact ⟨t,_,_,trimEnd t.text,blanks,first,Source.extract_of_isFirst first,rfl,whole,blank⟩
  · have plain := undotted_of_mem_classNames read listed
    have own := lastSegment_of_undotted plain
    have behind := lastSegment_join path plain
    obtain ⟨t,first⟩ := Source.exists_isFirst (own.symm ▸ listed)
    refine ⟨own,behind,_,Source.extract_of_isFirst first,Source.extract_of_isFirst ?_⟩
    rwa [behind,← own]

/-- A class below a decorator, and two classes of one name. -/
theorem listing_outline_extraction_twice : ∃ source,
    Source.read "import os\n@os.x\nclass A:\n    y = 1 # end  \nclass B: pass\nclass A(B): pass\n" = .ok source ∧
      source.outline.map ClassOutline.name = ["A","B","A"] ∧
      source.extract "pkg.C" = .error (.classNotFound "pkg.C") ∧
      ∃ out, source.extract "A" = .ok out ∧ source.extract "pkg.A" = .ok out := by
  obtain ⟨source,read,names⟩ := @ok_of_any _ _
    (Source.read "import os\n@os.x\nclass A:\n    y = 1 # end  \nclass B: pass\nclass A(B): pass\n")
    (fun source => source.classNames == ["A","B","A"]) (by decide +kernel)
  have listed : source.classNames = ["A","B","A"] := beq_iff_eq.1 names
  obtain ⟨same,-,missing,-,found⟩ := listing_outline_extraction read
  refine ⟨source,read,same.symm.trans listed,(missing "pkg.C").2 ?_,?_⟩
  · rw [listed]
    decide +kernel
  · obtain ⟨-,-,out,own,behind⟩ := found "A" (by simp [listed]) "pkg"
    exact ⟨out,own,behind⟩

end Excerpt
