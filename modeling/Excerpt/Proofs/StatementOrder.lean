import Excerpt.Program.Reading
import Excerpt.Proofs.ScopeResolution
import Excerpt.Scope.Scan
import Excerpt.Syntax.Source
import Mathlib.Data.List.Perm.Basic

/-!
Statements in another order. A statement adds its findings to a scope whatever was found before it, and
a lookup asks only which names a scope binds and declares. So the order of the statements in the body of
a function decides in which order lookups in vain are listed, and nothing else.
-/
namespace Excerpt

/-- The scope that a finding is. -/
def Finding.inner? : Finding → Option Scope
  | .inner s => some s
  | _ => none

namespace Frame

/-- Frames of one kind with the same names, each listed in any order and any number of times. -/
structure Alike (f g : Frame) : Prop where
  kind : f.kind = g.kind
  bindings : ∀ n, n ∈ f.bindings ↔ n ∈ g.bindings
  globals : ∀ n, n ∈ f.globals ↔ n ∈ g.globals
  nonlocals : ∀ n, n ∈ f.nonlocals ↔ n ∈ g.nonlocals

theorem Alike.refl (f : Frame) : Alike f f := ⟨rfl,fun _ => .rfl,fun _ => .rfl,fun _ => .rfl⟩

theorem contains_congr {n : String} {xs ys : List String} (same : n ∈ xs ↔ n ∈ ys) :
    xs.contains n = ys.contains n := by
  rw [Bool.eq_iff_iff,List.contains_iff_mem,List.contains_iff_mem,same]

theorem Alike.binds {f g : Frame} (alike : Alike f g) (n : String) : f.binds n = g.binds n := by
  rw [Frame.binds,Frame.binds,contains_congr (alike.bindings n),contains_congr (alike.nonlocals n)]

theorem Alike.declares {f g : Frame} (alike : Alike f g) (n : String) :
    f.globals.contains n = g.globals.contains n := contains_congr (alike.globals n)

theorem enclosed_of_alike {n : String} {fs gs : List Frame} (alike : List.Forall₂ Alike fs gs) :
    enclosed n fs = enclosed n gs := by
  induction alike with
  | nil => rfl
  | cons first _ rest => rw [enclosed,enclosed,first.kind,first.declares,first.binds,rest]

theorem resolves_of_alike {isModuleName : String → Bool} {f g : Frame} {fs gs : List Frame}
    (own : Alike f g) (alike : List.Forall₂ Alike fs gs) (n : String) :
    f.resolves isModuleName fs n = g.resolves isModuleName gs n := by
  rw [resolves,resolves,own.declares,own.binds,own.kind,enclosed_of_alike alike]

theorem alike_self (fs : List Frame) : List.Forall₂ Alike fs fs :=
  List.forall₂_same.2 fun f _ => .refl f

end Frame

namespace Scope

section Around

variable (isModuleName : String → Bool)

mutual
/-- What a scope looks up in vain depends on the names of the frames around it only. -/
theorem unresolved_of_alike : ∀ (s : Scope) {fs gs : List Frame}, List.Forall₂ Frame.Alike fs gs →
    s.unresolved isModuleName fs = s.unresolved isModuleName gs
  | .mk k found,_,_,alike => by
    have inside := innerUnresolved_of_alike found (.cons (.refl (frame (.mk k found))) alike)
    simp only [unresolved,Frame.resolves_of_alike (.refl _) alike,inside]
theorem innerUnresolved_of_alike : ∀ (found : List Finding) {fs gs : List Frame},
    List.Forall₂ Frame.Alike fs gs →
      innerUnresolved isModuleName fs found = innerUnresolved isModuleName gs found
  | [],_,_,_ => rfl
  | .inner s :: found,_,_,alike => by
    rw [innerUnresolved,innerUnresolved,unresolved_of_alike s alike,
      innerUnresolved_of_alike found alike]
  | .bind _ :: found,_,_,alike | .walrus _ :: found,_,_,alike | .declareGlobal _ :: found,_,_,alike
  | .declareNonlocal _ :: found,_,_,alike | .load _ :: found,_,_,alike =>
    innerUnresolved_of_alike found alike
end

theorem innerUnresolved_eq_flatMap (around : List Frame) (found : List Finding) :
    innerUnresolved isModuleName around found =
      (found.filterMap Finding.inner?).flatMap (unresolved isModuleName around) := by
  induction found with
  | nil => rfl
  | cons f fs ih =>
    cases f with
    | inner s => simp [innerUnresolved,Finding.inner?,ih]
    | bind | walrus | declareGlobal | declareNonlocal | load => exact ih

end Around

theorem innerStores_eq_flatMap (found : List Finding) :
    innerStores found = (found.filterMap Finding.inner?).flatMap globalStores := by
  induction found with
  | nil => rfl
  | cons f fs ih =>
    cases f with
    | inner s => simp [innerStores,Finding.inner?,ih]
    | bind | walrus | declareGlobal | declareNonlocal | load => exact ih

section Order

variable {found other : List Finding} (perm : found.Perm other) (k : ScopeKind)
include perm

theorem alike_of_perm : (frame (.mk k found)).Alike (frame (.mk k other)) :=
  ⟨rfl,fun _ => (perm.filterMap _).mem_iff,fun _ => (perm.filterMap _).mem_iff,
    fun _ => (perm.filterMap _).mem_iff⟩

/-- The order of what is found in a scope decides on the order of the lookups in vain only. -/
theorem unresolved_perm (isModuleName : String → Bool) (around : List Frame) :
    ((Scope.mk k found).unresolved isModuleName around).Perm
      ((Scope.mk k other).unresolved isModuleName around) := by
  have own := alike_of_perm perm k
  have inner : innerUnresolved isModuleName (frame (.mk k other) :: around) found =
      innerUnresolved isModuleName (frame (.mk k found) :: around) found :=
    (innerUnresolved_of_alike isModuleName found (.cons own (Frame.alike_self around))).symm
  simp only [unresolved,Frame.resolves_of_alike own (Frame.alike_self around)]
  refine ((perm.filterMap _).filter _).append ?_
  rw [← inner,innerUnresolved_eq_flatMap,innerUnresolved_eq_flatMap]
  exact (perm.filterMap _).flatMap_right _

theorem mem_globalStores_of_perm {n : String} :
    n ∈ (Scope.mk k found).globalStores ↔ n ∈ (Scope.mk k other).globalStores := by
  have bound : (found.filterMap (Finding.bound? k)).contains n =
      (other.filterMap (Finding.bound? k)).contains n :=
    Frame.contains_congr (perm.filterMap _).mem_iff
  have inner : n ∈ innerStores found ↔ n ∈ innerStores other := by
    rw [innerStores_eq_flatMap,innerStores_eq_flatMap]
    exact ((perm.filterMap _).flatMap_right _).mem_iff
  simp only [globalStores,List.mem_append,List.mem_filter,(perm.filterMap _).mem_iff,bound,inner]

end Order

end Scope

namespace Program
open Excerpt.Syntax

theorem bodyFindings_eq_flatMap (lazy hinted : Bool) (body : List Stmt) :
    bodyFindings lazy hinted body = body.flatMap (Stmt.findings lazy hinted) := by
  induction body with
  | nil => rfl
  | cons s ss ih => rw [bodyFindings,ih,List.flatMap_cons]

theorem bodyOf_eq_map (ts : List Tree) : bodyOf ts = (ts.filter Tree.isNamed).map stmtOf := by
  induction ts with
  | nil => rfl
  | cons t ts ih =>
    rw [bodyOf,List.filter_cons]
    split
    · rw [List.map_cons,ih]
    · exact ih

/-- The body is that of the first child in its role. -/
theorem bodyOfRole_eq_find (f : Field) (ts : List Tree) : bodyOfRole f ts =
    ((ts.find? (·.field == some f)).map fun t => bodyOf t.children).getD [] := by
  induction ts with
  | nil => rfl
  | cons t ts ih =>
    obtain ⟨l,cs⟩ := t
    rw [bodyOfRole,List.find?_cons]
    by_cases role : l.field == some f
    · simp [role]
    · simp [role,ih]

theorem bodyOfRole_append {f : Field} {front back : List Tree} {block : Tree}
    (role : block.field = some f) (first : ∀ t ∈ front, t.field ≠ some f) :
    bodyOfRole f (front ++ block :: back) = bodyOf block.children := by
  have passed : front.find? (·.field == some f) = none :=
    List.find?_eq_none.2 fun t among => by simpa using first t among
  rw [bodyOfRole_eq_find,List.find?_append,passed]
  simp [role]

/-- The parameters do not stand in the body. -/
theorem parametersOfRole_withChildren {front back : List Tree} {block : Tree}
    (role : block.field = some .body) (statements : List Tree) :
    parametersOfRole (front ++ block.withChildren statements :: back) =
      parametersOfRole (front ++ block :: back) := by
  induction front with
  | nil =>
    obtain ⟨l,cs⟩ := block
    have other : l.field = some .body := role
    simp [Tree.withChildren,parametersOfRole,other]
  | cons t front ih =>
    obtain ⟨l,cs⟩ := t
    rw [List.cons_append,List.cons_append,parametersOfRole,parametersOfRole,ih]

/-- The scope of the function that a node defines. -/
def functionScopeOf (lazy : Bool) (t : Tree) : Scope :=
  functionScope lazy (parametersOfRole t.children) (bodyOfRole .body t.children)

/-- A function finds the same whatever the order of its statements. -/
theorem findings_of_reordered {lazy : Bool} {parameters : List Parameter} {body other : List Stmt}
    (perm : body.Perm other) :
    (targetFindings parameters ++ bodyFindings lazy false body).Perm
      (targetFindings parameters ++ bodyFindings lazy false other) := by
  rw [bodyFindings_eq_flatMap,bodyFindings_eq_flatMap]
  exact (perm.flatMap_right _).append_left _

end Program

open Excerpt.Syntax Excerpt.Program

/-- Names are resolved in a function whatever the order of the statements in its body. With the statements
in another order, each at its place in the text, the function binds the same names in the module, and
for every module it looks up the same names in vain, each as often and on the same lines. -/
theorem resolution_of_reordered_body (lazy : Bool) (l : Label) {front back : List Tree} {block : Tree}
    {statements : List Tree} (role : block.field = some .body)
    (first : ∀ t ∈ front, t.field ≠ some .body) (perm : block.children.Perm statements) :
    (∀ n, n ∈ (functionScopeOf lazy (.node l (front ++ block :: back))).globalStores ↔
      n ∈ (functionScopeOf lazy
        (.node l (front ++ block.withChildren statements :: back))).globalStores) ∧
    ∀ (isModuleName : String → Bool) (around : List Frame),
      ((functionScopeOf lazy (.node l (front ++ block :: back))).unresolved isModuleName around).Perm
        ((functionScopeOf lazy (.node l (front ++ block.withChildren statements :: back))).unresolved
          isModuleName around) := by
  have other : (block.withChildren statements).field = some .body := role
  have moved : (bodyOf block.children).Perm (bodyOf statements) := by
    rw [bodyOf_eq_map,bodyOf_eq_map]
    exact (perm.filter _).map _
  have found := @findings_of_reordered lazy (parametersOfRole (front ++ block :: back)) _ _ moved
  simp only [functionScopeOf,functionScope,Tree.children_node,parametersOfRole_withChildren role,
    bodyOfRole_append role first,bodyOfRole_append other first]
  exact ⟨fun n => Scope.mem_globalStores_of_perm found .function,
    Scope.unresolved_perm found .function⟩

/-- A name that is declared global behind its uses, and one that leaves a comprehension. With the
statements from the last to the first the function stores and misses the same names. -/
theorem resolution_of_reordered_body_reversed : ∃ (l : Label) (front : List Tree) (block root : Tree),
    readTree "def f(a):\n    use(CACHE,y)\n    [y := k for k in a]\n    CACHE = other\n    global CACHE\n" =
      some root ∧ Syntax.Tree.node l (front ++ [block]) ∈ root.preorder ∧ block.field = some .body ∧
    "CACHE" ∈ (functionScopeOf false
      (.node l (front ++ [block.withChildren block.children.reverse]))).globalStores ∧
    ((functionScopeOf false
      (.node l (front ++ [block.withChildren block.children.reverse]))).unresolved nowhere []).Perm
        [⟨"use",2⟩,⟨"CACHE",2⟩,⟨"other",4⟩] := by
  have computed : (readTree
      "def f(a):\n    use(CACHE,y)\n    [y := k for k in a]\n    CACHE = other\n    global CACHE\n").any
      fun root => root.preorder.any fun f => f.children.getLast?.any fun block =>
        block.field == some .body && f.children.dropLast.all (·.field != some .body) &&
          decide ("CACHE" ∈ (functionScopeOf false f).globalStores) &&
          decide ((functionScopeOf false f).unresolved nowhere [] =
            [⟨"use",2⟩,⟨"CACHE",2⟩,⟨"other",4⟩]) := by decide +kernel
  obtain ⟨root,read,found⟩ := (Option.any_eq_true _ _).1 computed
  obtain ⟨⟨l,cs⟩,inside,found⟩ := List.any_eq_true.1 found
  obtain ⟨block,last,checked⟩ := (Option.any_eq_true _ _).1 found
  simp only [Bool.and_eq_true,beq_iff_eq,List.all_eq_true,bne_iff_ne,decide_eq_true_eq] at checked
  obtain ⟨⟨⟨role,first⟩,stored⟩,missed⟩ := checked
  have split : cs = cs.dropLast ++ [block] := (List.dropLast_append_getLast? block last).symm
  rw [split] at inside stored missed
  obtain ⟨stores,misses⟩ := resolution_of_reordered_body false l role first block.children.reverse_perm.symm
  exact ⟨l,cs.dropLast,block,root,read,inside,role,(stores "CACHE").1 stored,
    missed ▸ (misses nowhere []).symm⟩

end Excerpt
