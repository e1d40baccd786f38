import Excerpt.Proofs.CollectedUnits
import Excerpt.Skeleton

/-!
The layout of skeletons. Where each definition and each decorator starts on a row of its own, nothing is
lost: the skeleton lists them in the order of the source, and each stands as deep as the definitions
around it demand.
-/
namespace Excerpt
open Excerpt.Text Excerpt.Syntax

section Insertion

variable {f : Fragment} {fs before : List Fragment}

/-- A fragment behind all others goes to the end. -/
theorem insertFragment_of_behind (behind : ∀ g ∈ fs, g.line < f.line) :
    insertFragment f fs = fs ++ [f] := by
  induction fs with
  | nil => rfl
  | cons g fs ih =>
    have later := behind g List.mem_cons_self
    rw [insertFragment,if_neg (by omega),if_neg (by omega),List.cons_append,
      ih fun g member => behind g (.tail _ member)]

theorem foldl_insertFragment (ordered : (before ++ fs).Pairwise fun f g => f.line < g.line) :
    fs.foldl (fun gs f => insertFragment f gs) before = before ++ fs := by
  induction fs generalizing before with
  | nil => simp
  | cons f fs ih =>
    have behind : ∀ g ∈ before, g.line < f.line := fun g member =>
      (List.pairwise_append.1 ordered).2.2 g member f List.mem_cons_self
    rw [List.foldl_cons,insertFragment_of_behind behind,ih (by simpa using ordered)]
    simp

/-- Fragments of growing lines are laid out as they come. -/
theorem layOut_of_increasing {units : List ProgramUnit}
    (increasing : ((units.flatMap fragmentsOf).map Fragment.line).Pairwise (· < ·)) :
    layOut units = units.flatMap fragmentsOf :=
  @foldl_insertFragment _ [] (List.pairwise_map.1 increasing)

end Insertion

section Lines

/-- Nodes for which a skeleton has a fragment. -/
def isMarked (t : Tree) : Bool := t.isDefinition || t.is .decorator

/-- The lines on which definitions and decorators start. -/
def markedLines (ts : List Tree) : List Nat := ((Tree.preorderAll ts).filter isMarked).map Tree.line

def fragmentLines (units : List ProgramUnit) : List Nat := (units.flatMap fragmentsOf).map Fragment.line

@[simp] theorem fragmentLines_append (us vs : List ProgramUnit) :
    fragmentLines (us ++ vs) = fragmentLines us ++ fragmentLines vs := by
  simp [fragmentLines]

@[simp] theorem fragmentLines_cons (u : ProgramUnit) (us : List ProgramUnit) :
    fragmentLines (u :: us) = u.decorators.map Decorator.line ++ u.headerLine :: fragmentLines us := by
  simp [fragmentLines,fragmentsOf,Function.comp_def]

theorem markedLines_cons (t : Tree) (ts : List Tree) : markedLines (t :: ts) =
    (if isMarked t then [t.line] else []) ++ markedLines t.children ++ markedLines ts := by
  simp only [markedLines,Tree.preorderAll,Tree.preorder_eq,List.filter_append,List.filter_cons]
  split <;> simp

theorem markedLines_append (ts us : List Tree) :
    markedLines (ts ++ us) = markedLines ts ++ markedLines us := by
  induction ts with
  | nil => rfl
  | cons t ts ih => simp [markedLines_cons,ih]

variable {d : Nat}

theorem fragmentLines_unitsInAll {ts : List Tree}
    (each : ∀ c ∈ ts, (fragmentLines (unitsIn d c)).Sublist (markedLines [c])) :
    (fragmentLines (unitsInAll d ts)).Sublist (markedLines ts) := by
  induction ts with
  | nil => exact .slnil
  | cons t ts ih =>
    rw [unitsInAll,fragmentLines_append,← List.singleton_append,markedLines_append]
    refine .append ?_ (ih fun c child => each c (.tail t child))
    split
    · exact each t List.mem_cons_self
    · exact List.nil_sublist _

theorem fragmentLines_unitsInBody {cs : List Tree}
    (each : ∀ b ∈ cs, (fragmentLines (unitsInAll d b.children)).Sublist (markedLines b.children)) :
    (fragmentLines (unitsInBody d cs)).Sublist (markedLines cs) := by
  induction cs with
  | nil => exact .slnil
  | cons b cs ih =>
    obtain ⟨l,ds⟩ := b
    rw [unitsInBody,markedLines_cons]
    split
    · refine List.sublist_append_of_sublist_left (List.sublist_append_of_sublist_right ?_)
      exact each _ List.mem_cons_self
    · exact List.sublist_append_of_sublist_right (ih fun b child => each b (.tail _ child))

/-- The decorators in front of a definition start on marked lines. -/
theorem decoratorLines_sublist (ts : List Tree) :
    ((decoratorsOf ts).map Decorator.line).Sublist (markedLines ts) := by
  induction ts with
  | nil => exact .slnil
  | cons t ts ih =>
    rw [markedLines_cons,decoratorsOf,List.filter_cons]
    split
    · next decorator =>
      have own : isMarked t := by simp [isMarked,decorator]
      rw [if_pos own,List.append_assoc]
      exact .cons_cons t.line (ih.trans (List.sublist_append_right _ _))
    · exact List.sublist_append_of_sublist_right ih

/-- Fragments follow each other as definitions and decorators do in the tree. -/
theorem fragmentLines_sublist {t : Tree} (well : t.WellDecorated) (d : Nat) :
    (fragmentLines (unitsIn d t)).Sublist (markedLines [t]) := by
  obtain ⟨shape,inner⟩ := Tree.wellDecorated_iff.1 well
  have own : markedLines [t] = (if isMarked t then [t.line] else []) ++ markedLines t.children := by
    rw [markedLines_cons]
    exact List.append_nil _
  have body {b : Tree} (smaller : sizeOf b < sizeOf t) (wellBody : b.WellDecorated) :
      (fragmentLines (unitsInAll (d + 1) b.children)).Sublist (markedLines b.children) :=
    fragmentLines_unitsInAll fun c child =>
      have := Nat.lt_trans (Tree.sizeOf_lt_of_mem child) smaller
      fragmentLines_sublist ((Tree.wellDecorated_iff.1 wellBody).2 c child) (d + 1)
  cases defined : t.isDefinition with
  | true =>
    rw [unitsIn_definition defined,own,if_pos (by simp [isMarked,defined]),fragmentLines_cons]
    refine .cons_cons _ (fragmentLines_unitsInBody fun b child => ?_)
    exact body (Tree.sizeOf_lt_of_mem child) (inner b child)
  | false =>
    rw [own]
    refine List.sublist_append_of_sublist_right ?_
    cases decorated : t.is .decoratedDefinition with
    | false =>
      rw [unitsIn_other defined decorated]
      exact fragmentLines_unitsInAll fun c child =>
        have := Tree.sizeOf_lt_of_mem child
        fragmentLines_sublist (inner c child) d
    | true =>
      obtain ⟨front,x,children,role,isDef,plain⟩ := shape decorated
      have child : x ∈ t.children := by simp [children]
      have smaller := Tree.sizeOf_lt_of_mem child
      have wellInside := (Tree.wellDecorated_iff.1 (inner x child)).2
      have undecorated : x.is .decorator = false := by
        rcases Bool.or_eq_true _ _ ▸ isDef with isClass | isFunction
        · rw [Tree.is,beq_iff_eq.1 isClass]
          rfl
        · rw [Tree.is,beq_iff_eq.1 isFunction]
          rfl
      have decorators : ownDecorators t = decoratorsOf front := by
        simp [ownDecorators,decorated,children,decoratorsOf,undecorated]
      rw [unitsIn_decorated decorated children role fun c member => (plain c member).1,
        fragmentLines_cons,children,markedLines_append,markedLines_cons,
        if_pos (by simp [isMarked,isDef])]
      refine .append (decorators ▸ decoratorLines_sublist front) (.cons_cons _ ?_)
      refine List.sublist_append_of_sublist_left (fragmentLines_unitsInBody fun b part => ?_)
      exact body (Nat.lt_trans (Tree.sizeOf_lt_of_mem part) smaller) (wellInside b part)
termination_by sizeOf t

/-- Rows do not go back in the order of the tree. -/
def InSourceOrder (root : Tree) : Prop := root.preorder.Pairwise fun a b => a.start.row ≤ b.start.row

/-- No two definitions or decorators start on the same row. -/
def StartsApart (root : Tree) : Prop := ((root.preorder.filter isMarked).map (·.start.row)).Nodup

instance (root : Tree) : Decidable (InSourceOrder root) := inferInstanceAs (Decidable (List.Pairwise _ _))

instance (root : Tree) : Decidable (StartsApart root) := inferInstanceAs (Decidable (List.Nodup _))

theorem layOut_units {root : Tree} (well : root.WellDecorated) (ordered : InSourceOrder root)
    (apart : StartsApart root) : layOut (unitsIn 0 root) = (unitsIn 0 root).flatMap fragmentsOf := by
  have growing : (markedLines [root]).Pairwise (· < ·) := by
    have kept := (ordered.filter isMarked).and (List.pairwise_map.1 apart)
    rw [markedLines,Tree.preorderAll,Tree.preorderAll,List.append_nil]
    refine List.pairwise_map.2 (kept.imp fun both => ?_)
    exact Nat.succ_lt_succ (Nat.lt_of_le_of_ne both.1 both.2)
  exact layOut_of_increasing (growing.sublist (fragmentLines_sublist well 0))

end Lines

/-- A part of a skeleton: one of the decorators of a definition or, without one, its stub. -/
structure Piece where
  owner : Site
  decorator : Option Decorator

namespace Piece

/-- The pieces of a definition. -/
def ofSite (s : Site) : List Piece := s.decorators.map (⟨s,some ·⟩) ++ [⟨s,none⟩]

/-- A definition without its body. The docstring stays, and `pass` stands where the definition is no class
or nothing is defined in it. -/
def stub (u : ProgramUnit) : String :=
  let inner := "\n" ++ indentation (u.depth + 1)
  u.header ++ (u.docstring.map (inner ++ ·)).getD "" ++
    if u.kind != .classUnit || u.nested == 0 then inner ++ "pass" else ""

def text (sites : List Site) (p : Piece) : String :=
  indentation (p.owner.depth sites) ++
    (p.decorator.map Decorator.text).getD (stub (p.owner.unit 0 sites))

theorem stub_of_passes {u : ProgramUnit} (passes : u.kind != .classUnit || u.nested == 0) :
    ∃ front, stub u = front ++ "\n" ++ indentation (u.depth + 1) ++ "pass" := by
  refine ⟨u.header ++ (u.docstring.map ("\n" ++ indentation (u.depth + 1) ++ ·)).getD "",?_⟩
  simp [stub,passes,String.append_assoc]

theorem map_text (sites : List Site) : (sites.flatMap ofSite).map (text sites) =
    ((sites.map (Site.unit 0 sites)).flatMap fragmentsOf).map Fragment.text := by
  rw [List.map_flatMap,List.map_flatMap,List.flatMap_map]
  refine congrArg (List.flatMap · sites) (funext fun s => ?_)
  have decorators : (s.unit 0 sites).decorators = s.decorators := rfl
  simp [ofSite,fragmentsOf,text,stub,unitText,decorators,Function.comp_def,String.append_assoc]

section Places

variable {sites : List Site} {before after own rest : List Piece} {p : Piece} {s : Site}

/-- A place among the pieces is a place among those of one definition. -/
theorem split (whole : sites.flatMap ofSite = before ++ p :: after) :
    ∃ front back own rest, sites = front ++ p.owner :: back ∧ ofSite p.owner = own ++ p :: rest ∧
      after = rest ++ back.flatMap ofSite := by
  induction sites generalizing before with
  | nil => simp at whole
  | cons s sites ih =>
    rw [List.flatMap_cons,List.append_eq_append_iff] at whole
    rcases whole with ⟨part,-,behind⟩ | ⟨part,pieces,behind⟩
    · obtain ⟨front,back,own,rest,rfl,pieces,tail⟩ := ih behind
      exact ⟨s :: front,back,own,rest,rfl,pieces,tail⟩
    · cases part with
      | nil =>
        obtain ⟨front,back,own,rest,rfl,pieces,tail⟩ := @ih [] behind.symm
        exact ⟨s :: front,back,own,rest,rfl,pieces,tail⟩
      | cons q part =>
        obtain ⟨rfl,rfl⟩ := List.cons.inj behind
        have member : p ∈ ofSite s := by simp [pieces]
        have owner : p.owner = s := by
          simp only [ofSite,List.mem_append,List.mem_map,List.mem_singleton] at member
          rcases member with ⟨d,-,rfl⟩ | rfl <;> rfl
        exact ⟨[],sites,before,part,by rw [owner]; rfl,by rw [owner,pieces],rfl⟩

theorem next_of_decorator {d : Decorator} (pieces : ofSite s = own ++ p :: rest)
    (decorator : p.decorator = some d) :
    ∃ ds ds' rest', s.decorators = ds ++ d :: ds' ∧ rest = ⟨s,ds'.head?⟩ :: rest' := by
  rw [ofSite,List.append_eq_append_iff] at pieces
  rcases pieces with ⟨part,-,last⟩ | ⟨part,front,back⟩
  · have stub : p ∈ [(⟨s,none⟩ : Piece)] := by simp [last]
    rw [List.mem_singleton.1 stub] at decorator
    cases decorator
  · cases part with
    | nil =>
      have stub : p = ⟨s,none⟩ := (List.cons.inj back).1
      rw [stub] at decorator
      cases decorator
    | cons q part =>
      obtain ⟨rfl,rfl⟩ := List.cons.inj back
      obtain ⟨ds,es,whole,-,rear⟩ := List.map_eq_append_iff.1 front
      obtain ⟨e,ds',rfl,rfl,rfl⟩ := List.map_eq_cons_iff.1 rear
      cases decorator
      cases ds' with
      | nil => exact ⟨ds,[],[],whole,rfl⟩
      | cons e ds' => exact ⟨ds,e :: ds',_,whole,rfl⟩

theorem rest_of_stub (pieces : ofSite s = own ++ p :: rest) (stub : p.decorator = none) : rest = [] := by
  rw [ofSite,List.append_eq_append_iff] at pieces
  rcases pieces with ⟨part,-,last⟩ | ⟨part,front,back⟩
  · cases part with
    | nil => exact (List.cons.inj last).2.symm
    | cons q part => simp at last
  · cases part with
    | nil => exact (List.cons.inj back).2
    | cons q part =>
      obtain ⟨rfl,-⟩ := List.cons.inj back
      have member : p ∈ s.decorators.map (⟨s,some ·⟩) := by simp [front]
      obtain ⟨d,-,rfl⟩ := List.mem_map.1 member
      cases stub

end Places

end Piece

/-- A text that lists the pieces of the definitions, with a blank line between any two. -/
structure LaidOut (sites : List Site) (text : String) : Prop where
  text_eq : text = "\n\n".intercalate ((sites.flatMap Piece.ofSite).map (Piece.text sites)) ++ "\n"
  /-- A decorator is followed by the next one of its definition, the last by the stub. -/
  decorators : ∀ before p after d, sites.flatMap Piece.ofSite = before ++ p :: after →
    p.decorator = some d → ∃ ds ds' rest, p.owner.decorators = ds ++ d :: ds' ∧
      after = ⟨p.owner,ds'.head?⟩ :: rest
  /-- A stub ends with `pass`, or the first definition inside it follows. -/
  stubs : ∀ before p after, sites.flatMap Piece.ofSite = before ++ p :: after → p.decorator = none →
    (∃ front, p.text sites = front ++ "\n" ++ indentation (p.owner.depth sites + 1) ++ "pass") ∨
    (p.owner.unit 0 sites).kind = .classUnit ∧ ∃ q rest, after = q :: rest ∧
      p.owner.EnclosesNext sites q.owner ∧
      (∀ r ∈ sites, p.owner.Encloses r → r = q.owner ∨ q.owner.path < r.path) ∧
      q.owner.depth sites = p.owner.depth sites + 1
  start : ∀ s ∈ sites.head?, s.depth sites = 0
  steps : ∀ before a b after, sites = before ++ a :: b :: after →
    b.depth sites ≤ a.depth sites + 1

theorem Piece.exists_head (s : Site) (rest : List Piece) :
    ∃ q rest', Piece.ofSite s ++ rest = q :: rest' ∧ q.owner = s := by
  unfold Piece.ofSite
  cases s.decorators with
  | nil => exact ⟨_,_,rfl,rfl⟩
  | cons d ds => exact ⟨_,_,rfl,rfl⟩

theorem laidOut_of_inOrder {units : List ProgramUnit} {sites : List Site}
    (ordered : Site.InOrder sites) (listed : units = sites.map (Site.unit 0 sites))
    (lines : layOut units = units.flatMap fragmentsOf) : LaidOut sites (renderSkeleton units) := by
  refine ⟨by rw [Piece.map_text,← listed,← lines]; rfl,fun before p after d whole decorator => ?_,
    fun before p after whole stub => ?_,fun s first => ?_,fun before a b after whole => ?_⟩
  · obtain ⟨front,back,own,rest,-,pieces,rfl⟩ := Piece.split whole
    obtain ⟨ds,ds',rest',split,rfl⟩ := Piece.next_of_decorator pieces decorator
    exact ⟨ds,ds',_,split,rfl⟩
  · obtain ⟨front,back,own,rest,all,pieces,rfl⟩ := Piece.split whole
    obtain rfl := Piece.rest_of_stub pieces stub
    by_cases passes : ((p.owner.unit 0 sites).kind != .classUnit) || (p.owner.unit 0 sites).nested == 0
    · obtain ⟨text,ends⟩ := Piece.stub_of_passes passes
      refine .inl ⟨indentation (p.owner.depth sites) ++ text,?_⟩
      rw [Piece.text,stub,Option.map_none,Option.getD_none,ends,Site.depth_unit,Nat.zero_add]
      simp only [String.append_assoc]
    · simp only [Bool.or_eq_true,bne_iff_ne,beq_iff_eq,not_or,Classical.not_not] at passes
      obtain ⟨isClass,nested⟩ := passes
      rw [all] at ordered nested
      obtain ⟨c,rest,rfl,next,first,depth⟩ := Site.first_of_nested ordered nested
      obtain ⟨q,rest',pieces',rfl⟩ := Piece.exists_head c (rest.flatMap Piece.ofSite)
      rw [← all] at next first depth
      exact .inr ⟨isClass,q,rest',pieces',next,first,depth⟩
  · cases sites with
    | nil => cases first
    | cons r sites =>
      cases first
      exact Site.depth_head ordered
  · rw [whole] at ordered ⊢
    exact Site.depth_le_succ ordered

/-- The skeleton of a source whose definitions and decorators start on rows of their own, in the order of
the tree, loses none of them. It lists them as suites: a decorator above what it decorates, and below
each header something that is indented by one step more. Every tree that is read is a program with its
decorators in place. -/
theorem skeleton_laid_out :
    (∀ text source, Source.read text = .ok source →
      source.root.is .program ∧ source.root.WellDecorated) ∧
    ∀ source : Source, source.root.is .program → source.root.WellDecorated →
      InSourceOrder source.root → StartsApart source.root →
      ∃ sites, Surveys source.root sites source.units ∧
        (sites = [] ∧ source.skeleton = .error .noProgramUnits ∨
          sites ≠ [] ∧ ∃ skeleton, source.skeleton = .ok skeleton ∧ LaidOut sites skeleton.text) := by
  refine ⟨fun text source read => ?_,fun source program well ordered apart => ?_⟩
  · have parsed := Source.readTree_of_read read
    have symbol := (placed_of_readTree parsed).1
    exact ⟨by simp [Tree.is,symbol],wellDecorated_of_readTree parsed⟩
  · have symbol : source.root.symbol = .named .program := beq_iff_eq.1 program
    have units : source.units = unitsInAll 0 source.root.children :=
      unitsIn_other (by simp [Tree.isDefinition,Tree.is,symbol]) (by simp [Tree.is,symbol])
    have surveys := units ▸ surveys_of_wellDecorated well
    refine ⟨_,surveys,?_⟩
    have lines : layOut source.units = source.units.flatMap fragmentsOf :=
      layOut_units well ordered apart
    generalize (metAmong none 0 source.root.children).filter (·.node.isDefinition) = sites at surveys
    have listed := surveys.units_eq
    cases sites with
    | nil =>
      refine .inl ⟨rfl,?_⟩
      rw [Source.skeleton,listed]
      rfl
    | cons s sites =>
      have nonempty : source.units.isEmpty = false := by rw [listed]; rfl
      obtain ⟨skeleton,made,text⟩ : ∃ skeleton, source.skeleton = .ok skeleton ∧
          skeleton.text = renderSkeleton source.units := by
        rw [Source.skeleton,nonempty]
        exact ⟨_,rfl,rfl⟩
      refine .inr ⟨List.cons_ne_nil s sites,skeleton,made,?_⟩
      rw [text]
      exact laidOut_of_inOrder surveys.ordered listed lines

/-- A decorated class with a docstring and two definitions inside, the first below a condition. -/
theorem skeleton_laid_out_suites : ∃ source,
    Source.read "@a\n@b(1)\nclass A(X):\n    '''doc'''\n    if x:\n        def f(self): return 1\n    @c\n    class B: y = 1\n" = .ok source ∧
    InSourceOrder source.root ∧ StartsApart source.root ∧
    ∃ sites skeleton, Surveys source.root sites source.units ∧ source.skeleton = .ok skeleton ∧
      LaidOut sites skeleton.text ∧ skeleton.text =
        "@a\n\n@b(1)\n\nclass A(X):\n    '''doc'''\n\n    def f(self):\n        pass\n\n    @c\n\n    class B:\n        pass\n" := by
  obtain ⟨source,read,facts⟩ := @Execution.ok_of_any _ _
    (Source.read "@a\n@b(1)\nclass A(X):\n    '''doc'''\n    if x:\n        def f(self): return 1\n    @c\n    class B: y = 1\n")
    (fun source => decide (InSourceOrder source.root) && decide (StartsApart source.root) &&
      source.skeleton.toOption.any (·.text ==
        "@a\n\n@b(1)\n\nclass A(X):\n    '''doc'''\n\n    def f(self):\n        pass\n\n    @c\n\n    class B:\n        pass\n"))
    (by decide +kernel)
  simp only [Bool.and_eq_true,decide_eq_true_eq] at facts
  obtain ⟨⟨ordered,apart⟩,written⟩ := facts
  obtain ⟨program,well⟩ := skeleton_laid_out.1 _ source read
  obtain ⟨out,made,text⟩ := Execution.ok_of_any written
  obtain ⟨sites,surveys,⟨-,none⟩ | ⟨-,skeleton,same,laid⟩⟩ :=
    skeleton_laid_out.2 source program well ordered apart
  · rw [none] at made
    cases made
  · obtain rfl : skeleton = out := Except.ok.inj (same.symm.trans made)
    exact ⟨source,read,ordered,apart,sites,skeleton,surveys,same,laid,beq_iff_eq.1 text⟩

end Excerpt
