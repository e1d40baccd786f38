import Excerpt.Proofs.ClassLookup
import Excerpt.Proofs.DecoratedDefinitions

/-!
The definitions of a tree and its units. Definitions lie inside each other like the nodes of a forest;
the units list them in the order of the source, and their depths and numbers of inner units give the
forest back.
-/
namespace Excerpt
open Excerpt.Text Excerpt.Syntax

/-- A node of a tree that is met on the way down, with the path to it. The node directly around it is
kept, too, unless that is the root or the body of a definition. -/
structure Site where
  path : List Nat
  outer : Option Tree
  node : Tree

namespace Site

/-- The same node, seen from further up. -/
def under (front : List Nat) (s : Site) : Site := {s with path := front ++ s.path}

@[simp] theorem under_under (front back : List Nat) (s : Site) :
    (s.under back).under front = s.under (front ++ back) := by
  simp [under]

@[simp] theorem path_under (front : List Nat) (s : Site) : (s.under front).path = front ++ s.path := rfl

@[simp] theorem node_under (front : List Nat) (s : Site) : (s.under front).node = s.node := rfl

@[simp] theorem outer_under (front : List Nat) (s : Site) : (s.under front).outer = s.outer := rfl

/-- Whether a definition holds the other inside. -/
def Encloses (a b : Site) : Prop := a.path <+: b.path ∧ a.path ≠ b.path

instance (a b : Site) : Decidable (a.Encloses b) := inferInstanceAs (Decidable (_ ∧ _))

/-- Whether among the given definitions none lies between the two. -/
def EnclosesNext (sites : List Site) (a b : Site) : Prop :=
  a.Encloses b ∧ ∀ c ∈ sites, ¬(a.Encloses c ∧ c.Encloses b)

instance (sites : List Site) (a b : Site) : Decidable (a.EnclosesNext sites b) :=
  inferInstanceAs (Decidable (_ ∧ _))

@[simp] theorem encloses_under {front : List Nat} {a b : Site} :
    (a.under front).Encloses (b.under front) ↔ a.Encloses b := by
  simp [Encloses,List.prefix_append_right_inj]

/-- Nodes below different children do not lie inside each other. -/
theorem not_encloses_of_heads {a b : Site} {i j : Nat} {p q : List Nat} (first : a.path = i :: p)
    (second : b.path = j :: q) (different : i ≠ j) : ¬a.Encloses b := by
  rintro ⟨inside,-⟩
  rw [first,second,List.cons_prefix_cons] at inside
  exact different inside.1

theorem encloses_trans {a b c : Site} (outer : a.Encloses b) (inner : b.Encloses c) : a.Encloses c := by
  refine ⟨outer.1.trans inner.1,fun same => ?_⟩
  have longer := inner.1.length_le
  rw [← same] at longer
  exact outer.2 (outer.1.eq_of_length_le longer)

theorem length_lt_of_encloses {a b : Site} (inside : a.Encloses b) :
    a.path.length < b.path.length :=
  Nat.lt_of_not_le fun longer => inside.2 (inside.1.eq_of_length_le longer)

/-- The decorators of a definition, which stand beside it in the node around it. -/
def decorators (s : Site) : List Decorator := (s.outer.map ownDecorators).getD []

/-- The number of definitions around a definition. -/
def depth (sites : List Site) (s : Site) : Nat := sites.countP (·.Encloses s)

/-- The unit of a definition among others, of which the outermost have the depth `base`. -/
def unit (base : Nat) (sites : List Site) (s : Site) : ProgramUnit :=
  {programUnit (base + s.depth sites) s.decorators s.node [] with
    nested := sites.countP (s.EnclosesNext sites ·)}

@[simp] theorem depth_unit (base : Nat) (sites : List Site) (s : Site) :
    (s.unit base sites).depth = base + s.depth sites := rfl

section Counting

variable {base : Nat} {front : List Nat} {sites others : List Site} {s : Site}

@[simp] theorem depth_under : (s.under front).depth (sites.map (under front)) = s.depth sites := by
  simp [depth,List.countP_map,Function.comp_def]

@[simp] theorem unit_under :
    (s.under front).unit base (sites.map (under front)) = s.unit base sites := by
  simp [unit,EnclosesNext,List.countP_map,Function.comp_def,decorators]

theorem map_unit_under : (sites.map (under front)).map (unit base (sites.map (under front))) =
    sites.map (unit base sites) := by
  simp [Function.comp_def]

/-- Definitions that lie outside each other do not matter for each other's units. -/
theorem unit_append (apart : ∀ r ∈ others, ¬s.Encloses r ∧ ¬r.Encloses s) :
    s.unit base (sites ++ others) = s.unit base sites ∧
      s.unit base (others ++ sites) = s.unit base sites := by
  have none : others.countP (·.Encloses s) = 0 :=
    List.countP_eq_zero.2 fun r member => by simp [(apart r member).2]
  have next (r : Site) : s.EnclosesNext (sites ++ others) r ↔ s.EnclosesNext sites r := by
    refine and_congr_right fun _ => ?_
    rw [List.forall_mem_append,and_iff_left fun c member both => (apart c member).1 both.1]
  have next' (r : Site) : s.EnclosesNext (others ++ sites) r ↔ s.EnclosesNext sites r := by
    refine and_congr_right fun _ => ?_
    rw [List.forall_mem_append,and_iff_right fun c member both => (apart c member).1 both.1]
  have inner : others.countP (s.EnclosesNext sites ·) = 0 :=
    List.countP_eq_zero.2 fun r member => by simp [EnclosesNext,(apart r member).1]
  constructor
  · simp [unit,depth,none,next,inner]
  · simp [unit,depth,none,next',inner]

theorem map_unit_append
    (apart : ∀ s ∈ sites, ∀ r ∈ others, ¬s.Encloses r ∧ ¬r.Encloses s) :
    (sites ++ others).map (unit base (sites ++ others)) =
      sites.map (unit base sites) ++ others.map (unit base others) := by
  rw [List.map_append]
  congr 1
  · exact List.map_congr_left fun s member => (unit_append (apart s member)).1
  · refine List.map_congr_left fun r member => (unit_append fun s other => ?_).2
    exact (apart s other r member).symm

/-- A definition around all the others makes each of them one deeper, and holds directly those that are
outermost among them. -/
theorem map_unit_cons {top : Site} (above : ∀ r ∈ sites, top.Encloses r) :
    (top :: sites).map (unit base (top :: sites)) =
      programUnit base top.decorators top.node (sites.map (unit (base + 1) sites)) ::
        sites.map (unit (base + 1) sites) := by
  have notInside {r : Site} (member : r ∈ sites) : ¬r.Encloses top := fun inside =>
    (length_lt_of_encloses inside).not_gt (length_lt_of_encloses (above r member))
  have irrefl (r : Site) : ¬r.Encloses r := fun inside => inside.2 rfl
  rw [List.map_cons]
  congr 1
  · have outermost : top.depth (top :: sites) = 0 := by
      refine List.countP_eq_zero.2 fun r member => ?_
      rcases List.mem_cons.1 member with rfl | other
      · simp [irrefl]
      · simp [notInside other]
    have direct : sites.countP (fun r => decide (top.EnclosesNext (top :: sites) r)) =
        sites.countP (fun r => (r.unit (base + 1) sites).depth == base + 1) := by
      refine List.countP_congr fun r member => ?_
      have open_ : (r.unit (base + 1) sites).depth = base + 1 ↔ ∀ c ∈ sites, ¬c.Encloses r := by
        simp [unit,programUnit,depth,List.countP_eq_zero]
      rw [decide_eq_true_iff,beq_iff_eq,open_,EnclosesNext,List.forall_mem_cons]
      constructor
      · exact fun holds c other inside => holds.2.2 c other ⟨above c other,inside⟩
      · exact fun holds => ⟨above r member,fun both => irrefl top both.1,
          fun c other both => holds c other both.2⟩
    simp [unit,outermost,programUnit,EnclosesNext,irrefl,List.countP_map,Function.comp_def]
      at direct ⊢
    exact direct
  · refine List.map_congr_left fun r member => ?_
    have deeper : r.depth (top :: sites) = r.depth sites + 1 := by
      simp [depth,above r member]
    have next (c : Site) : r.EnclosesNext (top :: sites) c ↔ r.EnclosesNext sites c := by
      refine and_congr_right fun _ => ?_
      rw [List.forall_mem_cons,and_iff_right fun both => notInside member both.1]
    have top_ : ¬r.EnclosesNext sites top := fun inside => notInside member inside.1
    simp [unit,deeper,next,top_,programUnit]
    omega

end Counting

section Order

variable {sites before after : List Site} {s r : Site}

/-- What comes between a path and one of its extensions in the order of paths extends it as well. -/
theorem prefix_of_between {p q rest : List Nat} (first : p < q) (second : q < p ++ rest) : p <+: q := by
  induction p generalizing q with
  | nil => exact List.nil_prefix
  | cons i p ih =>
    cases q with
    | nil => cases first
    | cons j q =>
      rw [List.cons_lt_cons_iff] at first
      rw [List.cons_append,List.cons_lt_cons_iff] at second
      obtain rfl : i = j := by omega
      rw [List.cons_prefix_cons]
      refine ⟨rfl,ih ?_ ?_⟩
      · exact (first.resolve_left (Nat.lt_irrefl i)).2
      · exact (second.resolve_left (Nat.lt_irrefl i)).2

theorem encloses_of_between {a b c : Site} (first : a.path < b.path) (second : b.path < c.path)
    (inside : a.Encloses c) : a.Encloses b := by
  obtain ⟨⟨rest,whole⟩,-⟩ := inside
  refine ⟨prefix_of_between first (whole ▸ second),fun same => ?_⟩
  rw [same] at first
  exact List.lt_irrefl _ first

theorem lt_append {p rest : List Nat} (more : rest ≠ []) : p < p ++ rest := by
  induction p with
  | nil =>
    obtain ⟨i,rest,rfl⟩ := List.exists_cons_of_ne_nil more
    exact List.nil_lt_cons i rest
  | cons i p ih =>
    rw [List.cons_append,List.cons_lt_cons_iff]
    exact .inr ⟨rfl,ih⟩

/-- A definition comes before those inside it. -/
theorem lt_of_encloses {a b : Site} (inside : a.Encloses b) : a.path < b.path := by
  obtain ⟨⟨rest,whole⟩,different⟩ := inside
  rw [← whole]
  refine lt_append ?_
  rintro rfl
  exact different (by simpa using whole)

/-- Sites in the order of the source. -/
def InOrder (sites : List Site) : Prop := sites.Pairwise fun a b => a.path < b.path

/-- What lies inside a definition follows it without a gap. -/
theorem takeWhile_encloses (ordered : InOrder (s :: after)) :
    after.takeWhile (s.Encloses ·) = after.filter (s.Encloses ·) := by
  induction after with
  | nil => rfl
  | cons r after ih =>
    obtain ⟨first,rest⟩ := List.pairwise_cons.1 ordered
    by_cases inside : s.Encloses r
    · rw [List.takeWhile_cons_of_pos (by simpa using inside),
        List.filter_cons_of_pos (by simpa using inside)]
      refine congrArg (r :: ·) (ih (List.pairwise_cons.2 ⟨?_,(List.pairwise_cons.1 rest).2⟩))
      exact fun q member => first q (List.mem_cons_of_mem r member)
    · have outside : (r :: after).filter (s.Encloses ·) = [] := by
        refine List.filter_eq_nil_iff.2 fun q member => ?_
        rcases List.mem_cons.1 member with rfl | later
        · simpa using inside
        · have behind := (List.pairwise_cons.1 rest).1 q later
          simpa using fun enclosed =>
            inside (encloses_of_between (first r List.mem_cons_self) behind enclosed)
      rw [List.takeWhile_cons_of_neg (by simpa using inside),outside]

/-- Inside a definition the depth is greater. -/
theorem depth_lt_of_encloses (member : s ∈ sites) (inside : s.Encloses r) :
    s.depth sites < r.depth sites := by
  have all : ∀ c ∈ sites, decide (c.Encloses s) = true → decide (c.Encloses r) = true := by
    intro c _ outer
    simpa using encloses_trans (by simpa using outer) inside
  obtain ⟨front,back,rfl⟩ := List.append_of_mem member
  have irrefl : ¬s.Encloses s := fun own => own.2 rfl
  have first := List.countP_mono_left (l := front) fun c inFront => all c (by simp [inFront])
  have second := List.countP_mono_left (l := back) fun c inBack => all c (by simp [inBack])
  simp only [depth,List.countP_append,List.countP_cons,inside,irrefl,decide_true,decide_false]
  simp only [Bool.false_eq_true,if_false,if_true]
  omega

/-- Right behind the definitions inside `s` the depth is not greater than that of `s`: whatever holds
the next definition holds `s` as well. -/
theorem depth_le_of_next {block : List Site} (ordered : InOrder (before ++ s :: (block ++ r :: after)))
    (inside : ∀ c ∈ block, s.Encloses c) (outside : ¬s.Encloses r) :
    r.depth (before ++ s :: (block ++ r :: after)) ≤
      s.depth (before ++ s :: (block ++ r :: after)) := by
  refine List.countP_mono_left fun c member holds => ?_
  have holds : c.Encloses r := by simpa using holds
  rw [InOrder,List.pairwise_append] at ordered
  obtain ⟨-,rest,across⟩ := ordered
  obtain ⟨behind,later⟩ := List.pairwise_cons.1 rest
  obtain ⟨-,next,-⟩ := List.pairwise_append.1 later
  have follows : s.path < r.path := behind r (by simp)
  rcases List.mem_append.1 member with front | back
  · have precedes := across c front s List.mem_cons_self
    simpa using encloses_of_between precedes follows holds
  · rcases List.mem_cons.1 back with rfl | back
    · exact absurd holds outside
    · rcases List.mem_append.1 back with within | back
      · exact absurd (encloses_trans (inside c within) holds) outside
      · rcases List.mem_cons.1 back with rfl | last
        · exact absurd rfl holds.2
        · exact absurd (lt_of_encloses holds)
            (List.lt_asymm ((List.pairwise_cons.1 next).1 c last))

/-- The definitions inside `s` are those that follow it with greater depths, up to the first that has
none. -/
theorem takeWhile_depth (ordered : InOrder (before ++ s :: after)) :
    after.takeWhile (fun r => s.depth (before ++ s :: after) < r.depth (before ++ s :: after)) =
      after.filter (s.Encloses ·) := by
  have tail : InOrder (s :: after) := (List.pairwise_append.1 ordered).2.1
  rw [← takeWhile_encloses tail]
  have split := List.takeWhile_append_dropWhile (p := (s.Encloses ·)) (l := after)
  have inside : ∀ c ∈ after.takeWhile (s.Encloses ·), s.Encloses c := fun c member =>
    by simpa using List.mem_takeWhile_imp member
  generalize whole : before ++ s :: after = sites at *
  have own : s ∈ sites := by simp [← whole]
  conv_lhs => rw [← split]
  rw [List.takeWhile_append_of_pos fun c member => by
    simpa using depth_lt_of_encloses own (inside c member)]
  cases rest : after.dropWhile (s.Encloses ·) with
  | nil => simp
  | cons r later =>
    have outside : ¬s.Encloses r := by
      have head := List.head?_dropWhile_not (s.Encloses ·) after
      simpa [rest] using head
    have notDeeper : r.depth sites ≤ s.depth sites := by
      rw [← whole,← split,rest] at ordered ⊢
      exact depth_le_of_next ordered inside outside
    rw [List.takeWhile_cons_of_neg (by simpa using notDeeper),List.append_nil]

/-- Nothing in front of a definition lies inside it. -/
theorem filter_encloses (ordered : InOrder (before ++ s :: after)) :
    (before ++ s :: after).filter (s.Encloses ·) = after.filter (s.Encloses ·) := by
  have none : before.filter (s.Encloses ·) = [] := by
    refine List.filter_eq_nil_iff.2 fun c member => ?_
    have precedes := (List.pairwise_append.1 ordered).2.2 c member s List.mem_cons_self
    simpa using fun inside => List.lt_asymm precedes (lt_of_encloses inside)
  rw [List.filter_append,none,List.nil_append,List.filter_cons_of_neg (by simp [Encloses])]

/-- A definition that holds others at all holds some directly. -/
theorem exists_enclosesNext {sites : List Site} {s r : Site} (member : r ∈ sites)
    (inside : s.Encloses r) : ∃ c ∈ sites, s.EnclosesNext sites c := by
  by_cases direct : s.EnclosesNext sites r
  · exact ⟨r,member,direct⟩
  · rw [EnclosesNext,and_iff_right inside] at direct
    obtain ⟨c,other,both⟩ : ∃ c ∈ sites, s.Encloses c ∧ c.Encloses r := by
      simpa only [not_forall,Classical.not_not,exists_prop] using direct
    have := length_lt_of_encloses both.2
    exact exists_enclosesNext other both.1
termination_by r.path.length

/-- Nothing is around the first definition. -/
theorem depth_head (ordered : InOrder (s :: after)) : s.depth (s :: after) = 0 := by
  refine List.countP_eq_zero.2 fun c member holds => ?_
  have holds : c.Encloses s := by simpa using holds
  rcases List.mem_cons.1 member with rfl | behind
  · exact holds.2 rfl
  · exact List.lt_asymm (lt_of_encloses holds) ((List.pairwise_cons.1 ordered).1 c behind)

/-- From a definition to the next the depth grows by one at most: whatever holds the next one holds
`s`, or is `s`. -/
theorem depth_le_succ (ordered : InOrder (before ++ s :: r :: after)) :
    r.depth (before ++ s :: r :: after) ≤ s.depth (before ++ s :: r :: after) + 1 := by
  by_cases inside : s.Encloses r
  · obtain ⟨-,rest,across⟩ := List.pairwise_append.1 ordered
    obtain ⟨behind,later⟩ := List.pairwise_cons.1 rest
    have front : before.countP (·.Encloses r) ≤ before.countP (·.Encloses s) := by
      refine List.countP_mono_left fun c member holds => ?_
      have precedes := across c member s List.mem_cons_self
      simpa using encloses_of_between precedes (behind r List.mem_cons_self) (by simpa using holds)
    have back : after.countP (·.Encloses r) = 0 := by
      refine List.countP_eq_zero.2 fun c member holds => ?_
      exact List.lt_asymm (lt_of_encloses (by simpa using holds))
        ((List.pairwise_cons.1 later).1 c member)
    have irrefl : ¬r.Encloses r := fun own => own.2 rfl
    simp only [depth,List.countP_append,List.countP_cons,back,inside,irrefl,decide_true,decide_false]
    simp only [Bool.false_eq_true,if_false,if_true]
    omega
  · exact Nat.le_succ_of_le (@depth_le_of_next before after s r [] ordered (by simp) inside)

theorem nested_eq_zero_iff : (s.unit 0 sites).nested = 0 ↔ ∀ r ∈ sites, ¬s.Encloses r := by
  rw [unit,List.countP_eq_zero]
  constructor
  · intro none r member inside
    obtain ⟨c,other,direct⟩ := exists_enclosesNext member inside
    exact none c other (by simpa using direct)
  · intro none r member direct
    have direct : s.EnclosesNext sites r := by simpa using direct
    exact none r member direct.1

/-- The definition right behind one that holds others is the first inside it, and directly so. -/
theorem first_of_nested (ordered : InOrder (before ++ s :: after))
    (some : (s.unit 0 (before ++ s :: after)).nested ≠ 0) :
    ∃ c rest, after = c :: rest ∧ s.EnclosesNext (before ++ s :: after) c ∧
      (∀ r ∈ before ++ s :: after, s.Encloses r → r = c ∨ c.path < r.path) ∧
      c.depth (before ++ s :: after) = s.depth (before ++ s :: after) + 1 := by
  have inside : (before ++ s :: after).filter (s.Encloses ·) ≠ [] := by
    intro none
    refine some (nested_eq_zero_iff.2 fun r member holds => ?_)
    exact List.filter_eq_nil_iff.1 none r member (by simpa using holds)
  rw [filter_encloses ordered,← takeWhile_encloses (List.pairwise_append.1 ordered).2.1] at inside
  cases after with
  | nil => exact absurd rfl inside
  | cons c rest =>
    have holds : s.Encloses c := by
      by_contra outside
      exact inside (List.takeWhile_cons_of_neg (by simpa using outside))
    have first : ∀ r ∈ before ++ s :: c :: rest, s.Encloses r → r = c ∨ c.path < r.path := by
      intro r member within
      obtain ⟨-,later,across⟩ := List.pairwise_append.1 ordered
      rcases List.mem_append.1 member with front | back
      · exact absurd (lt_of_encloses within) (List.lt_asymm (across r front s List.mem_cons_self))
      · rcases List.mem_cons.1 back with rfl | back
        · exact absurd rfl within.2
        · exact (List.mem_cons.1 back).imp_right
            ((List.pairwise_cons.1 (List.pairwise_cons.1 later).2).1 r)
    refine ⟨c,rest,rfl,⟨holds,?_⟩,first,?_⟩
    · rintro r member ⟨within,between⟩
      rcases first r member within with rfl | behind
      · exact between.2 rfl
      · exact List.lt_asymm behind (lt_of_encloses between)
    · have deeper := @depth_lt_of_encloses (before ++ s :: c :: rest) s c (by simp) holds
      exact Nat.le_antisymm (depth_le_succ ordered) deeper

end Order

end Site

end Excerpt
