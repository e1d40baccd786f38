import Excerpt.Execution.Modules

/-!
Dotted paths of modules: their segments, and the paths that lead to them.
-/
namespace Excerpt.Execution
open Excerpt.Text

def Undotted (name : String) : Prop := '.' ∉ name.toList

instance (name : String) : Decidable (Undotted name) := inferInstanceAs (Decidable (¬ _))

/-- The path of a module that is the attribute `name` of the module at `path`. -/
def join (path name : String) : String := path ++ "." ++ name

theorem toList_join (path name : String) :
    (join path name).toList = path.toList ++ '.' :: name.toList := by
  simp [join]

/-- A path has at most one last segment. -/
theorem join_inj {p q m n : String} (plain : Undotted m) (bare : Undotted n)
    (same : join p m = join q n) : p = q ∧ m = n := by
  have lists := congrArg String.toList same
  rw [toList_join,toList_join] at lists
  rcases List.append_eq_append_iff.1 lists with ⟨between,before,after⟩ | ⟨between,before,after⟩
  · cases between with
    | nil =>
      simp only [List.append_nil,List.nil_append,List.cons.injEq,true_and] at before after
      exact ⟨String.toList_injective before.symm,String.toList_injective after⟩
    | cons dot between =>
      have inside : m.toList = between ++ '.' :: n.toList := (List.cons.inj after).2
      exact absurd (by rw [inside]; simp) plain
  · cases between with
    | nil =>
      simp only [List.append_nil,List.nil_append,List.cons.injEq,true_and] at before after
      exact ⟨String.toList_injective before,String.toList_injective after.symm⟩
    | cons dot between =>
      have inside : n.toList = between ++ '.' :: m.toList := (List.cons.inj after).2
      exact absurd (by rw [inside]; simp) bare

/-- The path itself, or the part of it that ends before one of its dots. -/
def Leads (part path : String) : Prop := part = path ∨ ∃ rest, path = join part rest

instance (part path : String) : Decidable (Leads part path) :=
  decidable_of_iff (part = path ∨ (part.toList ++ ['.']).isPrefixOf path.toList) <| by
    refine or_congr_right ⟨fun starts => ?_,?_⟩
    · obtain ⟨rest,same⟩ := List.isPrefixOf_iff_prefix.1 starts
      refine ⟨String.ofList rest,String.toList_injective ?_⟩
      rw [toList_join,← same]
      simp
    · rintro ⟨rest,rfl⟩
      rw [List.isPrefixOf_iff_prefix,toList_join]
      exact ⟨rest.toList,by simp⟩

theorem Leads.refl (path : String) : Leads path path := .inl rfl

theorem Leads.trans {x y z : String} (first : Leads x y) (second : Leads y z) : Leads x z := by
  rcases first with rfl | ⟨rest,rfl⟩
  · exact second
  · rcases second with rfl | ⟨more,rfl⟩
    · exact .inr ⟨rest,rfl⟩
    · exact .inr ⟨join rest more,by simp [join,String.append_assoc]⟩

theorem leads_of_undotted {part name : String} (plain : Undotted name) :
    Leads part name ↔ part = name := by
  refine ⟨fun leads => leads.resolve_right ?_,.inl⟩
  rintro ⟨rest,rfl⟩
  exact plain (by simp [toList_join])

theorem leads_join {part path name : String} (plain : Undotted name) :
    Leads part (join path name) ↔ part = join path name ∨ Leads part path := by
  refine or_congr_right ⟨?_,?_⟩
  · rintro ⟨rest,same⟩
    have lists := congrArg String.toList same
    rw [toList_join,toList_join] at lists
    rcases List.append_eq_append_iff.1 lists with ⟨between,before,after⟩ | ⟨between,before,after⟩
    · cases between with
      | nil => exact .inl (String.toList_injective (by simpa using before))
      | cons dot between =>
        have inside : name.toList = between ++ '.' :: rest.toList := (List.cons.inj after).2
        exact absurd (by rw [inside]; simp) plain
    · cases between with
      | nil => exact .inl (String.toList_injective (by simpa using before.symm))
      | cons dot between =>
        obtain ⟨rfl,-⟩ := List.cons.inj after
        refine .inr ⟨String.ofList between,String.toList_injective ?_⟩
        rw [before,toList_join,String.toList_ofList]
  · rintro (rfl | ⟨rest,rfl⟩)
    · exact ⟨name,rfl⟩
    · exact ⟨rest ++ "." ++ name,by simp [join,String.append_assoc]⟩

/-- A path does not lead to its own parent. -/
theorem not_leads_parent (path name : String) : ¬ Leads (join path name) path := by
  rintro (same | ⟨rest,same⟩)
  · have longer := congrArg (List.length ∘ String.toList) same
    simp [toList_join] at longer
  · have longer := congrArg (List.length ∘ String.toList) same
    simp only [Function.comp_apply,toList_join,List.length_append,List.length_cons] at longer
    omega

theorem firstSegment_join (path name : String) :
    firstSegment (join path name) = firstSegment path := by
  simp only [firstSegment,toList_join,List.takeWhile_append]
  split
  · next whole =>
    simp [(List.takeWhile_prefix _).eq_of_length whole]
  · rfl

theorem Leads.firstSegment {part path : String} (leads : Leads part path) :
    firstSegment part = Excerpt.firstSegment path := by
  rcases leads with rfl | ⟨rest,rfl⟩
  · rfl
  · exact (firstSegment_join part rest).symm

theorem firstSegment_of_undotted {name : String} (plain : Undotted name) :
    firstSegment name = name := by
  have all : ∀ c ∈ name.toList, (c != '.') = true := by
    intro c member
    rw [bne_iff_ne]
    rintro rfl
    exact plain member
  have whole := @List.takeWhile_append_of_pos _ _ _ [] all
  rw [List.append_nil,List.takeWhile_nil,List.append_nil] at whole
  rw [firstSegment,whole,String.ofList_toList]

/-- Paths with their last segments, each the parent of the one before it. -/
inductive Lineage : List (String × String) → Prop
  | root {name : String} (plain : Undotted name) : Lineage [(name,name)]
  | child {path leaf name : String} {parents : List (String × String)} (plain : Undotted name)
      (above : Lineage ((path,leaf) :: parents)) :
      Lineage ((join path name,name) :: (path,leaf) :: parents)

theorem splitChars_ne_nil (c : Char) (current cs : List Char) : splitChars c current cs ≠ [] := by
  induction cs generalizing current with
  | nil => simp [splitChars]
  | cons d ds ih =>
    rw [splitChars]
    split
    · simp
    · exact ih _

theorem intercalate_splitChars (c : Char) (current cs : List Char) :
    [c].intercalate (splitChars c current cs) = current.reverse ++ cs := by
  induction cs generalizing current with
  | nil => simp [splitChars]
  | cons d ds ih =>
    rw [splitChars]
    split
    · next same =>
      rw [List.intercalate_cons_of_ne_nil (splitChars_ne_nil c [] ds),ih,same]
      simp
    · simp [ih]

theorem not_mem_of_mem_splitChars {c : Char} {current cs part : List Char} (plain : c ∉ current)
    (member : part ∈ splitChars c current cs) : c ∉ part := by
  induction cs generalizing current with
  | nil =>
    simp only [splitChars,List.mem_singleton] at member
    simpa [member] using plain
  | cons d ds ih =>
    rw [splitChars] at member
    split at member
    · rcases List.mem_cons.1 member with rfl | later
      · simpa using plain
      · exact ih (by simp) later
    · next other => exact ih (by simp [plain,Ne.symm other]) member

theorem intercalate_splitAt (path : String) : ".".intercalate (splitAt '.' path) = path := by
  apply String.toList_injective
  have back : (splitAt '.' path).map String.toList = splitChars '.' [] path.toList := by
    simp [splitAt,Function.comp_def]
  rw [String.toList_intercalate,back]
  exact intercalate_splitChars '.' [] path.toList

theorem undotted_of_mem_splitAt {path segment : String} (member : segment ∈ splitAt '.' path) :
    Undotted segment := by
  obtain ⟨part,among,rfl⟩ := List.mem_map.1 member
  rw [Undotted,String.toList_ofList]
  exact not_mem_of_mem_splitChars (by simp) among

theorem splitAt_ne_nil (path : String) : splitAt '.' path ≠ [] := by
  simpa [splitAt] using splitChars_ne_nil '.' [] path.toList

theorem intercalate_snoc (segments : List String) (some? : segments ≠ []) (leaf : String) :
    ".".intercalate (segments ++ [leaf]) = join (".".intercalate segments) leaf := by
  rw [String.intercalate_append_of_ne_nil some? (by simp),String.intercalate_singleton,join]

theorem leads_intercalate (first : String) (passed rest : List String) :
    Leads (".".intercalate (first :: passed)) (".".intercalate (first :: (passed ++ rest))) := by
  cases rest with
  | nil =>
    rw [List.append_nil]
    exact .refl _
  | cons next rest =>
    rw [← List.cons_append,String.intercalate_append_of_ne_nil (by simp) (by simp)]
    exact .inr ⟨_,rfl⟩

theorem splitAt_eq_cons (path : String) :
    splitAt '.' path = firstSegment path :: (splitAt '.' path).tail := by
  obtain ⟨first,rest,split⟩ := List.exists_cons_of_ne_nil (splitAt_ne_nil path)
  have plain : Undotted first := @undotted_of_mem_splitAt path first (by simp [split])
  have leads := leads_intercalate first [] rest
  rw [List.nil_append,← split,intercalate_splitAt,String.intercalate_singleton] at leads
  rw [split,List.tail_cons,← leads.firstSegment,firstSegment_of_undotted plain]

/-- The lineage of a path, given by its segments from the last to the first. -/
theorem lineage_spec (leaf : String) (parents : List String)
    (plain : ∀ segment ∈ leaf :: parents, Undotted segment) : Lineage (lineage (leaf :: parents)) := by
  induction parents generalizing leaf with
  | nil =>
    have first := plain leaf (by simp)
    simpa [lineage,String.intercalate_singleton] using Lineage.root first
  | cons parent parents ih =>
    have above := ih parent fun segment member => plain segment (List.mem_cons_of_mem _ member)
    have grown := Lineage.child (plain leaf (by simp)) above
    rw [lineage,List.reverse_cons,intercalate_snoc _ (by simp) leaf]
    exact grown

theorem pathLineage_spec (path : String) :
    ∃ leaf parents, pathLineage path = (path,leaf) :: parents ∧ Lineage (pathLineage path) := by
  obtain ⟨leaf,parents,reversed⟩ :=
    List.exists_cons_of_ne_nil (mt List.reverse_eq_nil_iff.1 (splitAt_ne_nil path))
  refine ⟨leaf,lineage parents,?_,?_⟩
  · rw [pathLineage,reversed,lineage,← reversed,List.reverse_reverse,intercalate_splitAt]
  · rw [pathLineage,reversed]
    refine lineage_spec leaf parents fun segment member => ?_
    rw [← reversed,List.mem_reverse] at member
    exact undotted_of_mem_splitAt member

end Excerpt.Execution
