import Excerpt.Scope.Basic

/-!
Which names a scope looks up in vain. What the module binds can only take names off the list, so the
list for any module is the one for the empty module with those names left out.
-/
namespace Excerpt

/-- The module that binds nothing. -/
def nowhere : String → Bool := fun _ => false

namespace Frame

/-- A name is found inside the scopes or in the module. -/
theorem resolves_eq_or (isModuleName : String → Bool) (around : List Frame) (f : Frame)
    (name : String) :
    f.resolves isModuleName around name = (f.resolves nowhere around name || isModuleName name) := by
  unfold resolves
  split <;> simp [nowhere]

end Frame

namespace Scope

mutual
theorem unresolved_eq_filter (isModuleName : String → Bool) (around : List Frame) :
    ∀ s : Scope, s.unresolved isModuleName around =
      (s.unresolved nowhere around).filter fun ref => !isModuleName ref.name
  | .mk k fs => by
    simp only [unresolved,List.filter_append,List.filter_filter,
      ← innerUnresolved_eq_filter isModuleName (frame (.mk k fs) :: around) fs]
    congr 2
    funext ref
    rw [Frame.resolves_eq_or,Bool.not_or,Bool.and_comm]
theorem innerUnresolved_eq_filter (isModuleName : String → Bool) (around : List Frame) :
    ∀ fs : List Finding, innerUnresolved isModuleName around fs =
      (innerUnresolved nowhere around fs).filter fun ref => !isModuleName ref.name
  | [] => rfl
  | .inner s :: fs => by
    simp only [innerUnresolved,List.filter_append,
      ← unresolved_eq_filter isModuleName around s,← innerUnresolved_eq_filter isModuleName around fs]
  | .bind _ :: fs | .walrus _ :: fs | .declareGlobal _ :: fs | .declareNonlocal _ :: fs
  | .load _ :: fs => innerUnresolved_eq_filter isModuleName around fs
end

/-- A scope somewhere inside a scope, with the frames that lie around it. -/
inductive Inside (root : Scope) : List Frame → Scope → Prop
  | self : Inside root [] root
  | inner {around : List Frame} {outer s : Scope} (within : Inside root around outer)
      (found : .inner s ∈ outer.findings) : Inside root (outer.frame :: around) s

theorem mem_innerUnresolved {isModuleName : String → Bool} {around : List Frame} {ref : NameRef}
    {s : Scope} {fs : List Finding} (found : .inner s ∈ fs)
    (vain : ref ∈ s.unresolved isModuleName around) :
    ref ∈ innerUnresolved isModuleName around fs := by
  induction fs with
  | nil => cases found
  | cons f fs ih =>
    rcases List.mem_cons.1 found with rfl | later
    · simp [innerUnresolved,vain]
    · cases f with
      | inner => simp [innerUnresolved,ih later]
      | bind | walrus | declareGlobal | declareNonlocal | load => exact ih later

/-- What a scope inside looks up in vain, the scope around all of them looks up in vain. -/
theorem Inside.unresolved_subset {isModuleName : String → Bool} {root s : Scope}
    {around : List Frame} (within : Inside root around s) {ref : NameRef}
    (vain : ref ∈ s.unresolved isModuleName around) : ref ∈ root.unresolved isModuleName [] := by
  induction within with
  | self => exact vain
  | @inner around outer s _ found ih =>
    obtain ⟨k,fs⟩ := outer
    exact ih (by simp only [unresolved,List.mem_append]; exact .inr (mem_innerUnresolved found vain))

theorem Inside.resolves_of_unresolved_eq_nil {isModuleName : String → Bool} {root s : Scope}
    {around : List Frame} (within : Inside root around s)
    (none : root.unresolved isModuleName [] = []) {ref : NameRef} (loaded : ref ∈ s.loads) :
    s.frame.resolves isModuleName around ref.name = true := by
  refine Bool.of_not_eq_false fun vain => ?_
  have listed : ref ∈ s.unresolved isModuleName around := by
    obtain ⟨k,fs⟩ := s
    simp only [unresolved,List.mem_append,List.mem_filter]
    exact .inl ⟨loaded,by simp [vain]⟩
  have := within.unresolved_subset listed
  simp [none] at this

mutual
/-- The names that a scope or one inside it looks up. -/
def mentions : Scope → List String
  | .mk _ fs => findingMentions fs
def findingMentions : List Finding → List String
  | [] => []
  | .load ref :: fs => ref.name :: findingMentions fs
  | .inner s :: fs => mentions s ++ findingMentions fs
  | _ :: fs => findingMentions fs
end

@[simp] theorem findingMentions_append (fs gs : List Finding) :
    findingMentions (fs ++ gs) = findingMentions fs ++ findingMentions gs := by
  induction fs with
  | nil => rfl
  | cons f fs ih => cases f <;> simp [findingMentions,ih]

theorem mem_findingMentions_of_load {fs : List Finding} {ref : NameRef}
    (loaded : ref ∈ fs.filterMap Finding.load?) : ref.name ∈ findingMentions fs := by
  induction fs with
  | nil => cases loaded
  | cons f fs ih =>
    cases f with
    | load r =>
      rcases List.mem_cons.1 loaded with rfl | later
      · simp [findingMentions]
      · simp [findingMentions,ih later]
    | inner s => simp [findingMentions,ih loaded]
    | bind | walrus | declareGlobal | declareNonlocal => exact ih loaded

mutual
theorem mem_mentions_of_unresolved {isModuleName : String → Bool} {around : List Frame}
    {ref : NameRef} : ∀ s : Scope, ref ∈ s.unresolved isModuleName around → ref.name ∈ s.mentions
  | .mk k fs, vain => by
    simp only [unresolved,List.mem_append,List.mem_filter] at vain
    rcases vain with ⟨loaded,_⟩ | inside
    · exact mem_findingMentions_of_load loaded
    · exact mem_findingMentions_of_unresolved fs inside
theorem mem_findingMentions_of_unresolved {isModuleName : String → Bool} {around : List Frame}
    {ref : NameRef} : ∀ fs : List Finding,
      ref ∈ innerUnresolved isModuleName around fs → ref.name ∈ findingMentions fs
  | [], vain => by cases vain
  | .inner s :: fs, vain => by
    simp only [innerUnresolved,List.mem_append] at vain
    simp only [findingMentions,List.mem_append]
    exact vain.imp (mem_mentions_of_unresolved s) (mem_findingMentions_of_unresolved fs)
  | .load r :: fs, vain =>
    List.mem_cons_of_mem _ (mem_findingMentions_of_unresolved fs vain)
  | .bind _ :: fs, vain | .walrus _ :: fs, vain | .declareGlobal _ :: fs, vain
  | .declareNonlocal _ :: fs, vain => mem_findingMentions_of_unresolved fs vain
end

/-- Modules that agree on the names that are looked up leave the same ones unanswered. -/
theorem unresolved_congr {s : Scope} {p q : String → Bool} (agree : ∀ n ∈ s.mentions, p n = q n)
    (around : List Frame) : s.unresolved p around = s.unresolved q around := by
  rw [unresolved_eq_filter p,unresolved_eq_filter q]
  refine List.filter_congr fun ref vain => ?_
  rw [agree ref.name (mem_mentions_of_unresolved s vain)]

end Scope

end Excerpt
