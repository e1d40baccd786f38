import Excerpt.Proofs.Declaration
import Excerpt.Proofs.ValidFunctions

/-!
The check at the end of a run. It passes exactly if every name that a function, lambda or comprehension
looks up is found in the scopes around it or in the complete module, and otherwise it names the lookup
on the smallest line that is not.
-/
namespace Excerpt

namespace Frame

/-- Whether a lookup in `f` ends in `f` or in one of the frames around it. The search goes outwards past
the bodies of classes, and no further than to the first frame that declares the name global. -/
def Finds (around : List Frame) (f : Frame) (name : String) : Prop :=
  name ∉ f.globals ∧ (f.binds name ∨ implicit f.kind name ∨ ∃ near g far, around = near ++ g :: far ∧
    g.kind ≠ .classBody ∧ g.binds name ∧ name ∉ g.globals ∧
    ∀ h ∈ near, h.kind = .classBody ∨ name ∉ h.globals)

theorem enclosed_iff {name : String} {around : List Frame} : enclosed name around ↔
    ∃ near g far, around = near ++ g :: far ∧ g.kind ≠ .classBody ∧ g.binds name ∧ name ∉ g.globals ∧
      ∀ h ∈ near, h.kind = .classBody ∨ name ∉ h.globals := by
  induction around with
  | nil => simp [enclosed]
  | cons f fs ih =>
    -- The frame found is the nearest one or lies behind it, in which case the nearest one is passed.
    have nearest : (∃ near g far, f :: fs = near ++ g :: far ∧ g.kind ≠ .classBody ∧ g.binds name ∧
        name ∉ g.globals ∧ ∀ h ∈ near, h.kind = .classBody ∨ name ∉ h.globals) ↔
        (f.kind ≠ .classBody ∧ f.binds name ∧ name ∉ f.globals) ∨
          ((f.kind = .classBody ∨ name ∉ f.globals) ∧ enclosed name fs) := by
      rw [ih]
      constructor
      · rintro ⟨near,g,far,split,visible,bound,undeclared,passed⟩
        cases near with
        | nil =>
          cases split
          exact .inl ⟨visible,bound,undeclared⟩
        | cons h near =>
          cases split
          obtain ⟨first,rest⟩ := List.forall_mem_cons.1 passed
          exact .inr ⟨first,near,g,far,rfl,visible,bound,undeclared,rest⟩
      · rintro (⟨visible,bound,undeclared⟩ | ⟨first,near,g,far,rfl,visible,bound,undeclared,rest⟩)
        · exact ⟨[],f,fs,rfl,visible,bound,undeclared,by simp⟩
        · exact ⟨f :: near,g,far,rfl,visible,bound,undeclared,List.forall_mem_cons.2 ⟨first,rest⟩⟩
    rw [nearest,enclosed]
    by_cases inClass : f.kind = .classBody
    · simp [inClass]
    · by_cases declared : name ∈ f.globals
      · simp [inClass,declared]
      · simp [inClass,declared]

theorem resolves_nowhere_iff {around : List Frame} {f : Frame} {name : String} :
    f.resolves nowhere around name ↔ f.Finds around name := by
  unfold resolves Finds
  rw [← enclosed_iff]
  by_cases declared : name ∈ f.globals
  · simp [declared,nowhere]
  · simp [declared,nowhere,or_assoc]

/-- The body of a class is passed, whatever it binds and declares. -/
theorem enclosed_class {name : String} {c d : Frame} (first : c.kind = .classBody)
    (second : d.kind = .classBody) (near far : List Frame) :
    enclosed name (near ++ c :: far) = enclosed name (near ++ d :: far) := by
  induction near with
  | nil => simp [enclosed,first,second]
  | cons f near ih => simp only [List.cons_append,enclosed,ih]

end Frame

/-- A name that is looked up in a scope, with the frame of the scope and the frames around it. -/
structure Lookup where
  around : List Frame
  frame : Frame
  ref : NameRef

namespace Scope

mutual
/-- All lookups of a scope: its own, then those of the scopes inside it. -/
def lookups (around : List Frame) : Scope → List Lookup
  | .mk k fs =>
    let own := frame (.mk k fs)
    (fs.filterMap Finding.load?).map (fun ref => ⟨around,own,ref⟩) ++ innerLookups (own :: around) fs
def innerLookups (around : List Frame) : List Finding → List Lookup
  | [] => []
  | .inner s :: fs => lookups around s ++ innerLookups around fs
  | _ :: fs => innerLookups around fs
end

mutual
theorem unresolved_eq_lookups (isModuleName : String → Bool) (around : List Frame) :
    ∀ s : Scope, s.unresolved isModuleName around = ((s.lookups around).filter fun l =>
      !l.frame.resolves isModuleName l.around l.ref.name).map Lookup.ref
  | .mk k fs => by
    simp only [unresolved,lookups,List.filter_append,List.map_append,List.filter_map,List.map_map,
      innerUnresolved_eq_lookups isModuleName (frame (.mk k fs) :: around) fs,Function.comp_def,
      List.map_id']
theorem innerUnresolved_eq_lookups (isModuleName : String → Bool) (around : List Frame) :
    ∀ fs : List Finding, innerUnresolved isModuleName around fs =
      ((innerLookups around fs).filter fun l =>
        !l.frame.resolves isModuleName l.around l.ref.name).map Lookup.ref
  | [] => rfl
  | .inner s :: fs => by
    simp only [innerUnresolved,innerLookups,List.filter_append,List.map_append,
      unresolved_eq_lookups isModuleName around s,innerUnresolved_eq_lookups isModuleName around fs]
  | .bind _ :: fs | .walrus _ :: fs | .declareGlobal _ :: fs | .declareNonlocal _ :: fs
  | .load _ :: fs => innerUnresolved_eq_lookups isModuleName around fs
end

mutual
/-- A lookup stands in a scope inside, with the frames that lie around that scope. -/
theorem inside_of_mem_lookups {root : Scope} {l : Lookup} {around : List Frame} :
    ∀ s : Scope, Inside root around s → l ∈ s.lookups around →
      ∃ u, Inside root l.around u ∧ l.frame = u.frame ∧ l.ref ∈ u.loads
  | .mk k fs, within, member => by
    simp only [lookups,List.mem_append,List.mem_map] at member
    rcases member with ⟨ref,loaded,rfl⟩ | inner
    · exact ⟨.mk k fs,within,rfl,loaded⟩
    · exact inside_of_mem_innerLookups fs (fun s found => .inner within found) inner
theorem inside_of_mem_innerLookups {root : Scope} {l : Lookup} {around : List Frame} :
    ∀ fs : List Finding, (∀ s, .inner s ∈ fs → Inside root around s) → l ∈ innerLookups around fs →
      ∃ u, Inside root l.around u ∧ l.frame = u.frame ∧ l.ref ∈ u.loads
  | [], _, member => by cases member
  | .inner s :: fs, within, member => by
    have later := fun t found => within t (List.mem_cons_of_mem _ found)
    exact (List.mem_append.1 member).elim
      (inside_of_mem_lookups s (within s List.mem_cons_self))
      (inside_of_mem_innerLookups fs later)
  | .bind _ :: fs, within, member | .walrus _ :: fs, within, member
  | .declareGlobal _ :: fs, within, member | .declareNonlocal _ :: fs, within, member
  | .load _ :: fs, within, member =>
    inside_of_mem_innerLookups fs (fun t found => within t (List.mem_cons_of_mem _ found)) member
end

theorem mem_innerLookups {around : List Frame} {l : Lookup} {s : Scope} {fs : List Finding}
    (found : .inner s ∈ fs) (member : l ∈ s.lookups around) : l ∈ innerLookups around fs := by
  induction fs with
  | nil => cases found
  | cons f fs ih =>
    rcases List.mem_cons.1 found with rfl | later
    · simp [innerLookups,member]
    · cases f with
      | inner => simp [innerLookups,ih later]
      | bind | walrus | declareGlobal | declareNonlocal | load => exact ih later

theorem Inside.lookups_subset {root s : Scope} {around : List Frame} (within : Inside root around s)
    {l : Lookup} (member : l ∈ s.lookups around) : l ∈ root.lookups [] := by
  induction within with
  | self => exact member
  | @inner around outer s _ found ih =>
    obtain ⟨k,fs⟩ := outer
    exact ih (List.mem_append_right _ (mem_innerLookups found member))

/-- The lookups of a scope are those of all scopes inside it. -/
theorem mem_lookups_iff {root : Scope} {l : Lookup} : l ∈ root.lookups [] ↔
    ∃ s, Inside root l.around s ∧ l.frame = s.frame ∧ l.ref ∈ s.loads := by
  refine ⟨inside_of_mem_lookups root .self,?_⟩
  rintro ⟨⟨k,fs⟩,within,same,loaded⟩
  obtain ⟨around,own,ref⟩ := l
  cases same
  exact within.lookups_subset (List.mem_append_left _ (List.mem_map_of_mem loaded))

theorem mem_innerStores {n : String} {s : Scope} {fs : List Finding} (found : .inner s ∈ fs)
    (stored : n ∈ s.globalStores) : n ∈ innerStores fs := by
  induction fs with
  | nil => cases found
  | cons f fs ih =>
    rcases List.mem_cons.1 found with rfl | later
    · simp [innerStores,stored]
    · cases f with
      | inner => simp [innerStores,ih later]
      | bind | walrus | declareGlobal | declareNonlocal | load => exact ih later

theorem Inside.globalStores_subset {root s : Scope} {around : List Frame} (within : Inside root around s)
    {n : String} (stored : n ∈ s.globalStores) : n ∈ root.globalStores := by
  induction within with
  | self => exact stored
  | @inner around outer s _ found ih =>
    obtain ⟨k,fs⟩ := outer
    exact ih (List.mem_append_right _ (mem_innerStores found stored))

/-- A scope adds to the module what some scope inside it both binds and declares global. -/
theorem mem_globalStores_iff {root : Scope} {n : String} : n ∈ root.globalStores ↔
    ∃ around s, Inside root around s ∧ n ∈ s.globals ∧ n ∈ s.bindings := by
  refine ⟨inside_of_mem_globalStores root .self,?_⟩
  rintro ⟨around,⟨k,fs⟩,within,declared,bound⟩
  refine within.globalStores_subset (List.mem_append_left _ ?_)
  exact List.mem_filter.2 ⟨declared,List.contains_iff_mem.2 bound⟩

mutual
/-- What a class binds and declares is not seen from the scopes inside it. -/
theorem unresolved_class (isModuleName : String → Bool) {c d : Frame} (first : c.kind = .classBody)
    (second : d.kind = .classBody) (near far : List Frame) : ∀ s : Scope,
      s.unresolved isModuleName (near ++ c :: far) = s.unresolved isModuleName (near ++ d :: far)
  | .mk k fs => by
    have inside := innerUnresolved_class isModuleName first second (frame (.mk k fs) :: near) far fs
    simp only [List.cons_append] at inside
    simp only [unresolved,Frame.resolves,Frame.enclosed_class first second near far,inside]
theorem innerUnresolved_class (isModuleName : String → Bool) {c d : Frame} (first : c.kind = .classBody)
    (second : d.kind = .classBody) (near far : List Frame) : ∀ fs : List Finding,
      innerUnresolved isModuleName (near ++ c :: far) fs =
        innerUnresolved isModuleName (near ++ d :: far) fs
  | [] => rfl
  | .inner s :: fs => by
    simp only [innerUnresolved,unresolved_class isModuleName first second near far s,
      innerUnresolved_class isModuleName first second near far fs]
  | .bind _ :: fs | .walrus _ :: fs | .declareGlobal _ :: fs | .declareNonlocal _ :: fs
  | .load _ :: fs => innerUnresolved_class isModuleName first second near far fs
end

end Scope

end Excerpt

namespace Excerpt.Execution
open Excerpt.Names

/-- The reference stands on no greater line than any other, and on a smaller one than those in front
of it. -/
def IsEarliest (refs : List NameRef) (ref : NameRef) : Prop :=
  ∃ before after, refs = before ++ ref :: after ∧ (∀ r ∈ before, ref.line < r.line) ∧
    ∀ r ∈ after, ref.line ≤ r.line

theorem IsEarliest.le {refs : List NameRef} {ref r : NameRef} (first : IsEarliest refs ref)
    (member : r ∈ refs) : ref.line ≤ r.line := by
  obtain ⟨before,after,rfl,above,below⟩ := first
  rcases List.mem_append.1 member with early | late
  · exact Nat.le_of_lt (above r early)
  · rcases List.mem_cons.1 late with rfl | later
    · exact Nat.le_refl _
    · exact below r later

theorem IsEarliest.mem {refs : List NameRef} {ref : NameRef} (first : IsEarliest refs ref) :
    ref ∈ refs := by
  obtain ⟨before,after,rfl,-,-⟩ := first
  simp

theorem isEarliest_of_earliest {refs : List NameRef} {ref : NameRef} (first : earliest refs = some ref) :
    IsEarliest refs ref := by
  induction refs generalizing ref with
  | nil => cases first
  | cons r rs ih =>
    rw [earliest] at first
    split at first
    · next best found =>
      split at first
      · next smaller =>
        cases first
        obtain ⟨before,after,rfl,above,below⟩ := ih found
        exact ⟨r :: before,after,rfl,List.forall_mem_cons.2 ⟨smaller,above⟩,below⟩
      · next smaller =>
        cases first
        exact ⟨[],rs,rfl,by simp,fun x member => Nat.le_trans (Nat.not_lt.1 smaller) ((ih found).le member)⟩
    · next none =>
      cases first
      exact ⟨[],rs,rfl,by simp,by simp [earliest_eq_none none]⟩

theorem earliest_eq_some {refs : List NameRef} {ref : NameRef} :
    earliest refs = some ref ↔ IsEarliest refs ref := by
  refine ⟨isEarliest_of_earliest,?_⟩
  rintro ⟨before,after,rfl,above,below⟩
  induction before with
  | nil =>
    rw [List.nil_append,earliest]
    split
    · next best found =>
      rw [if_neg (Nat.not_lt.2 (below best (isEarliest_of_earliest found).mem))]
    · rfl
  | cons r before ih =>
    obtain ⟨smaller,rest⟩ := List.forall_mem_cons.1 above
    rw [List.cons_append,earliest,ih rest]
    exact if_pos smaller

theorem map_filter_eq_append_cons {α β : Type} {f : α → β} {p : α → Bool} {xs : List α}
    {front back : List β} {y : β} (whole : (xs.filter p).map f = front ++ y :: back) :
    ∃ before x after, xs = before ++ x :: after ∧ p x ∧ f x = y ∧ (before.filter p).map f = front ∧
      (after.filter p).map f = back := by
  obtain ⟨left,right,split,first,rest⟩ := List.map_eq_append_iff.1 whole
  obtain ⟨x,later,rfl,value,last⟩ := List.map_eq_cons_iff.1 rest
  obtain ⟨as,bs,rfl,rfl,kept⟩ := List.filter_eq_append_iff.1 split
  obtain ⟨skipped,after,rfl,none,holds,rfl⟩ := List.filter_eq_cons_iff.1 kept
  refine ⟨as ++ skipped,x,after,by simp,holds,value,?_,last⟩
  rw [List.filter_append,List.filter_eq_nil_iff.2 none,List.append_nil]
  exact first

/-- All names that are looked up in the scopes kept for the end, in the order in which they were kept. -/
def State.lookups (s : State) : List Lookup := s.deferred.reverse.flatMap (Scope.lookups [])

/-- Whether a lookup finds its name when the module is complete: in the scopes around it, among the names
of the module, among the builtins, or because some scope both binds the name and declares it global. -/
def State.Answers (s : State) (l : Lookup) : Prop :=
  l.frame.Finds l.around l.ref.name ∨ l.ref.name ∈ s.globals.map Prod.fst ∨ isBuiltin l.ref.name ∨
    ∃ root ∈ s.deferred, ∃ around scope, root.Inside around scope ∧ l.ref.name ∈ scope.globals ∧
      l.ref.name ∈ scope.bindings

/-- Whether a lookup is the first one that the check reports. -/
def State.Reports (s : State) (l : Lookup) : Prop :=
  ∃ before after, s.lookups = before ++ l :: after ∧ ¬s.Answers l ∧
    (∀ m ∈ before, ¬s.Answers m → l.ref.line < m.ref.line) ∧
    ∀ m ∈ after, ¬s.Answers m → l.ref.line ≤ m.ref.line

section Check

variable (s : State)

/-- Whether a name is one of the complete module. -/
def State.isModuleName (name : String) : Bool :=
  (moduleNames s.globals s.deferred.reverse).contains name || isBuiltin name

theorem isModuleName_iff {name : String} : s.isModuleName name ↔
    name ∈ s.globals.map Prod.fst ∨ isBuiltin name ∨ ∃ root ∈ s.deferred, ∃ around scope,
      root.Inside around scope ∧ name ∈ scope.globals ∧ name ∈ scope.bindings := by
  simp only [State.isModuleName,moduleNames,Bool.or_eq_true,List.contains_iff_mem,List.mem_append,
    List.mem_flatMap,List.mem_reverse,Scope.mem_globalStores_iff,or_assoc]
  exact or_congr_right or_comm

def State.misses (l : Lookup) : Bool := !l.frame.resolves s.isModuleName l.around l.ref.name

theorem misses_iff (l : Lookup) : s.misses l ↔ ¬s.Answers l := by
  rw [State.misses,Bool.not_eq_true',Frame.resolves_eq_or,Bool.or_eq_false_iff,← Bool.not_eq_true,
    ← Bool.not_eq_true,Frame.resolves_nowhere_iff,isModuleName_iff,← not_or]
  rfl

theorem firstUnresolved_eq : firstUnresolved s.globals s.deferred.reverse =
    earliest ((s.lookups.filter s.misses).map Lookup.ref) := by
  have each : s.deferred.reverse.flatMap (Scope.unresolved s.isModuleName []) =
      s.deferred.reverse.flatMap fun scope =>
        ((scope.lookups []).filter s.misses).map Lookup.ref :=
    congrArg (List.flatMap · _) (funext (Scope.unresolved_eq_lookups s.isModuleName []))
  rw [State.lookups,List.filter_flatMap,List.map_flatMap,← each]
  rfl

theorem firstUnresolved_eq_none_iff :
    firstUnresolved s.globals s.deferred.reverse = none ↔ ∀ l ∈ s.lookups, s.Answers l := by
  have empty : s.lookups.filter s.misses = [] ↔ ∀ l ∈ s.lookups, s.Answers l := by
    simp only [List.filter_eq_nil_iff,misses_iff,Classical.not_not]
  rw [firstUnresolved_eq,← empty]
  exact ⟨fun none => List.map_eq_nil_iff.1 (earliest_eq_none none),fun none => by rw [none]; rfl⟩

theorem firstUnresolved_eq_some_iff {ref : NameRef} :
    firstUnresolved s.globals s.deferred.reverse = some ref ↔ ∃ l, s.Reports l ∧ l.ref = ref := by
  have among {refs : List Lookup} {p : NameRef → Prop} :
      (∀ r ∈ (refs.filter s.misses).map Lookup.ref, p r) ↔ ∀ m ∈ refs, ¬s.Answers m → p m.ref := by
    simp only [List.forall_mem_map,List.mem_filter,misses_iff,and_imp]
  rw [firstUnresolved_eq,earliest_eq_some]
  constructor
  · rintro ⟨front,back,whole,above,below⟩
    obtain ⟨before,l,after,split,missed,rfl,rfl,rfl⟩ := map_filter_eq_append_cons whole
    exact ⟨l,⟨before,after,split,(misses_iff s l).1 missed,among.1 above,among.1 below⟩,rfl⟩
  · rintro ⟨l,⟨before,after,split,missed,above,below⟩,rfl⟩
    refine ⟨_,_,?_,among.2 above,among.2 below⟩
    rw [split,List.filter_append,List.filter_cons_of_pos ((misses_iff s l).2 missed),
      List.map_append,List.map_cons]

theorem checkDeferred_eq_ok_iff : checkDeferred s = .ok () ↔ ∀ l ∈ s.lookups, s.Answers l := by
  rw [← firstUnresolved_eq_none_iff,checkDeferred]
  cases firstUnresolved s.globals s.deferred.reverse <;> simp

theorem checkDeferred_eq_error_iff {r : Raised} : checkDeferred s = .error r ↔
    ∃ l, s.Reports l ∧ r = .nameError l.ref.name l.ref.line := by
  have named : (∃ l, s.Reports l ∧ r = .nameError l.ref.name l.ref.line) ↔
      ∃ ref, firstUnresolved s.globals s.deferred.reverse = some ref ∧ r = .nameError ref.name ref.line := by
    simp only [firstUnresolved_eq_some_iff]
    constructor
    · rintro ⟨l,reported,rfl⟩
      exact ⟨l.ref,⟨l,reported,rfl⟩,rfl⟩
    · rintro ⟨_,⟨l,reported,rfl⟩,rfl⟩
      exact ⟨l,reported,rfl⟩
  rw [named,checkDeferred]
  cases firstUnresolved s.globals s.deferred.reverse <;> simp [eq_comm]

theorem mem_lookups_iff {l : Lookup} : l ∈ s.lookups ↔ ∃ root ∈ s.deferred, ∃ scope,
    root.Inside l.around scope ∧ l.frame = scope.frame ∧ l.ref ∈ scope.loads := by
  simp only [State.lookups,List.mem_flatMap,List.mem_reverse,Scope.mem_lookups_iff]

end Check

/-- The check at the end is exact. It passes if and only if every name that is looked up in a scope kept
for the end, or in a scope inside one, finds an answer; otherwise it fails with the lookup that finds
none, on the smallest line and in front of others on that line. The module enters only by leaving names
out, and the scopes inside a class do not depend on what the class binds and declares. -/
theorem deferred_check_exact (s : State) :
    (checkDeferred s = .ok () ↔ ∀ root ∈ s.deferred, ∀ around scope, root.Inside around scope →
      ∀ ref ∈ scope.loads, s.Answers ⟨around,scope.frame,ref⟩) ∧
    (∀ r, checkDeferred s = .error r ↔ ∃ l, s.Reports l ∧ r = .nameError l.ref.name l.ref.line) ∧
    (∀ (scope : Scope) (isModuleName : String → Bool) (around : List Frame),
      scope.unresolved isModuleName around =
        (scope.unresolved (fun _ => false) around).filter fun ref => !isModuleName ref.name) ∧
    ∀ (scope : Scope) (isModuleName : String → Bool) (near far : List Frame)
      (bindings globals nonlocals bindings' globals' nonlocals' : List String),
      scope.unresolved isModuleName (near ++ ⟨.classBody,bindings,globals,nonlocals⟩ :: far) =
        scope.unresolved isModuleName (near ++ ⟨.classBody,bindings',globals',nonlocals'⟩ :: far) := by
  refine ⟨?_,fun r => checkDeferred_eq_error_iff s,
    fun scope isModuleName around => Scope.unresolved_eq_filter isModuleName around scope,
    fun scope isModuleName near far _ _ _ _ _ _ =>
      Scope.unresolved_class isModuleName rfl rfl near far scope⟩
  rw [checkDeferred_eq_ok_iff]
  constructor
  · intro answered root kept around scope within ref loaded
    exact answered _ ((mem_lookups_iff s).2 ⟨root,kept,scope,within,rfl,loaded⟩)
  · rintro answered ⟨around,frame,ref⟩ member
    obtain ⟨root,kept,scope,within,rfl,loaded⟩ := (mem_lookups_iff s).1 member
    exact answered root kept around scope within ref loaded

end Excerpt.Execution
