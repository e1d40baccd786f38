import Excerpt.Proofs.ClassBody
import Excerpt.Proofs.ModulePath

/-!
The cache of modules as it is seen from outside: which modules there are, whether they are real and
what they have under a name. Every operation has one equation for each of these views. From the
equations follows how modules and their submodules hang together, whatever is imported and assigned.
-/
namespace Excerpt.Execution
open Excerpt.Program Excerpt.Text Exec

namespace Modules

/-- Whether a module is real, if it was imported. -/
def real? (m : Modules) (path : String) : Option Bool := (m.entry? path).map ModuleEntry.real

/-- What a module that was imported has under a name. -/
def attr? (m : Modules) (path name : String) : Option Value :=
  (m.entry? path).bind fun entry => valueAt name entry.attributes

theorem contains_eq_real? (m : Modules) (path : String) : m.contains path = (m.real? path).isSome := by
  simp [contains,real?]

theorem real?_of_not_contains {m : Modules} {path : String} (new : ¬ m.contains path) :
    m.real? path = none := by
  simpa [contains_eq_real?] using new

theorem attr?_of_not_contains {m : Modules} {path : String} (new : ¬ m.contains path) (name : String) :
    m.attr? path name = none := by
  have absent : m.entry? path = none := by simpa [contains] using new
  simp [attr?,absent]

theorem real?_insert (m : Modules) (path x : String) (entry : ModuleEntry) :
    (m.insert path entry).real? x = if path = x then some entry.real else m.real? x := by
  rw [real?,lookup_insert]
  split <;> rfl

theorem attr?_insert (m : Modules) (path x n : String) (entry : ModuleEntry) :
    (m.insert path entry).attr? x n =
      if path = x then valueAt n entry.attributes else m.attr? x n := by
  rw [attr?,lookup_insert]
  split <;> rfl

theorem contains_insert (m : Modules) (path x : String) (entry : ModuleEntry) :
    (m.insert path entry).contains x ↔ path = x ∨ m.contains x := by
  rw [contains_eq_real?,contains_eq_real?,real?_insert]
  split <;> simp [*]

section Adjust
variable (m : Modules) (path : String) (change : List (String × Value) → List (String × Value))

theorem real?_adjust (x : String) : (m.adjust path change).real? x = m.real? x := by
  unfold adjust
  split
  · next entry here =>
    rw [real?_insert]
    split
    · next same => simp [real?,← same,here]
    · rfl
  · rfl

theorem contains_adjust (x : String) : (m.adjust path change).contains x = m.contains x := by
  rw [contains_eq_real?,contains_eq_real?,real?_adjust]

theorem attr?_adjust (x n : String) :
    (m.adjust path change).attr? x n =
      if path = x then (m.entry? path).bind fun entry => valueAt n (change entry.attributes)
      else m.attr? x n := by
  unfold adjust
  split
  · next entry here => rw [attr?_insert,here,Option.bind_some]
  · next absent =>
    split
    · next same => simp [attr?,← same,absent]
    · rfl

end Adjust

theorem attr?_link {m : Modules} {path : String} (there : m.contains path) (name : String)
    (value : Value) (x n : String) :
    (m.adjust path (setAt name value)).attr? x n =
      if path = x ∧ name = n then some value else m.attr? x n := by
  obtain ⟨entry,here⟩ := Option.isSome_iff_exists.1 there
  rw [attr?_adjust]
  by_cases same : path = x
  · subst same
    simp [here,valueAt_setAt,attr?]
  · simp [same]

theorem valueAt_fabricate (names : List String) (attributes : List (String × Value)) (n : String) :
    valueAt n (fabricate names attributes) =
      (valueAt n attributes).or (if n ∈ names then some .nothing else none) := by
  induction names generalizing attributes with
  | nil => simp [fabricate]
  | cons name names ih =>
    have later := ih (if (valueAt name attributes).isSome then attributes
      else setAt name .nothing attributes)
    refine later.trans ?_
    by_cases same : name = n
    · subst same
      cases found : valueAt name attributes <;> simp [found,valueAt_setAt]
    · have other : n ≠ name := Ne.symm same
      split <;> simp [valueAt_setAt,same,other]

theorem attr?_fabricate {m : Modules} {path : String} (there : m.contains path) (names : List String)
    (x n : String) :
    (m.adjust path (fabricate names)).attr? x n =
      (m.attr? x n).or (if path = x ∧ n ∈ names then some .nothing else none) := by
  obtain ⟨entry,here⟩ := Option.isSome_iff_exists.1 there
  rw [attr?_adjust]
  by_cases same : path = x
  · subst same
    simp [here,valueAt_fabricate,attr?]
  · simp [same]

theorem contains_of_reals {m after : Modules} {path : String} {real : Bool}
    (reals : ∀ x, after.real? x = (m.real? x).or (if Leads x path then some real else none))
    (x : String) : after.contains x ↔ m.contains x ∨ Leads x path := by
  rw [contains_eq_real?,contains_eq_real?,reals]
  by_cases leads : Leads x path <;> simp [leads]

/-- What making sure of a module changes: all that leads to it is there afterwards, and what is new
is an attribute of its parent. -/
structure Ensured (m : Modules) (real : Bool) (path : String) (after : Modules) : Prop where
  reals : ∀ x, after.real? x = (m.real? x).or (if Leads x path then some real else none)
  attrs : ∀ x n, after.attr? x n =
    if Undotted n ∧ Leads (join x n) path ∧ ¬ m.contains (join x n) then some (.module (join x n))
    else m.attr? x n

namespace Ensured

variable {m after : Modules} {real : Bool} {path leaf : String}

theorem contains (ensured : Ensured m real path after) (x : String) :
    after.contains x ↔ m.contains x ∨ Leads x path := contains_of_reals ensured.reals x

/-- Nothing changes if all is there. -/
theorem refl (known : ∀ x, Leads x path → m.contains x) : Ensured m real path m where
  reals x := by
    by_cases leads : Leads x path
    · have there : (m.real? x).isSome := contains_eq_real? m x ▸ known x leads
      rw [Option.or_of_isSome there]
    · simp [leads]
  attrs x n := by
    rw [if_neg]
    rintro ⟨-,leads,new⟩
    exact new (known _ leads)

theorem attr?_insert_new (new : ¬ m.contains path) (x n : String) :
    (m.insert path ⟨real,[]⟩).attr? x n = m.attr? x n := by
  rw [attr?_insert]
  split
  · next here => rw [← here,attr?_of_not_contains new,valueAt]
  · rfl

theorem root (plain : Undotted path) (new : ¬ m.contains path) :
    Ensured m real path (m.insert path ⟨real,[]⟩) where
  reals x := by
    rw [real?_insert]
    by_cases same : path = x
    · subst same
      simp [Leads.refl,real?_of_not_contains new]
    · have apart : ¬ Leads x path := by simpa [leads_of_undotted plain] using Ne.symm same
      simp [same,apart]
  attrs x n := by
    have apart : ¬ Leads (join x n) path := by
      rw [leads_of_undotted plain]
      rintro rfl
      exact plain (by simp [toList_join])
    rw [attr?_insert_new new,if_neg fun linked => apart linked.2.1]

/-- A new module is linked when its parents are there. -/
theorem child (plain : Undotted leaf) (new : ¬ m.contains (join path leaf))
    (grown : Ensured (m.insert (join path leaf) ⟨real,[]⟩) real path after) :
    Ensured m real (join path leaf) (after.adjust path (setAt leaf (.module (join path leaf)))) where
  reals x := by
    rw [real?_adjust,grown.reals,real?_insert]
    by_cases same : join path leaf = x
    · subst same
      simp [Leads.refl,real?_of_not_contains new]
    · have shorter : Leads x (join path leaf) ↔ Leads x path := by
        rw [leads_join plain]
        exact or_iff_right (Ne.symm same)
      simp [same,shorter]
  attrs x n := by
    have there : after.contains path := (grown.contains path).2 (.inr (.refl path))
    rw [attr?_link there,grown.attrs,attr?_insert_new new]
    by_cases same : path = x ∧ leaf = n
    · obtain ⟨rfl,rfl⟩ := same
      simp [plain,new,Leads.refl]
    · rw [if_neg same]
      refine ite_congr (propext (and_congr_right fun bare => ?_)) (fun _ => rfl) fun _ => rfl
      have other : join path leaf ≠ join x n := fun joined => same (join_inj plain bare joined)
      rw [leads_join plain,contains_insert,or_iff_right other,or_iff_right (Ne.symm other)]

end Ensured

/-- Every path that leads to a module of the cache is in the cache. -/
def Closed (m : Modules) : Prop := ∀ x y, Leads x y → m.contains y → m.contains x

/-- While the parents of a new module are not there yet, the cache is closed only at what leads to
the parents. -/
theorem ensured_ensure {real : Bool} {path leaf : String} {parents : List (String × String)}
    (line : Lineage ((path,leaf) :: parents)) (m : Modules)
    (closed : ∀ x y, Leads y path → Leads x y → m.contains y → m.contains x) :
    Ensured m real path (ensure real ((path,leaf) :: parents) m) := by
  induction parents generalizing path leaf m with
  | nil =>
    obtain ⟨plain⟩ := line
    rw [ensure]
    split
    · next there => exact .refl fun x leads => closed x path (.refl path) leads there
    · next new => exact .root plain new
  | cons parent parents ih =>
    obtain _ | ⟨plain,above⟩ := line
    rw [ensure]
    split
    · next there => exact .refl fun x leads => closed x _ (.refl _) leads there
    · next new =>
      -- The new path does not lead to its parent, so that its entry does not matter there.
      refine .child plain new (ih above _ fun x y up leads there => ?_)
      have other : join _ leaf ≠ y := fun same => not_leads_parent _ leaf (same ▸ up)
      rw [contains_insert] at there ⊢
      exact .inr (closed x y ((leads_join plain).2 (.inr up)) leads (there.resolve_left other))

theorem Closed.ensured {m : Modules} (closed : m.Closed) (real : Bool) (path : String) :
    Ensured m real path (ensure real (pathLineage path) m) := by
  obtain ⟨leaf,parents,line,spec⟩ := pathLineage_spec path
  rw [line] at spec ⊢
  exact ensured_ensure spec m fun x y _ => closed x y

/-- What an import of `path` for the sake of `names` changes. -/
structure Imported (m : Modules) (path : String) (names : List String) (after : Modules) : Prop where
  known : after.known = m.known
  reals : ∀ x, after.real? x = (m.real? x).or (if Leads x path then some (m.resolves path) else none)
  attrs : ∀ x n, after.attr? x n =
    (if Undotted n ∧ Leads (join x n) path ∧ ¬ m.contains (join x n) then some (.module (join x n))
      else m.attr? x n).or
      (if path = x ∧ m.resolves path = false ∧ n ∈ names then some .nothing else none)

theorem Imported.contains {m after : Modules} {path : String} {names : List String}
    (imported : Imported m path names after) (x : String) :
    after.contains x ↔ m.contains x ∨ Leads x path := contains_of_reals imported.reals x

theorem Imported.closed {m after : Modules} {path : String} {names : List String}
    (imported : Imported m path names after) (closed : m.Closed) : after.Closed := by
  intro x y leads there
  rw [imported.contains] at there ⊢
  exact there.imp (closed x y leads) leads.trans

theorem known_adjust (m : Modules) (path : String)
    (change : List (String × Value) → List (String × Value)) :
    (m.adjust path change).known = m.known := by
  unfold adjust
  split <;> rfl

theorem known_ensure (real : Bool) (line : List (String × String)) (m : Modules) :
    (ensure real line m).known = m.known := by
  induction line generalizing m with
  | nil => rfl
  | cons link parents ih =>
    rw [ensure]
    split
    · rfl
    · cases parents with
      | nil => rfl
      | cons parent parents => exact (known_adjust _ _ _).trans (ih _)

/-- An absolute import succeeds. -/
theorem Closed.imported {m : Modules} (closed : m.Closed) (path : String) (names : List String) :
    ∃ after, m.importPath path 0 names = .ok after ∧ Imported m path names after := by
  have ensured := closed.ensured (m.resolves path) path
  have there : (ensure (m.resolves path) (pathLineage path) m).contains path :=
    (ensured.contains path).2 (.inr (.refl path))
  refine ⟨_,rfl,?_⟩
  cases real : m.resolves path with
  | true =>
    rw [real] at ensured
    refine ⟨known_ensure _ _ m,by simpa [real] using ensured.reals,fun x n => ?_⟩
    simpa [real] using ensured.attrs x n
  | false =>
    rw [real] at ensured there
    refine ⟨(known_adjust _ _ _).trans (known_ensure _ _ m),fun x => ?_,fun x n => ?_⟩
    · simpa [real,real?_adjust] using ensured.reals x
    · simp [attr?_fabricate there,ensured.attrs,real]

theorem attr?_setAttribute (m : Modules) (path name x n : String) :
    (m.setAttribute path name).attr? x n =
      if path = x ∧ name = n ∧ m.contains path then some .unknown else m.attr? x n := by
  by_cases there : m.contains path
  · simpa [there,setAttribute] using attr?_link there name .unknown x n
  · have absent : m.entry? path = none := by simpa [contains] using there
    simp [setAttribute,adjust,absent,there]

theorem attribute?_of_attr? {m : Modules} {path name : String} {value : Value}
    (found : m.attr? path name = some value) : m.attribute? path name = .ok value := by
  obtain ⟨entry,here,held⟩ := Option.bind_eq_some_iff.1 found
  simp [attribute?,here,held]

end Modules

end Excerpt.Execution
