import Excerpt.Proofs.ModuleCache
import Mathlib.Data.List.Induction

/-!
What is known of modules after any number of imports and assignments to attributes. Modules hang
together with their submodules at every moment; and if there are imports only, their order does not
matter.
-/
namespace Excerpt.Execution
open Excerpt.Names Excerpt.Program Excerpt.Text Exec

/-- Something that changes what is known of modules. -/
inductive Call
  | importing (path : String) (level : Nat) (names : List String)
  /-- An assignment to the attribute `name` of the module at `path`. -/
  | setting (path name : String)
deriving DecidableEq, Repr

namespace Modules

/-- An import that fails changes nothing. -/
def apply (m : Modules) : Call → Modules
  | .importing path level names => ((m.importPath path level names).toOption).getD m
  | .setting path name => m.setAttribute path name

/-- What is known of modules after all calls. -/
def after (known : List String) (calls : List Call) : Modules := calls.foldl apply (empty known)

theorem after_snoc (known : List String) (calls : List Call) (call : Call) :
    after known (calls ++ [call]) = (after known calls).apply call := by
  simp [after]

theorem Closed.apply_absolute {m : Modules} (closed : m.Closed) (path : String) (names : List String) :
    Imported m path names (m.apply (.importing path 0 names)) := by
  obtain ⟨later,imported,spec⟩ := closed.imported path names
  have applied : m.apply (.importing path 0 names) = later := by rw [apply,imported]; rfl
  rwa [applied]

theorem keeps_apply (m : Modules) (call : Call) : m.Keeps (m.apply call) := by
  cases call with
  | importing path level names =>
    rw [apply]
    cases imported : m.importPath path level names with
    | error _ => exact .refl m
    | ok later => exact keeps_importPath imported
  | setting path name => exact keeps_adjust m path _

/-- An attribute was assigned while the submodule of its name was there. -/
def Overwritten (known : List String) (calls : List Call) (path name : String) : Prop :=
  ∃ before later, calls = before ++ .setting path name :: later ∧
    (after known before).contains (join path name)

/-- How modules and their submodules hang together, where `overwritten` says which attributes may
have been assigned. -/
structure Linked (overwritten : String → String → Prop) (m : Modules) : Prop where
  closed : m.Closed
  child : ∀ path name, Undotted name → m.contains (join path name) →
    m.attr? path name = some (.module (join path name)) ∨
      m.attr? path name = some .unknown ∧ overwritten path name
  module : ∀ path name x, m.attr? path name = some (.module x) → x = join path name ∧ m.contains x

namespace Linked

variable {overwritten : String → String → Prop} {m : Modules}

theorem empty (known : List String) : Linked overwritten (empty known) where
  closed _ _ _ there := nomatch there
  child _ _ _ there := nomatch there
  module _ _ _ found := nomatch found

theorem mono {later : String → String → Prop} (linked : Linked overwritten m)
    (implied : ∀ path name, overwritten path name → later path name) : Linked later m :=
  ⟨linked.closed,fun path name plain there =>
    (linked.child path name plain there).imp_right (And.imp_right (implied path name)),linked.module⟩

theorem importing (linked : Linked overwritten m) {path : String} {names : List String}
    {later : Modules} (imported : Imported m path names later) : Linked overwritten later where
  closed := imported.closed linked.closed
  child parent name plain there := by
    rw [imported.attrs]
    by_cases old : m.contains (join parent name)
    · rcases linked.child parent name plain old with held | ⟨held,assigned⟩
      · simp [old,held]
      · simp [old,held,assigned]
    · have leads := ((imported.contains _).1 there).resolve_left old
      simp [plain,leads,old]
  module parent name x found := by
    rw [imported.attrs,Option.or_eq_some_iff] at found
    rcases found with held | ⟨-,fabricated⟩
    · split at held
      · next new =>
        cases held
        exact ⟨rfl,(imported.contains _).2 (.inr new.2.1)⟩
      · obtain ⟨rfl,there⟩ := linked.module parent name x held
        exact ⟨rfl,(imported.contains _).2 (.inl there)⟩
    · split at fabricated <;> cases fabricated

theorem setting (linked : Linked overwritten m) (path name : String)
    (noted : m.contains (join path name) → overwritten path name) :
    Linked overwritten (m.setAttribute path name) where
  closed x y leads there := by
    simp only [setAttribute,contains_adjust] at there ⊢
    exact linked.closed x y leads there
  child parent leaf plain there := by
    simp only [setAttribute,contains_adjust] at there
    rw [attr?_setAttribute]
    split
    · next here =>
      obtain ⟨rfl,rfl,-⟩ := here
      exact .inr ⟨rfl,noted there⟩
    · exact linked.child parent leaf plain there
  module parent leaf x found := by
    rw [attr?_setAttribute] at found
    split at found
    · cases found
    · obtain ⟨same,there⟩ := linked.module parent leaf x found
      refine ⟨same,?_⟩
      simpa only [setAttribute,contains_adjust] using there

/-- One call keeps modules linked, if an assignment to a submodule is noted. -/
theorem apply (linked : Linked overwritten m) (call : Call)
    (noted : ∀ path name, call = .setting path name → m.contains (join path name) →
      overwritten path name) : Linked overwritten (m.apply call) := by
  cases call with
  | importing path level names =>
    cases level with
    | zero => exact linked.importing (linked.closed.apply_absolute path names)
    | succ level => exact linked
  | setting path name => exact linked.setting path name (noted path name rfl)

end Linked

theorem Overwritten.snoc {known : List String} {calls : List Call} {path name : String}
    (earlier : Overwritten known calls path name) (call : Call) :
    Overwritten known (calls ++ [call]) path name := by
  obtain ⟨before,later,rfl,there⟩ := earlier
  exact ⟨before,later ++ [call],by simp,there⟩

/-- Modules are linked after any calls. -/
theorem linked_after (known : List String) (calls : List Call) :
    Linked (Overwritten known calls) (after known calls) := by
  induction calls using List.reverseRecOn with
  | nil => exact .empty known
  | append_singleton calls call ih =>
    rw [after_snoc]
    refine (ih.mono fun path name earlier => earlier.snoc call).apply call ?_
    rintro path name rfl there
    exact ⟨calls,[],rfl,there⟩

theorem keeps_after (known : List String) (calls later : List Call) :
    (after known calls).Keeps (after known (calls ++ later)) := by
  induction later using List.reverseRecOn with
  | nil => simpa using Keeps.refl _
  | append_singleton later call ih =>
    rw [← List.append_assoc,after_snoc]
    exact ih.trans (keeps_apply _ call)

theorem Keeps.contains {m later : Modules} (keeps : m.Keeps later) {path : String}
    (there : m.contains path) : later.contains path := by
  obtain ⟨entry,here⟩ := Option.isSome_iff_exists.1 there
  obtain ⟨entry,still,-⟩ := keeps path entry here
  rw [Modules.contains,still]
  rfl

theorem contains_of_imported {known : List String} {calls : List Call} {path : String}
    {names : List String} (imported : .importing path 0 names ∈ calls) :
    (after known calls).contains path := by
  obtain ⟨before,later,rfl⟩ := List.append_of_mem imported
  have spec := (linked_after known before).closed.apply_absolute path names
  have there := (spec.contains path).2 (.inr (.refl path))
  rw [← after_snoc] at there
  rw [← List.singleton_append,← List.append_assoc]
  exact (keeps_after known (before ++ [.importing path 0 names]) later).contains there

/-- Reading attributes along the segments of a module leads to it, unless one of them was assigned. -/
theorem Linked.foldlM_attributeOf {overwritten : String → String → Prop} {s : State}
    (linked : Linked overwritten s.modules) (first : String) (passed : List String)
    (plain : ∀ name ∈ passed, Undotted name)
    (there : s.modules.contains (".".intercalate (first :: passed)))
    (unassigned : ∀ parent name, Leads (join parent name) (".".intercalate (first :: passed)) →
      ¬ overwritten parent name) :
    passed.foldlM attributeOf (.module first) s =
      (.ok (.module (".".intercalate (first :: passed))),s) := by
  induction passed using List.reverseRecOn with
  | nil =>
    rw [String.intercalate_singleton]
    rfl
  | append_singleton passed name ih =>
    have bare : Undotted name := plain name (by simp)
    have up := leads_intercalate first passed [name]
    have before := ih (fun n member => plain n (List.mem_append_left _ member))
      (linked.closed _ _ up there) fun parent n leads => unassigned parent n (leads.trans up)
    have path : ".".intercalate (first :: (passed ++ [name])) =
        join (".".intercalate (first :: passed)) name := intercalate_snoc (first :: passed) (by simp) name
    rw [path] at there unassigned ⊢
    have held := (linked.child _ name bare there).resolve_right fun assigned =>
      unassigned _ name (.refl _) assigned.2
    rw [List.foldlM_append,bind_apply,before]
    simp only [List.foldlM_cons,List.foldlM_nil,bind_pure]
    change (liftM (s.modules.attribute? _ name) : Exec Value) s = _
    rw [attribute?_of_attr? held]
    rfl

/-- What holds of the cache after any calls. The last part is about reading: after an absolute import
of a path, and if no attribute on the way was assigned, the segments of every part of the path lead
from the module of the first segment to the module of that part. -/
theorem cache_invariant (known : List String) (calls : List Call) :
    (∀ path name, Undotted name → (after known calls).contains (join path name) →
      (after known calls).contains path ∧
        ((after known calls).attr? path name = some (.module (join path name)) ∨
          (after known calls).attr? path name = some .unknown ∧ Overwritten known calls path name)) ∧
    (∀ path name x, (after known calls).attr? path name = some (.module x) →
      x = join path name ∧ (after known calls).contains x) ∧
    (∀ later, (after known calls).Keeps (after known (calls ++ later))) ∧
    ∀ path names, .importing path 0 names ∈ calls →
      (∀ parent name, Leads (join parent name) path → .setting parent name ∉ calls) →
      ∀ s : State, s.modules = after known calls → ∀ part, Leads part path →
        (splitAt '.' part).tail.foldlM attributeOf (.module (firstSegment path)) s =
          (.ok (.module part),s) := by
  have linked := linked_after known calls
  refine ⟨fun path name plain there => ⟨?_,linked.child path name plain there⟩,linked.module,
    keeps_after known calls,fun path names imported unset s same part leads => ?_⟩
  · exact linked.closed path _ (.inr ⟨name,rfl⟩) there
  · have segments := splitAt_eq_cons part
    have whole : ".".intercalate (firstSegment path :: (splitAt '.' part).tail) = part := by
      rw [← leads.firstSegment,← segments,intercalate_splitAt]
    have present : s.modules.contains part := by
      rw [same]
      exact linked.closed part path leads (contains_of_imported imported)
    rw [← same] at linked
    have read := linked.foldlM_attributeOf (firstSegment path) (splitAt '.' part).tail
      (fun name member => undotted_of_mem_splitAt (List.mem_of_mem_tail member))
    rw [whole] at read
    refine read present fun parent name up assigned => ?_
    obtain ⟨before,later,split,-⟩ := assigned
    exact unset parent name (up.trans leads) (by simp [split])

/-- A placeholder of a name that was imported gives way to the submodule, an assignment to another
attribute does no harm, and one to the submodule itself is seen. -/
theorem cache_invariant_submodule :
    (after [] [.importing "a" 0 ["b"],.importing "a.b.c" 0 [],.setting "a" "x",.setting "a.b" "c"]).attr?
        "a.b" "c" = some .unknown ∧
      Overwritten [] [.importing "a" 0 ["b"],.importing "a.b.c" 0 [],.setting "a" "x",.setting "a.b" "c"]
        "a.b" "c" ∧
      ∀ s : State, s.modules = after [] [.importing "a" 0 ["b"],.importing "a.b.c" 0 [],.setting "a" "x"] →
        (splitAt '.' "a.b").tail.foldlM attributeOf (.module (firstSegment "a.b.c")) s =
          (.ok (.module "a.b"),s) := by
  have invariant := cache_invariant []
    [.importing "a" 0 ["b"],.importing "a.b.c" 0 [],.setting "a" "x",.setting "a.b" "c"]
  have assigned : (after [] [.importing "a" 0 ["b"],.importing "a.b.c" 0 [],.setting "a" "x",
      .setting "a.b" "c"]).attr? "a.b" "c" = some .unknown := by decide +kernel
  obtain ⟨-,linked⟩ := invariant.1 "a.b" "c" (by decide) (by decide +kernel)
  refine ⟨assigned,(linked.resolve_left (by rw [assigned]; decide)).2,fun s same => ?_⟩
  refine (cache_invariant [] _).2.2.2 "a.b.c" [] (by simp) ?_ s same "a.b" (by decide)
  intro parent name leads set
  obtain ⟨rfl,rfl⟩ : parent = "a" ∧ name = "x" := by simpa using set
  exact absurd leads (by decide)

/-- Whether the first segment of a path makes its module real. -/
def isReal (known : List String) (path : String) : Bool :=
  standardModules.contains (firstSegment path) || known.contains (firstSegment path)

/-- The calls of absolute imports. -/
def imports (paths : List (String × List String)) : List Call :=
  paths.map fun i => .importing i.1 0 i.2

/-- What a module has under a name after absolute imports of `paths`. -/
def importedAttr (known : List String) (paths : List (String × List String)) (path name : String) :
    Option Value :=
  if Undotted name ∧ ∃ i ∈ paths, Leads (join path name) i.1 then some (.module (join path name))
  else if isReal known path = false ∧ ∃ i ∈ paths, i.1 = path ∧ name ∈ i.2 then some .nothing
  else none

theorem isReal_of_leads {known : List String} {part path : String} (leads : Leads part path) :
    isReal known part = isReal known path := by
  rw [isReal,isReal,leads.firstSegment]

theorem resolves_eq_isReal {m : Modules} (plain : ∀ name ∈ m.known, Undotted name) (path : String) :
    m.resolves path = isReal m.known path := by
  rw [resolves,isReal,Bool.or_eq_left_iff_imp]
  intro listed
  have member : path ∈ m.known := by simpa using listed
  rw [firstSegment_of_undotted (plain path member),listed,Bool.or_true]

/-- The cache after absolute imports of `paths`. -/
structure ImportsOnly (known : List String) (paths : List (String × List String)) (m : Modules) :
    Prop where
  configured : m.known = known
  reals : ∀ x, m.real? x = if ∃ i ∈ paths, Leads x i.1 then some (isReal known x) else none
  attrs : ∀ x n, m.attr? x n = importedAttr known paths x n

theorem ImportsOnly.contains {known : List String} {paths : List (String × List String)} {m : Modules}
    (only : ImportsOnly known paths m) (x : String) : m.contains x ↔ ∃ i ∈ paths, Leads x i.1 := by
  rw [contains_eq_real?,only.reals]
  split <;> simp [*]

theorem exists_leads_snoc {paths : List (String × List String)} {path x : String}
    {names : List String} :
    (∃ i ∈ paths ++ [(path,names)], Leads x i.1) ↔ (∃ i ∈ paths, Leads x i.1) ∨ Leads x path := by
  simp [or_and_right,exists_or]

theorem exists_listed_snoc {paths : List (String × List String)} {path x n : String}
    {names : List String} :
    (∃ i ∈ paths ++ [(path,names)], i.1 = x ∧ n ∈ i.2) ↔
      (∃ i ∈ paths, i.1 = x ∧ n ∈ i.2) ∨ path = x ∧ n ∈ names := by
  simp [or_and_right,exists_or]

/-- One more import changes the closed form as it changes the cache. -/
theorem ImportsOnly.snoc {known : List String} (plain : ∀ name ∈ known, Undotted name)
    {paths : List (String × List String)} {m later : Modules} (only : ImportsOnly known paths m)
    {path : String} {names : List String} (imported : Imported m path names later) :
    ImportsOnly known (paths ++ [(path,names)]) later := by
  have contained := only.contains
  obtain ⟨rfl,reals,attrs⟩ := only
  have resolved := resolves_eq_isReal plain path
  refine ⟨imported.known,fun x => ?_,fun x n => ?_⟩
  · rw [imported.reals,reals,resolved]
    simp only [exists_leads_snoc]
    by_cases leads : Leads x path <;> by_cases old : ∃ i ∈ paths, Leads x i.1
    · simp [old]
    · simp [old,leads,isReal_of_leads leads]
    · simp [old]
    · simp [old,leads]
  · rw [imported.attrs,attrs,resolved]
    simp only [importedAttr,exists_leads_snoc,exists_listed_snoc,contained]
    -- The attribute is a submodule since before, or becomes one now, or is none.
    by_cases linked : Undotted n ∧ ∃ i ∈ paths, Leads (join x n) i.1
    · simp [linked.1,linked.2]
    · by_cases new : Undotted n ∧ Leads (join x n) path
      · have fresh : ¬ ∃ i ∈ paths, Leads (join x n) i.1 := fun old => linked ⟨new.1,old⟩
        simp [new.1,new.2,fresh]
      · have unlinked : ¬ (Undotted n ∧ ((∃ i ∈ paths, Leads (join x n) i.1) ∨ Leads (join x n) path)) :=
          fun ⟨bare,leads⟩ => leads.elim (linked ⟨bare,·⟩) (new ⟨bare,·⟩)
        rw [if_neg fun h => new ⟨h.1,h.2.1⟩,if_neg linked,if_neg unlinked]
        by_cases listed : ∃ i ∈ paths, i.1 = x ∧ n ∈ i.2
        · cases real : isReal m.known x <;> simp +contextual [listed,real]
        · by_cases same : path = x
          · subst same
            simp [listed]
          · simp [listed,same]

theorem importsOnly_after {known : List String} (plain : ∀ name ∈ known, Undotted name)
    (paths : List (String × List String)) : ImportsOnly known paths (after known (imports paths)) := by
  induction paths using List.reverseRecOn with
  | nil => exact ⟨rfl,by simp [imports,after,empty,real?, entry?,valueAt],
      by simp [imports,after,empty,attr?, entry?,valueAt,importedAttr]⟩
  | append_singleton paths path ih =>
    have closed := (linked_after known (imports paths)).closed
    have step := ih.snoc plain (closed.apply_absolute path.1 path.2)
    rw [← after_snoc] at step
    simpa [imports] using step

/-- The same modules, as real and with the same attributes. -/
def Same (m other : Modules) : Prop :=
  ∀ x, m.real? x = other.real? x ∧ ∀ n, m.attr? x n = other.attr? x n

theorem importedAttr_perm {known : List String} {paths others : List (String × List String)}
    (perm : paths.Perm others) (path name : String) :
    importedAttr known paths path name = importedAttr known others path name := by
  simp only [importedAttr,perm.mem_iff]

/-- What absolute imports leave behind, in whatever order they come: the paths and all that leads to
them; modules that are real by their first segment alone; and as attributes the submodules, or `None`
for the other names that were imported from a placeholder. -/
theorem cache_of_imports {known : List String} (plain : ∀ name ∈ known, Undotted name)
    (paths : List (String × List String)) :
    (∀ x, (after known (imports paths)).contains x ↔ ∃ i ∈ paths, Leads x i.1) ∧
    (∀ x entry, Modules.entry? (after known (imports paths)) x = some entry →
      (entry.real ↔ firstSegment x ∈ standardModules ∨ firstSegment x ∈ known) ∧
      ∀ n, valueAt n entry.attributes =
        if Undotted n ∧ (after known (imports paths)).contains (join x n) then
          some (.module (join x n))
        else if entry.real = false ∧ ∃ i ∈ paths, i.1 = x ∧ n ∈ i.2 then some .nothing
        else none) ∧
    ∀ others, paths.Perm others → Same (after known (imports paths)) (after known (imports others)) := by
  have only := importsOnly_after plain paths
  refine ⟨only.contains,fun x entry here => ?_,fun others perm x => ?_⟩
  · have there : ∃ i ∈ paths, Leads x i.1 := by
      rw [← only.contains,Modules.contains,here]
      rfl
    have real : entry.real = isReal known x := by
      have reals := only.reals x
      rw [if_pos there,real?,here] at reals
      exact Option.some.inj reals
    refine ⟨by simp [real,isReal],fun n => ?_⟩
    have held : valueAt n entry.attributes = importedAttr known paths x n := by
      rw [← only.attrs,attr?,here,Option.bind_some]
    simp only [held,importedAttr,only.contains,real]
  · have also := importsOnly_after plain others
    refine ⟨?_,fun n => ?_⟩
    · simp only [only.reals,also.reals,perm.mem_iff]
    · rw [only.attrs,also.attrs,importedAttr_perm perm]

/-- A submodule that is imported after its name, and one of a package that is known. -/
theorem cache_of_imports_permuted :
    (∀ name ∈ ["numpy"], Undotted name) ∧
      (after ["numpy"] (imports [("a",["b","C"]),("a.b",["x"]),("numpy.linalg",["norm"])])).attr?
        "a" "b" = some (.module "a.b") ∧
      (after ["numpy"] (imports [("a",["b","C"]),("a.b",["x"]),("numpy.linalg",["norm"])])).attr?
        "a" "C" = some .nothing ∧
      Same (after ["numpy"] (imports [("a",["b","C"]),("a.b",["x"]),("numpy.linalg",["norm"])]))
        (after ["numpy"] (imports [("numpy.linalg",["norm"]),("a.b",["x"]),("a",["b","C"])])) := by
  have plain : ∀ name ∈ ["numpy"], Undotted name := by decide
  refine ⟨plain,by decide +kernel,by decide +kernel,?_⟩
  exact (cache_of_imports plain _).2.2 _ (List.reverse_perm _).symm

end Modules

/-- What a step makes of the modules is made by calls. -/
theorem Permitted.calls {effects : List Effect} {α : Type} {step : Exec α}
    (permitted : Permitted effects step) (s : State) :
    ∃ calls : List Call, (step s).2.modules = calls.foldl Modules.apply s.modules := by
  induction permitted generalizing s with
  | pure a => exact ⟨[],rfl⟩
  | raise fault => exact ⟨[],rfl⟩
  | @bind _ _ _ step next _ _ first rest =>
    obtain ⟨before,made⟩ := first s
    rw [bind_apply]
    rcases ran : step s with ⟨_ | a,t⟩
    · rw [ran] at made
      exact ⟨before,made⟩
    · rw [ran] at made
      obtain ⟨later,more⟩ := rest a t
      exact ⟨before ++ later,by rw [List.foldl_append,← made,← more]⟩
  | lookup covered =>
    rw [lookup_apply]
    exact ⟨[],rfl⟩
  | @store _ name value covered =>
    refine ⟨[],?_⟩
    change (s.bind name value).modules = s.modules
    cases found : s.locals <;> simp [State.bind,found]
  | @unbind _ name line covered =>
    refine ⟨[],?_⟩
    rw [unbind_apply]
    split
    · cases found : s.locals <;> simp [State.erase,found]
    · rfl
  | defer covered => exact ⟨[],rfl⟩
  | @recover _ _ _ step next _ _ _ first succeeded failed =>
    obtain ⟨before,made⟩ := first s
    rw [attempt_bind_apply]
    rcases ran : (step s).1 with r | a
    · obtain ⟨later,more⟩ := failed r (Permitted.fault ‹_› s r ran) (step s).2
      exact ⟨before ++ later,by rw [List.foldl_append,← made,← more]⟩
    · obtain ⟨later,more⟩ := succeeded a (step s).2
      exact ⟨before ++ later,by rw [List.foldl_append,← made,← more]⟩
  | inClass _ _ inside => exact inside ⟨s.modules,s.globals,some _,s.deferred⟩
  | consult _ rest => exact rest s.modules s
  | @importing _ path level names covered =>
    refine ⟨[.importing path level names],?_⟩
    rw [importModule_apply,List.foldl_cons,List.foldl_nil,Modules.apply]
    cases s.modules.importPath path level names <;> rfl
  | @setAttribute _ path attr covered => exact ⟨[.setting path attr],rfl⟩

/-- In every run, from its start to wherever it ends, modules are what some calls leave behind. -/
theorem modules_of_executeAll (lazy : Bool) (program : List Stmt) (known : List String) :
    ∃ calls, (executeAll lazy program (State.start known)).2.modules = Modules.after known calls :=
  (executeAll_permitted lazy program (List.Subset.refl _)).calls (State.start known)

end Excerpt.Execution
