import Excerpt.Proofs.ImportHistory
import Excerpt.Validation

/-!
Imports of names from a module. Whether a module is real is settled by the first import that leads to
it, and what its own path says comes too late. A module that is known by a dotted path is therefore
a placeholder if it was first met on the way to one of its submodules, and then lacks every name that
nobody gave it.
-/
namespace Excerpt.Execution
open Excerpt.Program Excerpt.Text Exec

/-- The path that a call imports, if it leads through the module `x`. -/
def Call.via? (x : String) : Call → Option String
  | .importing path 0 _ => if Leads x path then some path else none
  | .importing _ (_ + 1) _ => none
  | .setting _ _ => none

theorem Call.via?_eq_some {x path : String} {call : Call} (through : call.via? x = some path) :
    Leads x path ∧ ∃ names, call = .importing path 0 names := by
  cases call with
  | importing target level names =>
    cases level with
    | zero =>
      rw [Call.via?] at through
      split at through
      · next leads =>
        cases through
        exact ⟨leads,names,rfl⟩
      · cases through
    | succ level => cases through
  | setting target name => cases through

namespace Modules

/-- The path whose import brought a module. -/
def introducer? (calls : List Call) (x : String) : Option String := calls.findSome? (Call.via? x)

/-- A module that is known by its path and is a placeholder all the same. -/
def demoted (known : List String) (calls : List Call) (path : String) : Bool :=
  (empty known).resolves path &&
    (introducer? calls path).any fun first => !(empty known).resolves first

/-- A name that a demoted module does not have. -/
def lacks (known : List String) (calls : List Call) (path name : String) : Bool :=
  demoted known calls path && ((after known calls).attr? path name).isNone

theorem introducer?_snoc (calls : List Call) (call : Call) (x : String) :
    introducer? (calls ++ [call]) x = (introducer? calls x).or (call.via? x) := by
  rw [introducer?,List.findSome?_append,List.findSome?_singleton]
  rfl

theorem known_apply (m : Modules) (call : Call) : (m.apply call).known = m.known := by
  cases call with
  | importing path level names =>
    cases level with
    | zero =>
      rw [apply]
      change (if m.resolves path then _ else _ : Modules).known = m.known
      split
      · exact known_ensure _ _ m
      · exact (known_adjust _ _ _).trans (known_ensure _ _ m)
    | succ level => rfl
  | setting path name => exact known_adjust m path _

theorem known_after (known : List String) (calls : List Call) : (after known calls).known = known := by
  induction calls using List.reverseRecOn with
  | nil => rfl
  | append_singleton calls call ih => rw [after_snoc,known_apply,ih]

theorem resolves_after (known : List String) (calls : List Call) (path : String) :
    (after known calls).resolves path = (empty known).resolves path := by
  simp only [resolves,known_after]
  rfl

theorem real?_apply {m : Modules} (closed : m.Closed) (call : Call) (x : String) :
    (m.apply call).real? x = (m.real? x).or ((call.via? x).map m.resolves) := by
  cases call with
  | importing path level names =>
    cases level with
    | zero =>
      rw [(closed.apply_absolute path names).reals,Call.via?]
      split <;> rfl
    | succ level => exact (Option.or_none).symm
  | setting path name => exact (real?_adjust m path _ x).trans Option.or_none.symm

/-- A module is as real as the path that brought it, whatever comes later. -/
theorem real?_after (known : List String) (calls : List Call) (x : String) :
    (after known calls).real? x = (introducer? calls x).map (empty known).resolves := by
  induction calls using List.reverseRecOn with
  | nil => rfl
  | append_singleton calls call ih =>
    have resolves : (after known calls).resolves = (empty known).resolves :=
      funext (resolves_after known calls)
    rw [after_snoc,real?_apply (linked_after known calls).closed,ih,introducer?_snoc,resolves]
    cases introducer? calls x <;> rfl

theorem demoted_eq (known : List String) (calls : List Call) (path : String) :
    demoted known calls path =
      ((after known calls).resolves path && (after known calls).real? path == some false) := by
  rw [demoted,resolves_after,real?_after]
  cases introducer? calls path with
  | none => rfl
  | some first => cases real : (empty known).resolves first <;> simp [real]

/-- Only a placeholder refuses to answer, and only for what it does not have. -/
theorem attribute?_answers (m : Modules) (path name : String) :
    (∃ value, m.attribute? path name = .ok value) ↔
      ¬ (m.real? path = some false ∧ m.attr? path name = none) := by
  rw [attribute?,real?,attr?]
  cases m.entry? path with
  | none => simp
  | some entry =>
    cases held : valueAt name entry.attributes with
    | some value => simp [held]
    | none => cases real : entry.real <;> simp [held,real]

/-- Just after an import, a name is missing if the module resolves, so that no name was made for it,
but is a placeholder. -/
theorem Imported.answers {m later : Modules} {path name : String} {names : List String}
    (imported : Imported m path names later) (listed : name ∈ names) :
    (∃ value, later.attribute? path name = .ok value) ↔
      ¬ ((m.resolves path = true ∧ m.real? path = some false) ∧ m.attr? path name = none) := by
  have unlinked : ¬ (Undotted name ∧ Leads (join path name) path ∧ ¬ m.contains (join path name)) :=
    fun linked => not_leads_parent path name linked.2.1
  rw [attribute?_answers,imported.reals,imported.attrs,if_neg unlinked,if_pos (.refl path)]
  cases real : m.resolves path with
  | true => cases held : m.real? path <;> simp
  | false => simp [listed]

theorem answers_after {known : List String} {calls : List Call} {path name : String}
    {names : List String} {later : Modules} (imported : Imported (after known calls) path names later)
    (listed : name ∈ names) :
    (∃ value, later.attribute? path name = .ok value) ↔ lacks known calls path name = false := by
  rw [imported.answers listed,lacks,demoted_eq]
  simp [Option.isSome_iff_ne_none]

/-- A demoted module is known by a dotted path of which nothing is known by the first segment, and
a path below it that is not known was imported. -/
theorem demoted_spec {known : List String} {calls : List Call} {path : String}
    (demoted : demoted known calls path) :
    path ∈ known ∧ ¬ Undotted path ∧ isReal known path = false ∧
      ∃ rest names, .importing (join path rest) 0 names ∈ calls ∧ join path rest ∉ known := by
  obtain ⟨resolved,brought⟩ := Bool.and_eq_true_iff.1 demoted
  obtain ⟨first,introduced,unresolved⟩ := (Option.any_eq_true _ _).1 brought
  obtain ⟨call,member,through⟩ := List.exists_of_findSome?_eq_some introduced
  obtain ⟨leads,names,rfl⟩ := Call.via?_eq_some through
  have unreal : isReal known first = false ∧ first ∉ known := by
    simpa [resolves,isReal,empty] using unresolved
  have root : isReal known path = false := (isReal_of_leads leads).trans unreal.1
  have listed : path ∈ known := by
    have either : isReal known path = true ∨ path ∈ known := by
      simpa [resolves,isReal,empty] using resolved
    exact either.resolve_left (by simp [root])
  refine ⟨listed,fun plain => ?_,root,?_⟩
  · have standing : isReal known path = true := by
      simp [isReal,firstSegment_of_undotted plain,listed]
    rw [root] at standing
    cases standing
  · rcases leads with rfl | ⟨rest,rfl⟩
    · exact absurd listed unreal.2
    · exact ⟨rest,names,member,unreal.2⟩

end Modules

theorem State.modules_bind (s : State) (name : String) (value : Value) :
    (s.bind name value).modules = s.modules := by
  cases found : s.locals <;> simp [State.bind,found]

/-- The fault of a name that a module does not have. -/
def cannotImport (path : String) (n : ImportedName) : Raised :=
  .importError path ("cannot import name '" ++ n.name ++ "' from '" ++ path ++ "'")

/-- Names are bound up to the first that the module does not have. -/
theorem bindImported_apply {path : String} {missing : ImportedName → Bool} (names : List ImportedName)
    {s : State} (tells : ∀ n ∈ names,
      (∃ value, s.modules.attribute? path n.name = .ok value) ↔ missing n = false) :
    (bindImported path names s).1 =
      (names.find? missing).elim (.ok ()) fun n => .error (cannotImport path n) := by
  induction names generalizing s with
  | nil => rfl
  | cons n ns ih =>
    have step : bindImported path (n :: ns) s =
        (bindAttribute path n (s.modules.attribute? path n.name) >>= fun _ => bindImported path ns) s := rfl
    have here := tells n (by simp)
    rw [step,bind_apply,List.find?_cons]
    cases lacking : missing n with
    | true =>
      cases answer : s.modules.attribute? path n.name with
      | error r => rfl
      | ok value =>
        rw [lacking] at here
        cases here.1 ⟨value,answer⟩
    | false =>
      obtain ⟨value,answer⟩ := here.2 lacking
      rw [answer]
      refine @ih (s.bind n.bound value) fun later member => ?_
      rw [s.modules_bind]
      exact tells later (List.mem_cons_of_mem n member)

namespace Modules

theorem runImport_after {known : List String} {calls : List Call} {statement : ImportStatement}
    (named : statement.kind ≠ .plain) (absolute : statement.level = 0) {s : State}
    (reached : s.modules = after known calls) :
    (runImport statement s).1 =
      (statement.names.find? fun n => lacks known calls statement.path n.name).elim (.ok ())
        fun n => .error (cannotImport statement.path n) := by
  obtain ⟨later,made,imported⟩ := (linked_after known calls).closed.imported statement.path
    (statement.names.map ImportedName.name)
  rw [runImport_from named,bind_apply,importModule_apply,reached,absolute,made]
  refine bindImported_apply statement.names fun n member => ?_
  exact answers_after imported (List.mem_map_of_mem member)

/-- After any calls, an absolute import succeeds, and its names are answered for and bound, except for
those that a demoted module lacks. A module is demoted only if it is known by a dotted path while its
first segment is neither standard nor known, and a submodule of it was imported that is not known. -/
theorem from_import_answered (known : List String) (calls : List Call) :
    (∀ path names, ∃ later, (after known calls).importPath path 0 names = .ok later ∧
      ∀ name ∈ names,
        (∃ value, later.attribute? path name = .ok value) ↔ lacks known calls path name = false) ∧
    (∀ (statement : ImportStatement) (s : State), statement.kind ≠ .plain → statement.level = 0 →
      s.modules = after known calls →
      (runImport statement s).1 =
        (statement.names.find? fun n => lacks known calls statement.path n.name).elim (.ok ())
          fun n => .error (cannotImport statement.path n)) ∧
    ∀ path name, lacks known calls path name →
      path ∈ known ∧ ¬ Undotted path ∧ isReal known path = false ∧
        (after known calls).attr? path name = none ∧
        ∃ rest names, .importing (join path rest) 0 names ∈ calls ∧ join path rest ∉ known := by
  refine ⟨fun path names => ?_,fun statement s named absolute => runImport_after named absolute,
    fun path name lacking => ?_⟩
  · obtain ⟨later,made,imported⟩ := (linked_after known calls).closed.imported path names
    exact ⟨later,made,fun name => answers_after imported⟩
  · obtain ⟨demoted,absent⟩ := Bool.and_eq_true_iff.1 lacking
    obtain ⟨listed,dotted,unreal,below⟩ := demoted_spec demoted
    exact ⟨listed,dotted,unreal,Option.isNone_iff_eq_none.1 absent,below⟩

/-- A package that is known by its dotted path, imported before and after one of its submodules. -/
theorem from_import_answered_package :
    (∃ later, (after ["vendor.sub"] [.importing "vendor.sub" 0 [],.importing "vendor.sub.leaf" 0 []]).importPath
      "vendor.sub" 0 ["thing"] = .ok later ∧ ∃ value, later.attribute? "vendor.sub" "thing" = .ok value) ∧
    ∃ later, (after ["vendor.sub"] [.importing "vendor.sub.leaf" 0 []]).importPath
      "vendor.sub" 0 ["thing"] = .ok later ∧ ¬ ∃ value, later.attribute? "vendor.sub" "thing" = .ok value := by
  have early : lacks ["vendor.sub"] [.importing "vendor.sub" 0 [],.importing "vendor.sub.leaf" 0 []]
      "vendor.sub" "thing" = false := by decide +kernel
  have late : lacks ["vendor.sub"] [.importing "vendor.sub.leaf" 0 []] "vendor.sub" "thing" = true := by
    decide +kernel
  constructor
  · obtain ⟨later,made,answers⟩ := (from_import_answered ["vendor.sub"]
      [.importing "vendor.sub" 0 [],.importing "vendor.sub.leaf" 0 []]).1 "vendor.sub" ["thing"]
    exact ⟨later,made,(answers "thing" (by simp)).2 early⟩
  · obtain ⟨later,made,answers⟩ := (from_import_answered ["vendor.sub"]
      [.importing "vendor.sub.leaf" 0 []]).1 "vendor.sub" ["thing"]
    refine ⟨later,made,fun answer => ?_⟩
    have held := (answers "thing" (by simp)).1 answer
    rw [late] at held
    cases held

/-- The same two imports are accepted in one order and refused in the other. -/
theorem import_refused_below_known :
    validate ["vendor.sub"] "from vendor.sub import thing\nimport vendor.sub.leaf\n" = .valid ∧
      validate ["vendor.sub"] "import vendor.sub.leaf\nfrom vendor.sub import thing\n" =
        .importRejected "vendor.sub" "cannot import name 'thing' from 'vendor.sub'" := by
  decide +kernel

end Modules

end Excerpt.Execution
