import Excerpt.Proofs.FromImport

/-!
What plain imports bind. An entry without an alias binds the first segment of its path to the module there,
and an entry with an alias binds that to the module at the whole path. An alias that is spelled like the
first segment is not told apart from no alias, and so is bound to the wrong module.
-/
namespace Excerpt
open Excerpt.Syntax

/-- An entry of a plain import: a dotted path, and the alias behind it if there is one. -/
structure ImportEntry where
  path : String
  rename : Option String
deriving DecidableEq, Repr

/-- The name that an entry binds. -/
def ImportEntry.target (e : ImportEntry) : String := e.rename.getD (firstSegment e.path)

/-- The entry that a part of an import statement stands for. -/
def entryOf? (t : Tree) : Option ImportEntry :=
  if t.is .dottedName || t.is .identifier then some ⟨dottedPath t.text,none⟩
  else if t.is .aliasedImport then
    (t.childText .name).bind fun path => (t.childText .alias).map fun name => ⟨dottedPath path,some name⟩
  else none

/-- The entries of a plain import, in the order of the source. -/
def importEntries (t : Tree) : List ImportEntry := t.namedChildren.filterMap entryOf?

theorem importedName?_eq_map (t : Tree) :
    importedName? true t = (entryOf? t).map fun e => ⟨e.path,e.target⟩ := by
  have of_kind {k : Kind} (kind : t.kind? = some k) : t.symbol = .named k := by
    unfold Tree.kind? at kind
    split at kind
    · next symbol => rw [symbol,Option.some.inj kind]
    · cases kind
  unfold importedName? entryOf?
  split
  · next kind => simp [Tree.is,of_kind kind,ImportEntry.target]
  · next kind => simp [Tree.is,of_kind kind,ImportEntry.target]
  · next kind =>
    simp only [Tree.is,of_kind kind]
    cases t.childText .name <;> cases t.childText .alias <;> rfl
  · next path name aliased =>
    have other {k : Kind} (differs : t.kind? ≠ some k) : t.is k = false := by
      rw [Tree.is,beq_eq_false_iff_ne]
      intro symbol
      exact differs (by rw [Tree.kind?,symbol])
    simp [other path,other name,other aliased]

end Excerpt

namespace Excerpt.Execution
open Excerpt.Program Excerpt.Syntax Exec

/-- The state after an entry of a plain import. -/
def State.introduce (s : State) (e : ImportEntry) : State :=
  State.bind {s with modules := s.modules.apply (.importing e.path 0 [])} e.target
    (.module (if e.target = firstSegment e.path then firstSegment e.path else e.path))

/-- A plain import never fails. -/
theorem importPlain_apply (entries : List ImportEntry) (s : State) :
    importPlain (entries.map fun e => ⟨e.path,e.target⟩) s = (.ok (),entries.foldl State.introduce s) := by
  induction entries generalizing s with
  | nil => rfl
  | cons e es ih =>
    rw [List.map_cons,importPlain_cons,bind_apply,importModule_apply]
    exact ih (s.introduce e)

theorem execute_plainImport {t : Tree} (plain : t.is .importStatement) (lazy : Bool) (s : State) :
    execute lazy (stmtOf t) s = (.ok (),(importEntries t).foldl State.introduce s) := by
  obtain ⟨l,cs⟩ := t
  have symbol : l.symbol = .named .importStatement := by simpa [Tree.is] using plain
  simp only [stmtOf,symbol,execute,runImport,plainImport]
  rw [← importPlain_apply,importEntries,List.map_filterMap]
  simp only [← importedName?_eq_map]

section Entries

variable {entries : List ImportEntry} {s : State} {n : String}

/-- Names that no entry binds keep their values. -/
theorem valueAt_introduced (unbound : ∀ e ∈ entries, e.target ≠ n) :
    valueAt n (entries.foldl State.introduce s).current = valueAt n s.current := by
  induction entries generalizing s with
  | nil => rfl
  | cons e es ih =>
    obtain ⟨here,later⟩ := List.forall_mem_cons.1 unbound
    rw [List.foldl_cons,ih later,State.introduce,State.current_bind,valueAt_setAt,if_neg here]
    rfl

/-- A name is bound as the last entry for it has it. -/
theorem valueAt_introduced_last {front back : List ImportEntry} {e : ImportEntry}
    (whole : entries = front ++ e :: back) (last : ∀ later ∈ back, later.target ≠ e.target) :
    valueAt e.target (entries.foldl State.introduce s).current =
      some (.module (if e.target = firstSegment e.path then firstSegment e.path else e.path)) := by
  rw [whole,List.foldl_append,List.foldl_cons,valueAt_introduced last,State.introduce,State.current_bind,
    valueAt_setAt,if_pos rfl]

theorem modules_introduced : (entries.foldl State.introduce s).modules =
    (entries.map fun e => Call.importing e.path 0 []).foldl Modules.apply s.modules := by
  induction entries generalizing s with
  | nil => rfl
  | cons e es ih => rw [List.foldl_cons,ih,State.introduce,State.modules_bind,List.map_cons,List.foldl_cons]

/-- Nothing else is touched: neither the scopes that are kept nor, in a class, the names of the module. -/
theorem frame_introduced : (entries.foldl State.introduce s).deferred = s.deferred ∧
    (entries.foldl State.introduce s).locals.isSome = s.locals.isSome ∧
    (s.locals.isSome → (entries.foldl State.introduce s).globals = s.globals) := by
  induction entries generalizing s with
  | nil => exact ⟨rfl,rfl,fun _ => rfl⟩
  | cons e es ih =>
    obtain ⟨deferred,level,globals⟩ := @ih (s.introduce e)
    rw [List.foldl_cons,deferred,level]
    cases inside : s.locals with
    | none => simp [State.introduce,State.bind,inside]
    | some env =>
      have kept : (s.introduce e).locals.isSome := by simp [State.introduce,State.bind,inside]
      rw [globals kept]
      simp [State.introduce,State.bind,inside]

end Entries

/-- A plain import always succeeds. Of the entries that bind the same name the last one counts: without an
alias it binds the first segment of its path to the module there, and with an alias it binds that to the
module at the whole path, unless the alias is the first segment of the path again. Then the name is bound
to the module at the first segment, as if there were no alias. All paths are imported in order, all other
names keep their values, and nothing else changes. -/
theorem plain_import_binds {t : Tree} (plain : t.is .importStatement) (lazy : Bool) (s : State) :
    ∃ u, execute lazy (stmtOf t) s = (.ok (),u) ∧
      (∀ front e back, importEntries t = front ++ e :: back →
        (∀ later ∈ back, later.target ≠ e.target) →
        (e.rename = none →
          valueAt (firstSegment e.path) u.current = some (.module (firstSegment e.path))) ∧
        (∀ name, e.rename = some name → name ≠ firstSegment e.path →
          valueAt name u.current = some (.module e.path)) ∧
        (e.rename = some (firstSegment e.path) →
          valueAt (firstSegment e.path) u.current = some (.module (firstSegment e.path)))) ∧
      (∀ n, (∀ e ∈ importEntries t, e.target ≠ n) → valueAt n u.current = valueAt n s.current) ∧
      u.modules =
        ((importEntries t).map fun e => Call.importing e.path 0 []).foldl Modules.apply s.modules ∧
      u.deferred = s.deferred ∧ u.locals.isSome = s.locals.isSome ∧
      (s.locals.isSome → u.globals = s.globals) := by
  refine ⟨_,execute_plainImport plain lazy s,fun front e back whole last => ?_,
    fun n unbound => valueAt_introduced unbound,modules_introduced,frame_introduced⟩
  have bound := valueAt_introduced_last (s := s) whole last
  refine ⟨fun unnamed => ?_,fun name named other => ?_,fun named => ?_⟩
  · have target : e.target = firstSegment e.path := by rw [ImportEntry.target,unnamed]; rfl
    rwa [target,if_pos rfl] at bound
  · have target : e.target = name := by rw [ImportEntry.target,named]; rfl
    rwa [target,if_neg other] at bound
  · have target : e.target = firstSegment e.path := by rw [ImportEntry.target,named]; rfl
    rwa [target,if_pos rfl] at bound

/-- Four entries, of which the second takes the name of the first and the last the first segment of its
own path. -/
theorem plain_import_binds_aliases : ∃ (root t : Tree) (u : State),
    readTree "import a.b, c . d as a, e.f, g.h as g\n" = some root ∧ t ∈ root.children ∧
    importEntries t = [⟨"a.b",none⟩,⟨"c.d",some "a"⟩,⟨"e.f",none⟩,⟨"g.h",some "g"⟩] ∧
    execute false (stmtOf t) (State.start []) = (.ok (),u) ∧
    valueAt "a" u.current = some (.module "c.d") ∧ valueAt "e" u.current = some (.module "e") ∧
    valueAt "g" u.current = some (.module "g") := by
  have computed : (readTree "import a.b, c . d as a, e.f, g.h as g\n").any fun root =>
      root.children.any fun t => t.is .importStatement && decide (importEntries t =
        [⟨"a.b",none⟩,⟨"c.d",some "a"⟩,⟨"e.f",none⟩,⟨"g.h",some "g"⟩]) := by decide +kernel
  obtain ⟨root,read,found⟩ := (Option.any_eq_true _ _).1 computed
  obtain ⟨t,child,checked⟩ := List.any_eq_true.1 found
  obtain ⟨plain,entries⟩ := Bool.and_eq_true_iff.1 checked
  replace entries := of_decide_eq_true entries
  obtain ⟨u,ran,binds,-⟩ := plain_import_binds plain false (State.start [])
  refine ⟨root,t,u,read,child,entries,ran,?_,?_,?_⟩
  · exact (binds [⟨"a.b",none⟩] ⟨"c.d",some "a"⟩ [⟨"e.f",none⟩,⟨"g.h",some "g"⟩] entries
      (by decide +kernel)).2.1 "a" rfl (by decide +kernel)
  · exact (binds [⟨"a.b",none⟩,⟨"c.d",some "a"⟩] ⟨"e.f",none⟩ [⟨"g.h",some "g"⟩] entries
      (by decide +kernel)).1 rfl
  · exact (binds [⟨"a.b",none⟩,⟨"c.d",some "a"⟩,⟨"e.f",none⟩] ⟨"g.h",some "g"⟩ [] entries
      (by decide +kernel)).2.2 (by decide +kernel)

/-- The same module under two aliases: it has its attribute under the one, but not under the other, which
is the first segment of its path. -/
theorem alias_taken_for_first_segment :
    validate [] "from vendor.sub import thing\nimport vendor.sub as other\nx = other.thing\n" = .valid ∧
      validate [] "from vendor.sub import thing\nimport vendor.sub as vendor\nx = vendor.thing\n" =
        .executionError "AttributeError" "module 'vendor' has no attribute 'thing'" := by
  decide +kernel

end Excerpt.Execution
