import Excerpt.Execution.Value
import Excerpt.Import
import Excerpt.Names.Library

/-!
The modules that a run has imported. Modules that ship with the interpreter or are known otherwise
are real, and nothing is known of their attributes. Every other module is a placeholder: it has the
submodules that were imported, and `None` for every name that was imported from it.
-/
namespace Excerpt.Execution
open Excerpt.Names Excerpt.Text

structure ModuleEntry where
  real : Bool
  attributes : List (String × Value)
deriving DecidableEq, Repr

structure Modules where
  known : List String
  entries : List (String × ModuleEntry)
deriving DecidableEq, Repr

/-- The value under a key in a list of pairs. -/
def valueAt {α : Type} (key : String) : List (String × α) → Option α
  | [] => none
  | (k,a) :: rest => if k = key then some a else valueAt key rest

/-- Sets the value under a key, in place if the key is there. -/
def setAt {α : Type} (key : String) (value : α) : List (String × α) → List (String × α)
  | [] => [(key,value)]
  | (k,a) :: rest => if k = key then (k,value) :: rest else (k,a) :: setAt key value rest

def eraseAt {α : Type} (key : String) (pairs : List (String × α)) : List (String × α) :=
  pairs.filter (·.1 != key)

theorem valueAt_setAt {α : Type} (key other : String) (value : α) (pairs : List (String × α)) :
    valueAt other (setAt key value pairs) = if key = other then some value else valueAt other pairs := by
  induction pairs with
  | nil => simp [setAt,valueAt]
  | cons pair rest ih =>
    obtain ⟨k,a⟩ := pair
    by_cases same : k = key
    · subst same
      by_cases here : k = other <;> simp [setAt,valueAt,here]
    · by_cases here : k = other
      · subst here
        simp [setAt,valueAt,same,Ne.symm same]
      · simp [setAt,valueAt,same,here,ih]

theorem valueAt_eraseAt {α : Type} (key other : String) (pairs : List (String × α)) :
    valueAt other (eraseAt key pairs) = if key = other then none else valueAt other pairs := by
  induction pairs with
  | nil => simp [eraseAt,valueAt]
  | cons pair rest ih =>
    obtain ⟨k,a⟩ := pair
    simp only [eraseAt] at ih
    by_cases same : k = key
    · subst same
      by_cases here : k = other
      · subst here
        simpa [eraseAt] using ih
      · simp [eraseAt,valueAt,here,ih]
    · by_cases here : k = other
      · subst here
        simp [eraseAt,valueAt,same,Ne.symm same]
      · simp [eraseAt,valueAt,same,here,ih]

/-- A path as its last segment and its parent, from the whole path down to the first segment. -/
def lineage : List String → List (String × String)
  | [] => []
  | leaf :: parents => (".".intercalate (leaf :: parents).reverse,leaf) :: lineage parents

def pathLineage (path : String) : List (String × String) := lineage (splitAt '.' path).reverse

namespace Modules

def empty (known : List String) : Modules := ⟨known,[]⟩

def entry? (m : Modules) (path : String) : Option ModuleEntry := valueAt path m.entries

def contains (m : Modules) (path : String) : Bool := (m.entry? path).isSome

def insert (m : Modules) (path : String) (entry : ModuleEntry) : Modules :=
  {m with entries := setAt path entry m.entries}

/-- Changes the attributes of a module that was imported. -/
def adjust (m : Modules) (path : String)
    (change : List (String × Value) → List (String × Value)) : Modules :=
  match m.entry? path with
  | some entry => m.insert path {entry with attributes := change entry.attributes}
  | none => m

/-- Whether a path leads to a real module. -/
def resolves (m : Modules) (path : String) : Bool :=
  standardModules.contains (firstSegment path) || m.known.contains (firstSegment path) ||
    m.known.contains path

/-- Makes sure that a module and its parents exist, and that a new module is an attribute of its
parent. -/
def ensure (real : Bool) : List (String × String) → Modules → Modules
  | [],m => m
  | (path,leaf) :: parents,m =>
    if m.contains path then m
    else
      let grown := ensure real parents (m.insert path ⟨real,[]⟩)
      match parents with
      | [] => grown
      | (parent,_) :: _ => grown.adjust parent (setAt leaf (.module path))

/-- The names that a placeholder has, once they were imported from it. -/
def fabricate (names : List String) (attributes : List (String × Value)) : List (String × Value) :=
  names.foldl (fun as n => if (valueAt n as).isSome then as else setAt n .nothing as) attributes

/-- Imports the module at a path for the sake of the given names. -/
def importPath (m : Modules) (path : String) (level : Nat) (names : List String) :
    Except Raised Modules :=
  if 0 < level then
    .error (.importError path "attempted relative import with no known parent package")
  else
    let real := m.resolves path
    let grown := ensure real (pathLineage path) m
    .ok (if real then grown else grown.adjust path (fabricate names))

/-- The attribute of a module. A placeholder has only what was put there. -/
def attribute? (m : Modules) (path name : String) : Except Raised Value :=
  match m.entry? path with
  | none => .ok .unknown
  | some entry =>
    match valueAt name entry.attributes with
    | some value => .ok value
    | none =>
      if entry.real then .ok .unknown
      else .error (.attributeError ("module '" ++ path ++ "' has no attribute '" ++ name ++ "'"))

def setAttribute (m : Modules) (path name : String) : Modules :=
  m.adjust path (setAt name .unknown)

end Modules

end Excerpt.Execution
