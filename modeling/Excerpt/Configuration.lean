import Excerpt.Error
import Excerpt.Toml.Reader
import Excerpt.Toml.Writer

/-!
The configuration and its file. A file that cannot be understood counts as if it were not there.
-/
namespace Excerpt

/-- What runs a source. -/
inductive Backend
  | static
  | process
deriving DecidableEq, Repr

def Backend.name : Backend → String
  | .static => "static"
  | .process => "process"

def Backend.ofName? : String → Option Backend
  | "static" => some .static
  | "process" => some .process
  | _ => none

structure SandboxSettings where
  backend : Backend := .static
  python : String := "python3"
  timeoutSecs : Nat := 10
  knownModules : List String := []
deriving DecidableEq, Repr

structure ScanSettings where
  ignore : List String := []
  workers : Option Nat := none
deriving DecidableEq, Repr

structure Configuration where
  sandbox : SandboxSettings := {}
  scan : ScanSettings := {}
deriving DecidableEq, Repr

namespace Configuration

/-- The name of the file that is looked for. -/
def fileName : String := "pyslice.toml"

/-- A value as a record, whose fields are found by name, or by position in an array. -/
def record? : Toml → Option (String → Nat → Option Toml)
  | .table _ fields => some fun name _ => Toml.fieldAt name fields
  | .array items => some fun _ i => items[i]?
  | .tables elements => some fun _ i => elements[i]?
  | .datetime => some fun _ _ => none
  | _ => none

/-- Reads a field that may be absent. -/
def optional {α : Type} (read : Toml → Option α) (default : α) : Option Toml → Option α
  | none => some default
  | some value => read value

def text? : Toml → Option String
  | .string s => some s
  | _ => none

def texts? : Toml → Option (List String)
  | .array items => items.mapM text?
  | .tables elements => elements.mapM text?
  | _ => none

def natural? : Toml → Option Nat
  | .integer n => if 0 ≤ n then some n.toNat else none
  | _ => none

def isEmpty : Toml → Bool
  | .array [] | .tables [] | .table _ [] => true
  | _ => false

/-- A backend is named by a string, or by the only key of a table with nothing under it. -/
def backend? : Toml → Option Backend
  | .string s => Backend.ofName? s
  | .table _ [(name,value)] => if isEmpty value then Backend.ofName? name else none
  | _ => none

def sandboxSettings? (value : Toml) : Option SandboxSettings := do
  let field ← record? value
  let defaults : SandboxSettings := {}
  return {
    backend := ← optional backend? defaults.backend (field "backend" 0)
    python := ← optional text? defaults.python (field "python" 1)
    timeoutSecs := ← optional natural? defaults.timeoutSecs (field "timeout_secs" 2)
    knownModules := ← optional texts? defaults.knownModules (field "known_modules" 3)
  }

def scanSettings? (value : Toml) : Option ScanSettings := do
  let field ← record? value
  let defaults : ScanSettings := {}
  return {
    ignore := ← optional texts? defaults.ignore (field "ignore" 0)
    workers := ← optional (fun v => (natural? v).map some) defaults.workers (field "parallel_workers" 1)
  }

def ofToml? (value : Toml) : Option Configuration := do
  let field ← record? value
  return {
    sandbox := ← optional sandboxSettings? {} (field "sandbox" 0)
    scan := ← optional scanSettings? {} (field "scan" 1)
  }

/-- The configuration that a text stands for. -/
def parse? (text : String) : Option Configuration := (Toml.read? text).bind ofToml?

def render (c : Configuration) : String :=
  "[sandbox]\nbackend = " ++ Toml.writeString c.sandbox.backend.name ++
    "\npython = " ++ Toml.writeString c.sandbox.python ++
    "\ntimeout_secs = " ++ toString c.sandbox.timeoutSecs ++
    "\nknown_modules = " ++ Toml.writeStrings c.sandbox.knownModules ++
    "\n\n[scan]\nignore = " ++ Toml.writeStrings c.scan.ignore ++ "\n" ++
    (match c.scan.workers with
      | some n => "parallel_workers = " ++ toString n ++ "\n"
      | none => "")

/-- Numbers in a file have 64 bits with a sign. -/
def inRange (n : Nat) : Bool := n < Nat.pow 2 63

/-- The text of a configuration whose numbers a file can hold. -/
def rendered (c : Configuration) : Except Error String :=
  if inRange c.sandbox.timeoutSecs && c.scan.workers.all inRange then .ok c.render
  else .error (.config "out-of-range value for u64 type")

/-- What is found where a configuration file is looked for. -/
inductive FileContent
  | absent
  | unreadable
  | text (content : String)

/-- The configuration of a file. Only a file that was asked for by name must exist. -/
def load (named : Option String) (content : FileContent) : Except Error Configuration :=
  match content,named with
  | .absent,some path => .error (.config ("config file not found: " ++ path))
  | .absent,none | .unreadable,_ => .ok {}
  | .text content,_ => .ok ((parse? content).getD {})

/-- The text of a new configuration file, which must not exist yet. -/
def initial (path : String) (exists? : Bool) : Except Error String :=
  if exists? then .error (.config (path ++ " already exists")) else rendered {}

end Configuration

end Excerpt
