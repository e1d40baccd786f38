import Excerpt.Execution.Modules
import Excerpt.Names.Builtin
import Excerpt.Scope.Basic

/-!
The state of a run and its basic steps. A step that fails keeps what it changed before.
-/
namespace Excerpt.Execution
open Excerpt.Names

abbrev Namespace := List (String × Value)

structure State where
  modules : Modules
  globals : Namespace
  /-- The names of the class body that is running; without one, names belong to the module. -/
  locals : Option Namespace
  /-- Scopes to be checked when the module is complete, latest first. -/
  deferred : List Scope

abbrev Exec := ExceptT Raised (StateM State)

def State.start (known : List String) : State := ⟨Modules.empty known,[],none,[]⟩

/-- Binds a name in the current namespace. -/
def State.bind (s : State) (name : String) (value : Value) : State :=
  match s.locals with
  | some env => {s with locals := some (setAt name value env)}
  | none => {s with globals := setAt name value s.globals}

def State.find? (s : State) (name : String) : Option Value :=
  ((s.locals.bind (valueAt name)).or (valueAt name s.globals)).or
    (if isBuiltin name then some .unknown else none)

namespace Exec

def raise {α : Type} (r : Raised) : Exec α := throw r

def store (name : String) (value : Value) : Exec Unit := modify (·.bind name value)

def storeAll (names : List String) : Exec Unit :=
  modify fun s => names.foldl (fun s n => s.bind n .unknown) s

def lookup (name : String) (line : Nat) : Exec Value := do
  match (← get).find? name with
  | some value => return value
  | none => raise (.nameError name line)

/-- Unbinds a name of the current namespace. -/
def unbind (name : String) (line : Nat) : Exec Unit := do
  let s ← get
  match s.locals with
  | some env =>
    if (valueAt name env).isSome then set {s with locals := some (eraseAt name env)}
    else raise (.nameError name line)
  | none =>
    if (valueAt name s.globals).isSome then set {s with globals := eraseAt name s.globals}
    else raise (.nameError name line)

/-- Keeps a scope for the check at the end. -/
def defer (scope : Scope) : Exec Unit := modify fun s => {s with deferred := scope :: s.deferred}

/-- Runs a step and gives back how it ended. -/
def attempt {α : Type} (step : Exec α) : Exec (Except Raised α) := fun s =>
  let (result,after) := step s
  (.ok result,after)

/-- Runs a step that may not run at all: only faults of the syntax stand. -/
def perhaps {α : Type} (step : Exec α) : Exec (Option α) := do
  match ← attempt step with
  | .ok a => return some a
  | .error r => if r.isSyntaxError then raise r else return none

/-- Runs a step in the namespace of a new class body, which is gone afterwards. -/
def inClass {α : Type} (step : Exec α) : Exec α := fun s =>
  let fresh : Namespace :=
    [("__module__",.unknown),("__qualname__",.unknown),("__annotations__",.unknown)]
  let (result,after) := step {s with locals := some fresh}
  (result,{after with locals := s.locals})

/-- Requires that nothing speaks against using a value in the way that the message names. -/
def requireUnknown (value : Value) (message : String → String) : Exec Unit :=
  match value with
  | .unknown => pure ()
  | known => raise (.typeError (message known.typeName))

def requireCallable (value : Value) : Exec Unit :=
  requireUnknown value fun name => "'" ++ name ++ "' object is not callable"

def requireSubscriptable (value : Value) : Exec Unit :=
  requireUnknown value fun name => "'" ++ name ++ "' object is not subscriptable"

def requireIterable (value : Value) : Exec Unit :=
  requireUnknown value fun name => "'" ++ name ++ "' object is not iterable"

def requireManager (value : Value) : Exec Unit :=
  requireUnknown value fun name =>
    "'" ++ name ++ "' object does not support the context manager protocol"

def requireItems (value : Value) : Exec Unit :=
  requireUnknown value fun name => "'" ++ name ++ "' object does not support item assignment"

/-- Requires that a value can be the base of a class. -/
def requireBase (value : Value) : Exec Unit :=
  match value with
  | .unknown => pure ()
  | .nothing => raise (.typeError "NoneType takes no arguments")
  | .module _ => raise (.typeError "module() takes at most 2 arguments (3 given)")

/-- The result of a binary operation: unknown unless both operands are known to have none. -/
def combine (left right : Value) : Exec Value :=
  if left = .unknown ∨ right = .unknown then pure .unknown
  else raise (.typeError ("unsupported operand type(s): '" ++ left.typeName ++ "' and '" ++
    right.typeName ++ "'"))

def lacksAttribute (attr : String) : Raised :=
  .attributeError ("'NoneType' object has no attribute '" ++ attr ++ "'")

def attributeOf (object : Value) (attr : String) : Exec Value := do
  match object with
  | .module path => liftM ((← get).modules.attribute? path attr)
  | .nothing => raise (lacksAttribute attr)
  | .unknown => return .unknown

def setAttributeOf (object : Value) (attr : String) : Exec Unit :=
  match object with
  | .module path => modify fun s => {s with modules := s.modules.setAttribute path attr}
  | .nothing => raise (lacksAttribute attr)
  | .unknown => pure ()

end Exec

end Excerpt.Execution
