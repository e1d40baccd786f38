import Excerpt.Execution.Statement

/-!
Runs of whole programs. When the module is complete, every name that a function, lambda or
comprehension looks up must be found.
-/
namespace Excerpt.Execution
open Excerpt.Names Excerpt.Program

/-- Whether annotations are not evaluated: the module says so by a future import. -/
def isLazy (program : List Stmt) : Bool :=
  program.any fun
    | .importing s => s.kind == .future && s.names.any (·.name == "annotations")
    | _ => false

/-- The reference on the smallest line, the first of them if there are several. -/
def earliest : List NameRef → Option NameRef
  | [] => none
  | r :: rs =>
    match earliest rs with
    | some best => if best.line < r.line then some best else some r
    | none => some r

/-- The names of a module when it is complete: what it binds, and what functions bind as global. -/
def moduleNames (globals : Namespace) (deferred : List Scope) : List String :=
  globals.map (·.1) ++ deferred.flatMap Scope.globalStores

/-- The first name that is looked up in vain in the given scopes. -/
def firstUnresolved (globals : Namespace) (deferred : List Scope) : Option NameRef :=
  let names := moduleNames globals deferred
  let isModuleName (name : String) : Bool := names.contains name || isBuiltin name
  earliest (deferred.flatMap (Scope.unresolved isModuleName []))

def checkDeferred (s : State) : Except Raised Unit :=
  match firstUnresolved s.globals s.deferred.reverse with
  | some ref => .error (.nameError ref.name ref.line)
  | none => .ok ()

def run (known : List String) (program : List Stmt) : Except Raised Unit :=
  match executeAll (isLazy program) program (State.start known) with
  | (.ok _,s) => checkDeferred s
  | (.error r,_) => .error r

end Excerpt.Execution
