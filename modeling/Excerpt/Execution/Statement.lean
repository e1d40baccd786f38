import Excerpt.Execution.Assignment

/-!
Execution of statements. Statements of the module and of class bodies run in order; a loop body
runs once; a branch that is not certain to run cannot fail, and binds its names all the same.
-/
namespace Excerpt.Execution
open Excerpt.Program Exec

/-- A plain import binds the first module of its path, or the whole path to an alias. -/
def importPlain : List ImportedName → Exec Unit
  | [] => return
  | n :: ns => do
    let modules ← liftM ((← get).modules.importPath n.name 0 [])
    modify fun s => {s with modules := modules}
    let root := firstSegment n.name
    store n.bound (.module (if n.bound = root then root else n.name))
    importPlain ns

/-- Binds a name to the value that a module has for it. -/
def bindAttribute (path : String) (n : ImportedName) : Except Raised Value → Exec Unit
  | .ok value => store n.bound value
  | .error _ =>
    raise (.importError path ("cannot import name '" ++ n.name ++ "' from '" ++ path ++ "'"))

/-- Binds the names that were imported from a module. -/
def bindImported (path : String) : List ImportedName → Exec Unit
  | [] => return
  | n :: ns => do
    bindAttribute path n ((← get).modules.attribute? path n.name)
    bindImported path ns

def runImport (s : ImportStatement) : Exec Unit := do
  match s.kind with
  | .plain => importPlain s.names
  | .fromModule | .future =>
    let names := s.names.map ImportedName.name
    let modules ← liftM ((← get).modules.importPath s.path s.level names)
    modify fun state => {state with modules := modules}
    bindImported s.path s.names

/-- The values of decorators: what stands first behind the `@`. -/
def decoratorValues : List Decoration → Exec (List Value)
  | [] => return []
  | d :: ds => do
    match d.items with
    | e :: _ => do
      let value ← evaluate e
      return value.value :: (← decoratorValues ds)
    | [] => decoratorValues ds

/-- Decorators are applied from the last to the first. -/
def applyDecorators (values : List Value) : Exec Unit := values.reverse.forM requireCallable

/-- Evaluates the bases and keywords of a class. -/
def evaluateBases : List Expr → Exec Unit
  | [] => return
  | e :: es => do
    let base ← evaluate e
    match e with
    | .keyword name _ => if name = "metaclass" then requireCallable base.value
    | .splat _ _ => pure ()
    | _ => requireBase base.value
    evaluateBases es

/-- The names of exceptions in the expression of a handler. -/
def exceptionNames : Expr → List String
  | .name id _ => [id]
  | .member _ attr => [attr]
  | .parens items => exceptionNamesAll items
  | .sequence form items => if form.isCatchable then exceptionNamesAll items else []
  | _ => []
where
  exceptionNamesAll : List Expr → List String
  | [] => []
  | e :: es => exceptionNames e ++ exceptionNamesAll es

/-- Whether a handler catches an exception: by the first item it names, or any if it names none. -/
def catches (items : List Expr) (r : Raised) : Bool :=
  match items with
  | [] => true
  | .aliased value _ :: _ => (exceptionNames value).any r.caughtBy
  | e :: _ => (exceptionNames e).any r.caughtBy

/-- Binds the aliases of a handler. -/
def bindAliases : List Expr → Exec Unit
  | [] => return
  | .aliased _ target :: es => do
    assign .unknown target
    bindAliases es
  | _ :: es => bindAliases es

/-- Enters the context managers of a `with` statement and binds their aliases. -/
def enterEach : List Expr → Exec Unit
  | [] => return
  | .aliased value target :: es => do
    requireManager (← evaluate value).value
    assign .unknown target
    enterEach es
  | e :: es => do
    requireManager (← evaluate e).value
    enterEach es

def captures (patterns : List PatternName) : List String :=
  patterns.filterMap fun
    | .capture name => some name
    | .load _ _ => none

/-- Binds the targets of the assignments among the items, and does not mind failures. -/
def bindTargets : List Expr → Exec Unit
  | [] => return
  | .assignment target _ _ :: es => do
    let _ ← attempt (assign .unknown target)
    bindTargets es
  | _ :: es => bindTargets es

/-- Binds the names of a statement that failed where it may not run. -/
def bindNames : Stmt → Exec Unit
  | .evaluate items => bindTargets items
  | .importing s => if s.kind = .future then return else storeAll s.boundNames
  | .define _ definition => store definition.name .unknown
  | _ => return

mutual
def execute (lazy : Bool) : Stmt → Exec Unit
  | .skip | .globals _ | .nonlocals _ => return
  | .evaluate items => performEach lazy items
  | .importing s => runImport s
  | .define decorations definition => do
    let decorators ← decoratorValues decorations
    define lazy definition
    applyDecorators decorators
    store definition.name .unknown
  | .branch branches => executeBranches lazy true branches
  | .forLoop target iterable body otherwise => do
    let source ← evaluate iterable
    requireIterable source.value
    match source.truth with
    | some false => executeAll lazy otherwise
    | some true => do
      assign .unknown target
      executeAll lazy body
      executeMaybe lazy otherwise
    | none => do
      let _ ← perhaps (assign .unknown target)
      executeMaybe lazy body
      executeMaybe lazy otherwise
  | .whileLoop condition body otherwise => do
    match (← evaluate condition).truth with
    | some false => executeAll lazy otherwise
    | some true => do
      executeAll lazy body
      executeMaybe lazy otherwise
    | none => do
      executeMaybe lazy body
      executeMaybe lazy otherwise
  | .attempt body handlers otherwise final => do
    let outcome ← attempt (executeAll lazy body)
    let result ← attempt (match outcome with
      | .ok _ => executeAll lazy otherwise
      | .error r => handle lazy r handlers)
    executeAll lazy final
    liftM result
  | .within items body => do
    enterEach items
    executeAll lazy body
  | .choose subjects cases => do
    evaluateOption subjects.head?
    executeCases lazy cases
  | .delete targets => removeEach targets
  | .raising items thrown => do
    match thrown with
    | none => raise (.other "RuntimeError" "No active exception to reraise" 0)
    | some t => do
      let _ ← evaluateEach items
      raise (.other t.exception t.message t.line)
  | .result place _ => raise (.syntaxError (place.row + 1) (place.column + 1))
  | .typeAlias name _ _ =>
    match name with
    | some n => store n .unknown
    | none => return
def executeAll (lazy : Bool) : List Stmt → Exec Unit
  | [] => return
  | s :: ss => do
    execute lazy s
    executeAll lazy ss
/-- Runs statements that may not run: a statement that fails still binds its names. -/
def executeMaybe (lazy : Bool) : List Stmt → Exec Unit
  | [] => return
  | s :: ss => do
    if (← perhaps (execute lazy s)).isNone then bindNames s
    executeMaybe lazy ss
def define (lazy : Bool) : Definition → Exec Unit
  | .classDef _ bases body => do
    evaluateBases bases
    inClass (executeAll lazy body)
  | .function _ parameters hint body => do
    let _ ← evaluateEach (definitionTime lazy parameters hint)
    defer (functionScope lazy parameters body)
/-- Runs branches up to the first that is certain. It is certain that a branch is reached if all
conditions before it are known to be false. -/
def executeBranches (lazy certain : Bool) : List Branch → Exec Unit
  | [] => return
  | .mk condition body :: rest => do
    let truth ← match condition with
      | none => pure (some true)
      | some c =>
        if certain then do
          pure (← evaluate c).truth
        else do
          pure ((← perhaps (evaluate c)).bind Appraisal.truth)
    match truth with
    | some false => executeBranches lazy certain rest
    | some true => if certain then executeAll lazy body else executeMaybe lazy body
    | none => do
      executeMaybe lazy body
      executeBranches lazy false rest
/-- Runs the first handler that catches the exception. -/
def handle (lazy : Bool) (r : Raised) : List Handler → Exec Unit
  | [] => raise r
  | .mk items body :: hs =>
    if catches items r then do
      bindAliases items
      executeAll lazy body
    else handle lazy r hs
/-- Every case may run or not; its captures are bound in any event. -/
def executeCases (lazy : Bool) : List Case → Exec Unit
  | [] => return
  | .mk patterns condition body :: cs => do
    storeAll (captures patterns)
    let _ ← perhaps (evaluateEach condition)
    executeMaybe lazy body
    executeCases lazy cs
end

end Excerpt.Execution
