import Excerpt.Source

/-!
Import statements and the names they bind.
-/
namespace Excerpt
open Excerpt.Text Excerpt.Syntax

inductive ImportKind
  | plain
  | fromModule
  | future
deriving DecidableEq, Repr

/-- A name as it is written in the module it comes from, and the name it is bound to. -/
structure ImportedName where
  name : String
  bound : String
deriving DecidableEq, Repr

structure ImportStatement where
  kind : ImportKind
  /-- The module the names come from; empty for plain imports. -/
  path : String
  /-- The number of dots in front of a relative module name. -/
  level : Nat
  names : List ImportedName
  wildcard : Bool
  line : Nat
  text : String
  startByte : Nat
  endByte : Nat
deriving DecidableEq, Repr

namespace ImportStatement

def boundNames (s : ImportStatement) : List String := s.names.map ImportedName.bound

def isRelative (s : ImportStatement) : Bool := 0 < s.level

end ImportStatement

/-- A dotted path without the blanks and backslashes it may be written with. -/
def dottedPath (raw : String) : String :=
  String.ofList (raw.toList.filter fun c => !isBlank c && c != '\\')

/-- What stands before the first dot. -/
def firstSegment (path : String) : String := String.ofList (path.toList.takeWhile (· != '.'))

/-- What stands behind the last dot. -/
def lastSegment (path : String) : String :=
  String.ofList (path.toList.reverse.takeWhile (· != '.')).reverse

/-- The name that a part of an import statement binds. A plain import of a path binds only its
first segment. -/
def importedName? (plain : Bool) (t : Tree) : Option ImportedName :=
  match t.kind? with
  | some .dottedName | some .identifier =>
    let name := dottedPath t.text
    some ⟨name,if plain then firstSegment name else name⟩
  | some .aliasedImport => do
    let name ← t.childText .name
    let bound ← t.childText .alias
    return ⟨dottedPath name,bound⟩
  | _ => none

/-- The module path and level that the module part of an import stands for. -/
def importedModule (t : Option Tree) : String × Nat :=
  match t with
  | none => ("",0)
  | some m =>
    let raw := dottedPath m.text
    if m.is .relativeImport then
      let level := (raw.toList.takeWhile (· == '.')).length
      (String.ofList (raw.toList.drop level),level)
    else (raw,0)

def plainImport (t : Tree) : ImportStatement :=
  ⟨.plain,"",0,t.namedChildren.filterMap (importedName? true),false,t.line,t.text,t.startByte,t.endByte⟩

/-- Everything behind the module part of the statement is an imported name or a wildcard. -/
def fromImport (t : Tree) : ImportStatement :=
  let part := t.child? .moduleName
  let stop := (part.map Tree.endByte).getD 0
  let (path,level) := importedModule part
  let imported := t.namedChildren.filter fun c => stop ≤ c.startByte
  ⟨.fromModule,path,level,imported.filterMap (importedName? false),
    imported.any (·.is .wildcardImport),t.line,t.text,t.startByte,t.endByte⟩

def futureImport (t : Tree) : ImportStatement :=
  ⟨.future,"__future__",0,t.namedChildren.filterMap (importedName? false),false,t.line,t.text,
    t.startByte,t.endByte⟩

def importStatement? (t : Tree) : Option ImportStatement :=
  match t.kind? with
  | some .importStatement => some (plainImport t)
  | some .importFromStatement => some (fromImport t)
  | some .futureImportStatement => some (futureImport t)
  | _ => none

/-- The import statements at the top level of a source, in order. -/
def Source.imports (s : Source) : List ImportStatement :=
  s.root.namedChildren.filterMap importStatement?

/-- The statements that bind at least one of the names in use. -/
def selectImports (imports : List ImportStatement) (used : List String) : List ImportStatement :=
  imports.filter fun s => s.boundNames.any used.contains

end Excerpt
