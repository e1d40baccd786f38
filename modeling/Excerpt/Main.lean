import Excerpt.Command.Run

/-!
The command line on the files of the system. No interpreter is started: validation by a process
reports that.
-/
namespace Excerpt
open Excerpt.Files

def faultOf : IO.Error → Fault
  | .noFileOrDirectory .. => .notFound
  | e => .other (toString e)

def attempt {α : Type} (action : IO α) : IO (Except Fault α) := do
  match ← action.toBaseIO with
  | .ok a => return .ok a
  | .error e => return .error (faultOf e)

/-- Whether the content of a file matters to a scan. -/
def isOfInterest (name : String) : Bool :=
  name.endsWith ".py" || [".ignore",".gitignore","exclude"].contains name

def loadFile (path name : String) : IO Node := do
  if isOfInterest name then
    match ← attempt (IO.FS.readBinFile path) with
    | .ok content => return .file content.toList
    | .error _ => return .file []
  else return .file []

/-- All files below a path. Links to folders are not followed. -/
partial def loadNode (path name : String) : IO Node := do
  let real ← IO.FS.realPath path
  if ← real.isDir then
    let mut children := []
    for entry in ← real.readDir do
      let below := path ++ "/" ++ entry.fileName
      let target ← IO.FS.realPath below
      if target == entry.path || !(← target.isDir) then
        children := (entry.fileName,← loadNode below entry.fileName) :: children
    return .folder children
  else loadFile path name

/-- The files that give rules in a folder. -/
def loadRules (folder : String) : IO Node := do
  let mut node := Node.folder []
  for names in [[".ignore"],[".gitignore"],[".git","info","exclude"]] do
    match ← attempt (IO.FS.readBinFile ("/".intercalate (folder :: names))) with
    | .ok content => node := Node.put (.file content.toList) names node
    | .error _ => pure ()
  return node

/-- The folders around a path, given as its names from the nearest to the outermost. -/
def loadTrail : List String → IO (List (String × Node))
  | [] => return []
  | name :: above => do
    let folder := "/" ++ "/".intercalate above.reverse
    return (name,← loadRules folder) :: (← loadTrail above)

def loadPlace (path : String) : IO Place := do
  let real := toString (← IO.FS.realPath path)
  let names := (real.splitOn "/").filter (!·.isEmpty)
  return ⟨← loadTrail names.reverse,← loadNode real (names.getLastD "")⟩

instance : Surroundings IO where
  currentFolder := return toString (← IO.currentDir)
  isPresent path := return (← attempt (IO.FS.realPath path >>= (·.metadata))).isOk
  read path := attempt (return (← IO.FS.readBinFile path).toList)
  write path content := attempt (IO.FS.writeFile path content)
  place path := attempt (loadPlace path)
  milliseconds := IO.monoMsNow

def noInterpreter : Command.Interpreter := fun settings _ =>
  .notStarted settings.python Fault.notFound.reason

end Excerpt

def main (arguments : List String) : IO UInt32 := do
  let outcome : Excerpt.Command.Outcome ←
    Excerpt.Command.runArguments Excerpt.noInterpreter arguments
  IO.print outcome.stdout
  IO.eprint outcome.stderr
  return outcome.code.toUInt32
