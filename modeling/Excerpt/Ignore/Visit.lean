import Excerpt.Files.Tree
import Excerpt.Ignore.Rules

/-!
The files below a place that no rule leaves out. A rule stands in a file of the folder that it is
for, and nearer folders come first. Where no rule matches, names that begin with a point are left
out.
-/
namespace Excerpt.Ignore
open Excerpt.Files

/-- Rules of a folder, and the names on the way from it to the folder that is visited. -/
structure RuleSet where
  trail : List String
  rules : List Rule

def RuleSet.decide? (set : RuleSet) (name : String) (isFolder : Bool) : Option Decision :=
  Ignore.decide? set.rules (set.trail ++ [name]) isFolder

def RuleSet.enter (name : String) (set : RuleSet) : RuleSet := {set with trail := set.trail ++ [name]}

/-- The rules in a file of a folder. -/
def rulesAt (path : List String) (folder : Node) : List Rule :=
  match folder.at? path with
  | some (.file content) => rulesOf content
  | _ => []

/-- The folder that is visited, and the rules in force. Those of one kind of file come before those
of the next. -/
structure Visit where
  /-- Rules that no file can lift, with the names from the root on. -/
  exclusions : RuleSet
  ignores : List RuleSet
  gitIgnores : List RuleSet
  gitExcludes : List RuleSet

namespace Visit

def trail (v : Visit) : List String := v.exclusions.trail

/-- The rules of the folder are in force from here on. -/
def addFolder (trail : List String) (folder : Node) (v : Visit) : Visit :=
  {v with
    ignores := ⟨trail,rulesAt [".ignore"] folder⟩ :: v.ignores
    gitIgnores := ⟨trail,rulesAt [".gitignore"] folder⟩ :: v.gitIgnores
    gitExcludes := ⟨trail,rulesAt [".git","info","exclude"] folder⟩ :: v.gitExcludes}

def enter (name : String) (folder : Node) (v : Visit) : Visit :=
  addFolder [] folder ⟨v.exclusions.enter name,v.ignores.map (RuleSet.enter name),
    v.gitIgnores.map (RuleSet.enter name),v.gitExcludes.map (RuleSet.enter name)⟩

def decide? (v : Visit) (name : String) (isFolder : Bool) : Option Decision :=
  (v.ignores ++ v.gitIgnores ++ v.gitExcludes).findSome? (·.decide? name isFolder)

def leavesOut (v : Visit) (name : String) (isFolder : Bool) : Bool :=
  if (v.exclusions.decide? name isFolder).isSome then true
  else
    match v.decide? name isFolder with
    | some decision => decision == .ignore
    | none => name.startsWith "."

end Visit

/-- A file and the names on the way to it. -/
structure FoundFile where
  path : List String
  content : List UInt8

mutual
def filesAt (v : Visit) (name : String) : Node → List FoundFile
  | .file content => [⟨v.trail ++ [name],content⟩]
  | .folder children => filesIn (v.enter name (.folder children)) children
def filesIn (v : Visit) : List (String × Node) → List FoundFile
  | [] => []
  | (name,node) :: rest =>
    (if v.leavesOut name node.isFolder then [] else filesAt v name node) ++ filesIn v rest
end

/-- The folders around a place give rules too. -/
def outerVisit (exclusions : List Rule) : List String → List (String × Node) → Visit
  | _,[] => ⟨⟨[],exclusions⟩,[],[],[]⟩
  | below,(name,folder) :: above =>
    (outerVisit exclusions (name :: below) above).addFolder (name :: below) folder

/-- The files below a place. A place that is a file itself is never left out. -/
def filesBelow (exclusions : List Rule) (p : Place) : List FoundFile :=
  match p.node with
  | .file content => [⟨[],content⟩]
  | .folder children =>
    filesIn ((outerVisit exclusions [] p.trail).addFolder [] p.node) children

/-- The part of a name behind its last point; a point at the front does not count. -/
def nameSuffix? (name : String) : Option (List Char) :=
  let last := name.toList.reverse
  match last.dropWhile (· != '.') with
  | '.' :: _ :: _ => some (last.takeWhile (· != '.')).reverse
  | _ => none

/-- The Python files below a place, in the order of the names on their paths. -/
def pythonFiles (exclusions : List Rule) (p : Place) : List FoundFile :=
  ((filesBelow exclusions p).filter fun f =>
      nameSuffix? (f.path.getLastD p.name) == some "py".toList).mergeSort
    fun a b => !b.path.lex a.path

end Excerpt.Ignore
