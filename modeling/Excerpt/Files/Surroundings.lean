import Excerpt.Files.Tree
import Excerpt.Text.Blank

/-!
What a command asks of its surroundings, and a disk in memory that gives it.
-/
namespace Excerpt.Files
open Excerpt.Text

/-- Access to files by path, and the time. -/
class Surroundings (m : Type → Type) where
  /-- The current folder as it is shown. -/
  currentFolder : m String
  isPresent : String → m Bool
  read : String → m (Except Fault (List UInt8))
  write : String → String → m (Except Fault Unit)
  /-- The place that a path leads to, with all that is below it. -/
  place : String → m (Except Fault Place)
  milliseconds : m Nat

/-- Files in memory. Time stands still. -/
structure Disk where
  root : Node
  /-- The names on the way to the current folder. -/
  current : List String
  /-- The current folder as it is shown. -/
  shown : String

namespace Disk

/-- The names in a path. A slash at the end asks for a folder, just as one point does. -/
def pathNames (path : String) : List String :=
  let parts := splitAt '/' path
  parts.filter (!·.isEmpty) ++ (if parts.getLast? = some "" then ["."] else [])

/-- The names of a path from the root. -/
def fromRoot (d : Disk) (path : String) : List String :=
  if path.startsWith "/" then pathNames path else d.current ++ pathNames path

def place (d : Disk) (path : String) : Except Fault Place :=
  if path.isEmpty then .error .notFound else Place.follow ⟨[],d.root⟩ (d.fromRoot path)

def read (d : Disk) (path : String) : Except Fault (List UInt8) :=
  match d.place path with
  | .ok ⟨_,.file content⟩ => .ok content
  | .ok ⟨_,.folder _⟩ => .error .isFolder
  | .error fault => .error fault

/-- The names of the file that writing to a path makes or replaces. -/
def target (d : Disk) (path : String) : Except Fault (List String) :=
  match d.place path with
  | .ok p => if p.node.isFolder then .error .isFolder else .ok p.names
  | .error .notFound =>
    let names := d.fromRoot path
    match Place.follow ⟨[],d.root⟩ names.dropLast with
    | .ok p =>
      if path.endsWith "/" then .error .isFolder
      else if p.node.isFolder then .ok (p.names ++ [names.getLastD ""])
      else .error .notFolder
    | .error fault => .error fault
  | .error fault => .error fault

def write (d : Disk) (path content : String) : Except Fault Disk :=
  (d.target path).map fun names => {d with root := Node.put (.file content.toUTF8.toList) names d.root}

instance : Surroundings (StateM Disk) where
  currentFolder := return (← get).shown
  isPresent path := return ((← get).place path).isOk
  read path := return (← get).read path
  write path content := do
    match (← get).write path content with
    | .ok after => set after; return .ok ()
    | .error fault => return .error fault
  place path := return (← get).place path
  milliseconds := return 0

end Disk

end Excerpt.Files
