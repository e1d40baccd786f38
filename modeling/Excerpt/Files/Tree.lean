/-!
Trees of files and folders, and how a path leads through them.
-/
namespace Excerpt.Files

inductive Node
  | file (content : List UInt8)
  | folder (children : List (String × Node))

/-- Why a file could not be used. -/
inductive Fault
  | notFound
  | notFolder
  | isFolder
  | notText
  /-- Any other reason, as the system states it. -/
  | other (reason : String)
deriving DecidableEq, Repr

def Fault.reason : Fault → String
  | .notFound => "No such file or directory (os error 2)"
  | .notFolder => "Not a directory (os error 20)"
  | .isFolder => "Is a directory (os error 21)"
  | .notText => "stream did not contain valid UTF-8"
  | .other reason => reason

namespace Node

def isFolder : Node → Bool
  | .file _ => false
  | .folder _ => true

def childAt? (name : String) : List (String × Node) → Option Node
  | [] => none
  | (other,node) :: rest => if other = name then some node else childAt? name rest

def child? (name : String) : Node → Option Node
  | .file _ => none
  | .folder children => childAt? name children

/-- The children with another node under a name. -/
def putChild (name : String) (node : Node) : List (String × Node) → List (String × Node)
  | [] => [(name,node)]
  | (other,old) :: rest =>
    if other = name then (name,node) :: rest else (other,old) :: putChild name node rest

/-- The tree with a node at a place, and with folders on the way to it. -/
def put (node : Node) : List String → Node → Node
  | [],_ => node
  | name :: names,.file _ => .folder [(name,put node names (.folder []))]
  | name :: names,.folder children =>
    .folder (putChild name (put node names ((childAt? name children).getD (.folder []))) children)

/-- The node under some names. -/
def at? : List String → Node → Option Node
  | [],node => some node
  | name :: names,node => (node.child? name).bind (at? names)

theorem childAt?_putChild (name : String) (node : Node) (children : List (String × Node)) :
    childAt? name (putChild name node children) = some node := by
  induction children with
  | nil => simp [putChild,childAt?]
  | cons child rest ih =>
    obtain ⟨other,old⟩ := child
    by_cases same : other = name <;> simp [putChild,childAt?,same,ih]

/-- What was put at a place is found there. -/
theorem at?_put (node : Node) (names : List String) (tree : Node) :
    at? names (put node names tree) = some node := by
  induction names generalizing tree with
  | nil => rfl
  | cons name names ih =>
    cases tree with
    | file content => simp [put,at?,child?,childAt?,ih]
    | folder children => simp [put,at?,child?,childAt?_putChild,ih]

end Node

/-- A node in its surroundings: the folders around it, nearest first, each with the name under which
the way goes on. -/
structure Place where
  trail : List (String × Node)
  node : Node

namespace Place

/-- The name of a place, the last on the way to it. -/
def name (p : Place) : String :=
  match p.trail with
  | [] => "/"
  | (name,_) :: _ => name

/-- The names on the way to a place. -/
def names (p : Place) : List String := (p.trail.map Prod.fst).reverse

/-- Follows names from a place. One point stays, two points go back. -/
def follow (p : Place) : List String → Except Fault Place
  | [] => .ok p
  | name :: names =>
    if !p.node.isFolder then .error .notFolder
    else if name = "." then follow p names
    else if name = ".." then
      match p.trail with
      | [] => follow p names
      | (_,parent) :: above => follow ⟨above,parent⟩ names
    else
      match p.node.child? name with
      | some child => follow ⟨(name,p.node) :: p.trail,child⟩ names
      | none => .error .notFound

end Place

end Excerpt.Files
