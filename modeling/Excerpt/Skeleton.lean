import Excerpt.Error
import Excerpt.Outline

/-!
Skeletons: the headers, decorators and docstrings of a source, without the code between them.
-/
namespace Excerpt
open Excerpt.Text Excerpt.Syntax

structure Skeleton where
  text : String
  unitCount : Nat
  docstringCount : Nat
deriving DecidableEq, Repr

/-- A piece of a skeleton and the line it stands for. -/
structure Fragment where
  line : Nat
  text : String
deriving DecidableEq, Repr

def indentation (depth : Nat) : String := String.ofList (List.replicate (4 * depth) ' ')

/-- A unit without its body: a docstring stays, and where nothing else would be left the body is
`pass`. -/
def unitText (u : ProgramUnit) : String :=
  let inner := "\n" ++ indentation (u.depth + 1)
  let doc := (u.docstring.map (inner ++ ·)).getD ""
  let rest := if u.kind != .classUnit || u.nested == 0 then inner ++ "pass" else ""
  indentation u.depth ++ u.header ++ doc ++ rest

def fragmentsOf (u : ProgramUnit) : List Fragment :=
  u.decorators.map (fun d => ⟨d.line,indentation u.depth ++ d.text⟩) ++ [⟨u.headerLine,unitText u⟩]

/-- Fragments are kept in the order of their lines, one for a line: the latest wins. -/
def insertFragment (f : Fragment) : List Fragment → List Fragment
  | [] => [f]
  | g :: gs =>
    if f.line < g.line then f :: g :: gs
    else if f.line = g.line then f :: gs
    else g :: insertFragment f gs

def layOut (units : List ProgramUnit) : List Fragment :=
  (units.flatMap fragmentsOf).foldl (fun fs f => insertFragment f fs) []

/-- A blank line stands between two fragments. -/
def renderSkeleton (units : List ProgramUnit) : String :=
  "\n\n".intercalate ((layOut units).map Fragment.text) ++ "\n"

def Source.skeleton (s : Source) : Except Error Skeleton :=
  let units := s.units
  if units.isEmpty then .error .noProgramUnits
  else .ok ⟨renderSkeleton units,units.length,units.countP (·.docstring.isSome)⟩

end Excerpt
