import Excerpt.Proofs.ClassNames
import Excerpt.Proofs.NamePlaces
import Excerpt.Proofs.Permission
import Excerpt.Scan

/-!
The lines on which comments start. Since every node of a tree lies where it says, the row of a comment is
the number of line feeds in front of it; and since a comment is not empty, the text goes on there, so the
row is one of the lines. So there are no more lines with comments than lines, and the share of them that a
scan records lies between zero and one.
-/
namespace Excerpt.Text

end Excerpt.Text

namespace Excerpt.Syntax.Tree
open Excerpt.Text

/-- The nodes of a tree: itself and the nodes of its children. -/
inductive Contains : Tree → Tree → Prop
  | self (t : Tree) : t.Contains t
  | part {t c u : Tree} (child : c ∈ t.children) (inner : c.Contains u) : t.Contains u

theorem Placed.liesIn [Script] {t u : Tree} (placed : t.Placed) (contained : t.Contains u) : u.LiesIn := by
  induction contained with
  | self t => exact (placed_iff.1 placed).1
  | part child _ ih => exact ih ((placed_iff.1 placed).2 _ child)

end Excerpt.Syntax.Tree

namespace Excerpt
open Excerpt.Text Excerpt.Syntax

variable {source : Source}

/-- The number that a binary fraction stands for. -/
def BinaryFraction.value (x : BinaryFraction) : ℚ := x.mantissa / 2 ^ x.scale

end Excerpt
