/-!
Places in a text. Offsets and columns count the bytes of the UTF-8 encoding, rows count the
line feeds passed, and all three start at zero.
-/
namespace Excerpt.Text

structure Position where
  byte : Nat
  row : Nat
  column : Nat
deriving DecidableEq, Repr, Inhabited

namespace Position

def start : Position := ⟨0,0,0⟩

/-- The place just after the character `c` that stands at `p`. -/
def next (p : Position) (c : Char) : Position :=
  if c = '\n' then ⟨p.byte + c.utf8Size,p.row + 1,0⟩
  else ⟨p.byte + c.utf8Size,p.row,p.column + c.utf8Size⟩

/-- The place after all of `cs` when the first of them stands at `p`. -/
def after (p : Position) (cs : List Char) : Position := cs.foldl next p

def line (p : Position) : Nat := p.row + 1

@[simp] theorem after_nil (p : Position) : p.after [] = p := rfl

@[simp] theorem after_cons (p : Position) (c : Char) (cs : List Char) :
    p.after (c :: cs) = (p.next c).after cs := rfl

theorem after_append (p : Position) (xs ys : List Char) :
    p.after (xs ++ ys) = (p.after xs).after ys := by
  simp [after]

end Position

/-- What remains of a text together with the place where it begins. -/
structure Cursor where
  rest : List Char
  place : Position
deriving Inhabited

namespace Cursor

def ofString (text : String) : Cursor := ⟨text.toList,Position.start⟩

def peek (c : Cursor) : Option Char := c.rest.head?

/-- One character further, or the same cursor at the end of the text. -/
def advance (c : Cursor) : Cursor :=
  match c.rest with
  | [] => c
  | x :: xs => ⟨xs,c.place.next x⟩

/-- `n` characters further, stopping at the end of the text. -/
def drop : Nat → Cursor → Cursor
  | 0,c => c
  | n + 1,c => drop n c.advance

/-- The characters at the front of `cs` that fill `n` bytes. -/
def takeBytes : Nat → List Char → List Char
  | _,[] => []
  | n,c :: cs => if n = 0 then [] else c :: takeBytes (n - c.utf8Size) cs

/-- What is read from `c` up to the byte offset `stop` of the same text. -/
def textUpTo (c : Cursor) (stop : Nat) : String := String.ofList (takeBytes (stop - c.place.byte) c.rest)

end Cursor

end Excerpt.Text
