/-!
White space in the sense of the Unicode property, trimming, and the lines of a text.
-/
namespace Excerpt.Text

/-- The Unicode property `White_Space`. -/
def isBlank (c : Char) : Bool :=
  let n := c.toNat
  (9 ≤ n && n ≤ 13) || n == 0x20 || n == 0x85 || n == 0xA0 || n == 0x1680 ||
    (0x2000 ≤ n && n ≤ 0x200A) || n == 0x2028 || n == 0x2029 || n == 0x202F || n == 0x205F ||
    n == 0x3000

theorem isBlank_of_isWhitespace (c : Char) (white : c.isWhitespace) : isBlank c := by
  have cases : c = ' ' ∨ c = '\t' ∨ c = '\r' ∨ c = '\n' := by
    simpa [Char.isWhitespace,or_assoc] using white
  rcases cases with rfl | rfl | rfl | rfl <;> decide

/-- Drops the characters at the end for which `p` holds. -/
def dropEndWhile (p : Char → Bool) (cs : List Char) : List Char :=
  (cs.reverse.dropWhile p).reverse

def trimEnd (s : String) : String := String.ofList (dropEndWhile isBlank s.toList)

def trimStart (s : String) : String := String.ofList (s.toList.dropWhile isBlank)

def trim (s : String) : String := trimStart (trimEnd s)

/-- The number of lines: every line feed ends one, and so does the end of a text that does not
end in a line feed. -/
def countLines : List Char → Nat
  | [] => 0
  | [_] => 1
  | c :: cs => if c = '\n' then countLines cs + 1 else countLines cs

def lineCount (s : String) : Nat := countLines s.toList

/-- The lines of a text without their ends; a carriage return before a line feed belongs to the
line end. -/
def linesOf (current : List Char) : List Char → List (List Char)
  | [] => if current.isEmpty then [] else [current.reverse]
  | c :: cs =>
    if c = '\n' then
      let line := match current with
        | '\r' :: before => before.reverse
        | _ => current.reverse
      line :: linesOf [] cs
    else linesOf (c :: current) cs

def lines (s : String) : List String := (linesOf [] s.toList).map String.ofList

/-- The parts of a text between the characters equal to `c`. -/
def splitChars (c : Char) (current : List Char) : List Char → List (List Char)
  | [] => [current.reverse]
  | d :: ds => if d = c then current.reverse :: splitChars c [] ds else splitChars c (d :: current) ds

def splitAt (c : Char) (s : String) : List String := (splitChars c [] s.toList).map String.ofList

end Excerpt.Text
