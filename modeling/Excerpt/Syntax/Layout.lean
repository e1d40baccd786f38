import Excerpt.Text.Position

/-!
Line structure. What separates two tokens decides whether a line ends, a block opens or a block
closes there; which of these can be taken depends on what the grammar expects next.
-/
namespace Excerpt.Syntax
open Excerpt.Text

/-- What the grammar can take next, as far as the reading of the next token depends on it. -/
structure Expect where
  newline : Bool := false
  indent : Bool := false
  dedent : Bool := false
  /-- A string literal can begin. -/
  strings : Bool := false
  /-- Some closing bracket can follow. -/
  close : Bool := false
  /-- An exception handler can follow. -/
  handler : Bool := false
  /-- A handler of exception groups can follow. -/
  group : Bool := false
  /-- Dots are counted one by one, as in front of a relative module name. -/
  dots : Bool := false
deriving DecidableEq, Repr, Inhabited

/-- How a string literal was opened. -/
structure Delimiter where
  quote : Char
  triple : Bool
  format : Bool
  raw : Bool
  bytes : Bool
deriving DecidableEq, Repr, Inhabited

/-- The widths of the open blocks, innermost first, and whether the innermost string was opened
as a format string. -/
structure Layout where
  indents : List Nat
  inFormat : Bool
deriving DecidableEq, Repr, Inhabited

namespace Layout

def initial : Layout := ⟨[0],false⟩

/-- The blank stretch before a token: whether it holds a line end, how far the token's line is
indented, how far the first comment line passed was indented, and where the token begins. -/
structure Gap where
  broken : Bool
  width : Nat
  comment : Option Nat
  cursor : Cursor

/-- Reads a gap. Comment lines are passed only if `comments` holds. There is no gap to speak of
when a comment stands on the line that is still open, or when a backslash does not end its line. -/
def gap (comments : Bool) (inComment broken : Bool) (width : Nat) (comment : Option Nat) :
    List Char → Position → Option Gap
  | [],p => some ⟨true,0,comment,⟨[],p⟩⟩
  | c :: cs,p =>
    if inComment then
      gap comments (c != '\n' && c != '\x00') broken 0 comment cs (p.next c)
    else if c = '\n' then gap comments false true 0 comment cs (p.next c)
    else if c = ' ' then gap comments false broken (width + 1) comment cs (p.next c)
    else if c = '\r' || c = '\x0c' then gap comments false broken 0 comment cs (p.next c)
    else if c = '\t' then gap comments false broken (width + 8) comment cs (p.next c)
    else if c = '#' && comments then
      if broken then gap comments true broken 0 (comment.or (some width)) cs (p.next c) else none
    else if c = '\\' then
      match cs with
      | [] => gap comments false broken width comment [] (p.next c)
      | '\n' :: ds => gap comments false broken width comment ds ((p.next c).next '\n')
      | ['\r'] => gap comments false broken width comment [] ((p.next c).next '\r')
      | '\r' :: '\n' :: ds =>
        gap comments false broken width comment ds (((p.next c).next '\r').next '\n')
      | _ => none
    else some ⟨broken,width,comment,⟨c :: cs,p⟩⟩

def current (l : Layout) : Nat := l.indents.headD 0

inductive Mark
  | newline
  | indent
  | dedent
deriving DecidableEq, Repr

/-- The double quote, the single quote and the back quote open strings. -/
def isQuote (c : Char) : Bool := c == '\x22' || c == '\x27' || c == '\x60'

/-- What a gap means under the expectation `e`. A block also closes where no block end is
expected, unless the line can end there, a bracket is open, or an expected string begins. -/
def mark? (e : Expect) (l : Layout) (g : Gap) : Option (Mark × Layout) :=
  if !g.broken then none
  else if e.indent && l.current < g.width then some (.indent,{l with indents := g.width :: l.indents})
  else if (e.dedent || (!e.newline && !(e.strings && g.cursor.peek.any isQuote) && !e.close)) &&
      g.width < l.current && !l.inFormat && g.comment.all (· < l.current) then
    some (.dedent,{l with indents := l.indents.tail})
  else if e.newline then some (.newline,l)
  else none

/-- The opening of a string literal at the front of a text, with the number of its characters:
any of the letters for format, raw, bytes and text strings, then one quote or three. -/
def opening (format raw bytes : Bool) (count : Nat) : List Char → Option (Delimiter × Nat)
  | [] => none
  | c :: cs =>
    if c = 'f' || c = 'F' then opening true raw bytes (count + 1) cs
    else if c = 'r' || c = 'R' then opening format true bytes (count + 1) cs
    else if c = 'b' || c = 'B' then opening format raw true (count + 1) cs
    else if c = 'u' || c = 'U' then opening format raw bytes (count + 1) cs
    else if !isQuote c then none
    else if c != '\x60' && cs.take 2 == [c,c] then some (⟨c,true,format,raw,bytes⟩,count + 3)
    else some (⟨c,false,format,raw,bytes⟩,count + 1)

end Layout

end Excerpt.Syntax
