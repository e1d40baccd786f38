import Excerpt.Syntax.Token

/-!
The inside of string literals, piece by piece: stretches of text, escapes, doubled braces of
format strings, the brace that opens a replaced value, and the closing quotes.
-/
namespace Excerpt.Syntax
open Excerpt.Text

inductive Piece
  /-- A stretch of text up to the cursor. -/
  | text (stop : Cursor)
  | escape (stop : Cursor)
  /-- A backslash that escapes nothing. -/
  | backslash (stop : Cursor)
  | doubledBrace (stop : Cursor)
  | brace (start : Cursor)
  | close (stop : Cursor)
  | comment (start stop : Cursor)
  | continuation (start stop : Cursor)
  | broken
deriving Inhabited

namespace Quotation

/-- In a raw string a backslash takes one quote or backslash with it, and a line end after that. -/
inductive RawStep
  | plain
  | afterBackslash
  | afterEscaped
  | afterReturn
deriving DecidableEq

inductive Stretch
  | text (stop : Cursor)
  | close (stop : Cursor)
  /-- The stretch cannot be read as text. -/
  | other
  /-- The source ends inside the stretch. -/
  | ended
deriving Inhabited

/-- Whether a raw string passes over `c` after a backslash, and in which step it goes on. -/
def RawStep.next (d : Delimiter) (c : Char) : RawStep → Option RawStep
  | .plain => none
  | .afterBackslash =>
    if c == d.quote || c == '\\' then some .afterEscaped
    else if c == '\r' then some .afterReturn
    else if c == '\n' then some .plain
    else none
  | .afterEscaped =>
    if c == '\r' then some .afterReturn
    else if c == '\n' then some .plain
    else none
  | .afterReturn => if c == '\n' then some .plain else none

/-- Reads a stretch of text; `begun` says whether it holds anything yet. In a bytes string a
backslash before `N`, `u` or `U` is text, and so is the character after that letter. -/
def stretch (d : Delimiter) (step : RawStep) (begun : Bool) : List Char → Position → Stretch
  | [],_ => .ended
  | c :: cs,p =>
    if c = '\x00' then .ended
    else match step.next d c with
    | some step' => stretch d step' begun cs (p.next c)
    | none =>
      let upToHere : Stretch := if begun then .text ⟨c :: cs,p⟩ else .other
      if d.format && (c = '\x7b' || c = '\x7d') then upToHere
      else if c = '\\' then
        if d.raw then stretch d .afterBackslash begun cs (p.next c)
        else if d.bytes then
          match cs with
          | n :: ds =>
            if n = 'N' || n = 'u' || n = 'U' then
              match ds with
              | [] => .ended
              | x :: es => stretch d .plain true es (((p.next c).next n).next x)
            else upToHere
          | [] => upToHere
        else upToHere
      else if c = d.quote then
        if d.triple then
          match cs with
          | x :: y :: ds =>
            if x = c && y = c then
              if begun then .text ⟨c :: cs,p⟩ else .close ⟨ds,((p.next c).next x).next y⟩
            else if x = c then .text ⟨y :: ds,(p.next c).next x⟩
            else .text ⟨cs,p.next c⟩
          | [x] => if x = c then .text ⟨[],(p.next c).next x⟩ else .text ⟨cs,p.next c⟩
          | [] => .text ⟨[],p.next c⟩
        else if begun then .text ⟨c :: cs,p⟩
        else .close ⟨cs,p.next c⟩
      else if c = '\n' && begun && !d.triple then .other
      else stretch d .plain true cs (p.next c)

def hexDigits (n : Nat) (cs : List Char) : Bool :=
  (cs.take n).length == n && (cs.take n).all Token.isHexDigit

/-- The number of digits at the front, three at most. -/
def octalLength (cs : List Char) : Nat := ((cs.take 3).takeWhile Char.isDigit).length

/-- The length of a name in braces after `N`, the braces included. -/
def nameLength (cs : List Char) : Nat :=
  match cs with
  | '\x7b' :: ds =>
    let inner := ds.takeWhile (· != '\x7d')
    if inner.isEmpty || inner.length == ds.length then 0 else inner.length + 2
  | _ => 0

/-- The length of an escape after its backslash, zero if there is none. -/
def escapeLength : List Char → Nat
  | [] => 0
  | c :: cs =>
    if c = 'u' then if hexDigits 4 cs then 5 else 0
    else if c = 'U' then if hexDigits 8 cs then 9 else 0
    else if c = 'x' then if hexDigits 2 cs then 3 else 0
    else if c.isDigit then octalLength (c :: cs)
    else if c = '\n' then 1
    else if c = '\r' then if cs.head? == some '\n' then 2 else 0
    else if c = 'N' then
      let count := nameLength cs
      if count = 0 then 0 else count + 1
    else if ['\x27','\x22','a','b','f','r','n','t','v','\\'].contains c then 1
    else 0

/-- What stands at `c` when it cannot be read as text. Only here blanks are passed over. -/
def irregular (c : Cursor) : Piece :=
  match c.rest with
  | '\\' :: cs =>
    let count := escapeLength cs
    if count = 0 then .backslash (c.drop 1) else .escape (c.drop (count + 1))
  | _ =>
    let start := Token.skipBlanks c.rest c.place
    match start.rest with
    | '\x7b' :: _ => .brace start
    | _ =>
      match Token.read {} start.rest with
      | (.comment,count) => .comment start (start.drop count)
      | (.continuation,count) => .continuation start (start.drop count)
      | _ => .broken

/-- The piece of a string literal that begins at `c`. -/
def piece (d : Delimiter) (l : Layout) (c : Cursor) : Piece :=
  let brace : Option Piece :=
    match c.rest with
    | '\x7b' :: cs =>
      some (if cs.head? == some '\x7b' then .doubledBrace (c.drop 2) else .brace c)
    | '\x7d' :: cs =>
      some (if cs.head? == some '\x7d' then .doubledBrace (c.drop 2) else .broken)
    | _ => none
  match if d.format then brace else none with
  | some p => p
  | none =>
    match stretch d .plain false c.rest c.place with
    | .text stop => .text stop
    | .close stop => .close stop
    | .other => irregular c
    | .ended => if 0 < l.current && !l.inFormat then .broken else irregular c

end Quotation

end Excerpt.Syntax
