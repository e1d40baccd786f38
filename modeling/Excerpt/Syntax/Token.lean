import Excerpt.Syntax.Layout
import Excerpt.Text.Identifier

/-!
Tokens. A word is a keyword or an identifier according to where it stands, so tokens do not tell
the two apart. Among the marks the longest one counts.
-/
namespace Excerpt.Syntax
open Excerpt.Text

inductive Token
  | newline
  | indent
  | dedent
  | stringStart (delimiter : Delimiter)
  | word (spelling : String)
  | integer
  | float
  | mark (spelling : String)
  /-- How a value is converted before it is formatted, such as `!r`. -/
  | conversion
  | comment
  | continuation
  | finish
  | unknown
deriving DecidableEq, Repr, Inhabited

namespace Token

/-- Blanks that separate tokens and mean nothing else. -/
def isBlank (c : Char) : Bool :=
  c == ' ' || (9 ≤ c.toNat && c.toNat ≤ 13) || c == '\ufeff' || c == '\u2060' || c == '\u200b'

def skipBlanks : List Char → Position → Cursor
  | [],p => ⟨[],p⟩
  | c :: cs,p => if isBlank c then skipBlanks cs (p.next c) else ⟨c :: cs,p⟩

/-- The length of groups of digits in which single low lines may follow digits. -/
def digits (afterDigit : Bool) : List Char → Nat
  | [] => 0
  | c :: cs =>
    if c.isDigit then digits true cs + 1
    else if c = '_' && afterDigit then digits false cs + 1
    else 0

/-- The length of groups of digits of a base in which single low lines may precede digits. -/
def groups (isDigit : Char → Bool) : List Char → Nat
  | [] => 0
  | c :: cs =>
    if isDigit c then groups isDigit cs + 1
    else if c = '_' && cs.head?.any isDigit then groups isDigit cs + 1
    else 0

def isHexDigit (c : Char) : Bool :=
  c.isDigit || ('a' ≤ c && c ≤ 'f') || ('A' ≤ c && c ≤ 'F')

def suffix (letters : List Char) (cs : List Char) : Nat :=
  if cs.head?.any letters.contains then 1 else 0

/-- The length of a number written in base two, eight or sixteen. -/
def prefixedLength : List Char → Nat
  | '0' :: b :: cs =>
    let count :=
      if b = 'x' || b = 'X' then groups isHexDigit cs
      else if b = 'o' || b = 'O' then groups (fun c => '0' ≤ c && c ≤ '7') cs
      else if b = 'b' || b = 'B' then groups (fun c => c == '0' || c == '1') cs
      else 0
    if count = 0 then 0 else 2 + count + suffix ['l','L'] (cs.drop count)
  | _ => 0

def integerLength (cs : List Char) : Nat :=
  let count := digits false cs
  let decimal := if count = 0 then 0 else count + suffix ['l','L','j','J'] (cs.drop count)
  max (prefixedLength cs) decimal

/-- The length of an exponent, zero if there is none. -/
def exponentLength : List Char → Nat
  | e :: cs =>
    if e = 'e' || e = 'E' then
      let sign := suffix ['+','-'] cs
      let count := digits false (cs.drop sign)
      if count = 0 then 0 else 1 + sign + count
    else 0
  | [] => 0

/-- A float has digits around a point or an exponent after digits. -/
def floatLength (cs : List Char) : Nat :=
  let whole := digits false cs
  let tail := cs.drop whole
  let mantissa :=
    match tail with
    | '.' :: ds =>
      let fraction := digits false ds
      if whole = 0 && fraction = 0 then 0 else whole + 1 + fraction
    | _ => 0
  if mantissa = 0 then
    let exponent := if whole = 0 then 0 else exponentLength tail
    if exponent = 0 then 0 else whole + exponent + suffix ['j','J'] (cs.drop (whole + exponent))
  else
    let stop := mantissa + exponentLength (cs.drop mantissa)
    stop + suffix ['j','J'] (cs.drop stop)

def wordLength : List Char → Nat
  | [] => 0
  | c :: cs => if Identifier.isPart c then wordLength cs + 1 else 0

def commentLength : List Char → Nat
  | [] => 0
  | c :: cs => if c = '\n' then 0 else commentLength cs + 1

def marks3 : List String := ["**=","//=",">>=","<<=","..."]

def marks2 : List String :=
  ["**","//",">>","<<","<=",">=","==","!=","<>","->",":=","+=","-=","*=","/=","@=","%=","&=","^=","|="]

def marks1 : List String :=
  ["(",")","[","]","\x7b","\x7d",",",":",";",".","=","+","-","*","/","%","@","&","|","^","~","<",">"]

/-- The longest mark at the front of a text. Where dots are counted an ellipsis is three dots. -/
def mark? (dots : Bool) (cs : List Char) : Option String :=
  let three := String.ofList (cs.take 3)
  let two := String.ofList (cs.take 2)
  let one := String.ofList (cs.take 1)
  if marks3.contains three && !(dots && three == "...") then some three
  else if marks2.contains two then some two
  else if marks1.contains one then some one
  else none

/-- The token at the front of a text and the number of its characters. -/
def read (e : Expect) : List Char → Token × Nat
  | [] => (.finish,0)
  | c :: cs =>
    if c = '#' then (.comment,commentLength (c :: cs))
    else if c = '\\' then
      match cs with
      | '\n' :: _ => (.continuation,2)
      | '\x00' :: _ => (.continuation,2)
      | '\r' :: '\n' :: _ => (.continuation,3)
      | _ => (.unknown,0)
    else if Identifier.isStart c then
      let count := wordLength (c :: cs)
      let spelling := String.ofList ((c :: cs).take count)
      if e.group && spelling == "except" && (cs.drop (count - 1)).head? == some '*' then
        (.mark "except*",count + 1)
      else (.word spelling,count)
    else
      let whole := integerLength (c :: cs)
      let real := floatLength (c :: cs)
      if whole < real then (.float,real)
      else if 0 < whole then (.integer,whole)
      else
        match mark? e.dots (c :: cs) with
        | some spelling => (.mark spelling,spelling.length)
        | none =>
          if c = '!' && cs.head?.any Char.isLower then (.conversion,2) else (.unknown,0)

/-- A token with the cursors at its two ends and the line structure after it. -/
structure Scanned where
  token : Token
  start : Cursor
  stop : Cursor
  layout : Layout
deriving Inhabited

/-- The next token after `c`, comments and line continuations included. Marks of line structure
have no width and stand directly at `c`. -/
def scan (e : Expect) (l : Layout) (c : Cursor) : Scanned :=
  let plain : Scanned :=
    let start := skipBlanks c.rest c.place
    let (token,count) := read e start.rest
    ⟨token,start,start.drop count,l⟩
  let comments := e.indent || e.dedent || e.newline || e.handler
  match Layout.gap comments false false 0 none c.rest c.place with
  | none => plain
  | some g =>
    match l.mark? e g with
    | some (.newline,m) => ⟨.newline,c,c,m⟩
    | some (.indent,m) => ⟨.indent,c,c,m⟩
    | some (.dedent,m) => ⟨.dedent,c,c,m⟩
    | none =>
      if e.strings && g.comment.isNone then
        match Layout.opening false false false 0 g.cursor.rest with
        | some (d,count) =>
          ⟨.stringStart d,g.cursor,g.cursor.drop count,{l with inFormat := d.format}⟩
        | none => plain
      else plain

end Token

end Excerpt.Syntax
