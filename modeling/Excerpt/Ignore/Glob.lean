/-!
Glob patterns on paths. A path is matched byte by byte as a whole; its names are joined by slashes.
-/
namespace Excerpt.Ignore

/-- The byte that stands between the names of a path. -/
def slash : UInt8 := 0x2F

inductive GlobToken
  | byte (value : UInt8)
  /-- Any one byte but a slash. -/
  | any
  /-- Any number of bytes but slashes. -/
  | run
  | oneOf (negated : Bool) (ranges : List (UInt8 × UInt8))
  /-- Any folders in front of a path, or none. -/
  | leading
  /-- A slash and all that follows. -/
  | trailing
  /-- A slash, or any folders between two slashes. -/
  | between
  | choice (alternatives : List (List GlobToken))

abbrev Glob := List GlobToken

/-- What is left of a text behind a run of bytes that are no slashes: all the possibilities. -/
def afterRun : List UInt8 → List (List UInt8)
  | [] => [[]]
  | b :: bs => (b :: bs) :: (if b == slash then [] else afterRun bs)

/-- What is left of a text behind each of its slashes. -/
def afterSlashes : List UInt8 → List (List UInt8)
  | [] => []
  | b :: bs => if b == slash then bs :: afterSlashes bs else afterSlashes bs

/-- What is left behind one byte for which `p` holds. -/
def afterByte (p : UInt8 → Bool) : List UInt8 → List (List UInt8)
  | [] => []
  | b :: bs => if p b then [bs] else []

/-- All ends of a text, the text itself and the empty one included. -/
def ends : List UInt8 → List (List UInt8)
  | [] => [[]]
  | b :: bs => (b :: bs) :: ends bs

def inRanges (ranges : List (UInt8 × UInt8)) (b : UInt8) : Bool :=
  ranges.any fun (low,high) => low ≤ b && b ≤ high

mutual
/-- A token with nothing in it: a choice between nothing. -/
def GlobToken.isVoid : GlobToken → Bool
  | .choice alternatives => allVoid alternatives
  | _ => false
def isVoidGlob : List GlobToken → Bool
  | [] => true
  | t :: ts => t.isVoid && isVoidGlob ts
def allVoid : List (List GlobToken) → Bool
  | [] => true
  | g :: gs => isVoidGlob g && allVoid gs
end

mutual
/-- What may be left of a text behind a token. -/
def GlobToken.rests : GlobToken → List UInt8 → List (List UInt8)
  | .byte value,text => afterByte (· == value) text
  | .any,text => afterByte (· != slash) text
  | .run,text => afterRun text
  | .oneOf negated ranges,text => afterByte (fun b => inRanges ranges b != negated) text
  | .leading,text => text :: afterSlashes text
  | .trailing,text => (afterByte (· == slash) text).flatMap ends
  | .between,text => (afterByte (· == slash) text).flatMap fun rest => rest :: afterSlashes rest
  | .choice alternatives,text =>
    if allVoid alternatives then [text] else choiceRests alternatives text
/-- What may be left of any of the texts behind all tokens. -/
def globRests : List GlobToken → List (List UInt8) → List (List UInt8)
  | [],texts => texts
  | t :: ts,texts => globRests ts (texts.flatMap t.rests).eraseDups
/-- An alternative with nothing in it is no alternative. -/
def choiceRests : List (List GlobToken) → List UInt8 → List (List UInt8)
  | [],_ => []
  | g :: gs,text => (if isVoidGlob g then [] else globRests g [text]) ++ choiceRests gs text
end

def Glob.matches (glob : Glob) (path : List UInt8) : Bool :=
  match glob with
  | [.leading] => true
  | _ => (globRests glob [path]).any List.isEmpty

/-- What stands between brackets. -/
inductive ClassReading
  | closed (ranges : List (Char × Char)) (size : Nat)
  | unclosed
  | invalid

/-- Reads ranges up to the closing bracket. A bracket or a hyphen that comes first stands for
itself, and so does a hyphen that comes last. -/
def readRanges (first pending : Bool) (ranges : List (Char × Char)) (size : Nat) :
    List Char → ClassReading
  | [] => .unclosed
  | c :: cs =>
    if c == ']' && !first then
      .closed (if pending then ('-','-') :: ranges else ranges) (size + 1)
    else if pending then
      match ranges with
      | (low,_) :: others =>
        if c < low then .invalid else readRanges false false ((low,c) :: others) (size + 1) cs
      | [] => .invalid
    else if c == '-' && !first then readRanges false true ranges (size + 1) cs
    else readRanges false false ((c,c) :: ranges) (size + 1) cs

def bytesOfChar (c : Char) : List UInt8 := (String.singleton c).toUTF8.toList

/-- A range in bytes: of characters with several bytes the two bytes next to the hyphen bound it. -/
def byteRanges (range : Char × Char) : List (UInt8 × UInt8) :=
  let low := bytesOfChar range.1
  let high := bytesOfChar range.2
  if range.1 == range.2 then low.map fun b => (b,b)
  else
    low.dropLast.map (fun b => (b,b)) ++ [(low.getLastD 0,high.headD 0)] ++
      high.tail.map fun b => (b,b)

/-- A glob that is being read: the tokens so far, last first, and for each open brace the tokens
before it and the alternatives that are complete. -/
structure GlobReading where
  tokens : List GlobToken := []
  outer : List (List GlobToken × List Glob) := []
  /-- The character before. -/
  previous : Option Char := none
  /-- How many of the next characters are read already. -/
  skip : Nat := 0
  /-- Brackets stand for themselves behind one that is never closed. -/
  plainBrackets : Bool := false

namespace GlobReading

def push (s : GlobReading) (t : GlobToken) : GlobReading := {s with tokens := t :: s.tokens}

def pushChar (s : GlobReading) (c : Char) : GlobReading :=
  {s with tokens := ((bytesOfChar c).map GlobToken.byte).reverse ++ s.tokens}

def openBrace (s : GlobReading) : GlobReading :=
  {s with tokens := [],outer := (s.tokens,[]) :: s.outer}

def comma (s : GlobReading) : GlobReading :=
  match s.outer with
  | [] => s.pushChar ','
  | (before,complete) :: outer =>
    {s with tokens := [],outer := (before,s.tokens.reverse :: complete) :: outer}

def closeBrace? (s : GlobReading) : Option GlobReading :=
  match s.outer with
  | [] => none
  | (before,complete) :: outer =>
    some {s with tokens := .choice (s.tokens.reverse :: complete).reverse :: before,outer := outer}

/-- Two asterisks stand for folders where they are a name of their own, and for a run of bytes
anywhere else. -/
def doubleStar (s : GlobReading) (next : Option Char) : GlobReading :=
  let runs := (s.push .run).push .run
  match s.tokens with
  | [] =>
    match next with
    | none => s.push .leading
    | some '/' => {s.push .leading with skip := 2}
    | some _ => runs
  | last :: before =>
    let placed (t : GlobToken) : GlobReading :=
      match last with
      | .leading | .trailing => s
      | _ => {s with tokens := t :: before}
    if s.previous != some '/' then runs
    else
      match next with
      | none => placed .trailing
      | some '/' => {placed .between with skip := 2}
      | some c => if (c == ',' || c == '\x7d') && !s.outer.isEmpty then placed .trailing else runs

/-- Reads what stands between brackets; `none` if it is no class. -/
def bracket? (lenient : Bool) (s : GlobReading) (rest : List Char) : Option GlobReading :=
  let negated := rest.head? == some '!' || rest.head? == some '^'
  let inside := if negated then rest.tail else rest
  match readRanges true false [] (if negated then 1 else 0) inside with
  | .closed ranges size =>
    some {s.push (.oneOf negated (ranges.flatMap byteRanges)) with skip := size}
  | .unclosed => if lenient then some {s.pushChar '[' with plainBrackets := true} else none
  | .invalid => none

/-- Reads one character, with `rest` behind it. -/
def step (lenient : Bool) (s : GlobReading) (c : Char) (rest : List Char) : Option GlobReading :=
  if c == '?' then some (s.push .any)
  else if c == '*' then
    if rest.head? == some '*' then
      let after := s.doubleStar rest.tail.head?
      some {after with skip := max after.skip 1}
    else some (s.push .run)
  else if c == '[' && !s.plainBrackets then s.bracket? lenient rest
  else if c == '\x7b' then some s.openBrace
  else if c == '\x7d' then s.closeBrace?
  else if c == ',' then some s.comma
  else if c == '\\' then rest.head?.map fun d => {s.pushChar d with skip := 1}
  else some (s.pushChar c)

end GlobReading

def readGlob (lenient : Bool) (s : GlobReading) : List Char → Option Glob
  | [] => if s.outer.isEmpty then some s.tokens.reverse else none
  | c :: cs =>
    match s.skip with
    | n + 1 => readGlob lenient {s with skip := n,previous := some c} cs
    | 0 =>
      match s.step lenient c cs with
      | some after => readGlob lenient {after with previous := some c} cs
      | none => none

/-- The glob that a text stands for. A bracket that is never closed is a fault, or stands for itself
where `lenient` holds. -/
def Glob.parse? (lenient : Bool) (text : String) : Option Glob := readGlob lenient {} text.toList

end Excerpt.Ignore
