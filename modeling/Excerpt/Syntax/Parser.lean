import Excerpt.Syntax.Token
import Excerpt.Syntax.Tree

/-!
Parsers with one token of lookahead. The next token is read with what is expected after the one
just taken; comments and line continuations met on the way wait until a node takes them. They
become children of the innermost node that has a part on both sides of them.
-/
namespace Excerpt.Syntax
open Excerpt.Text

structure State where
  /-- No text holds more tokens than this. -/
  limit : Nat
  layout : Layout
  token : Token
  start : Cursor
  stop : Cursor
  /-- Comments and line continuations in front of the token. -/
  waiting : List Tree
deriving Inhabited

abbrev Parser := StateT State Option

namespace Parser

def leaf (symbol : Symbol) (start stop : Cursor) : Tree :=
  .node ⟨symbol,none,start.place,start.textUpTo stop.place.byte⟩ []

/-- The state at the first token after `c` that is no comment and no line continuation. -/
def fetch (limit : Nat) (e : Expect) (l : Layout) (waiting : List Tree) : Nat → Cursor → State
  | 0,c => ⟨limit,l,.unknown,c,c,waiting⟩
  | n + 1,c =>
    let s := Token.scan e l c
    match s.token with
    | .comment => fetch limit e l (waiting ++ [leaf (.named .comment) s.start s.stop]) n s.stop
    | .continuation =>
      fetch limit e l (waiting ++ [leaf (.named .lineContinuation) s.start s.stop]) n s.stop
    | token => ⟨limit,s.layout,token,s.start,s.stop,waiting⟩

/-- Leaves the current token behind and reads on. -/
def advance (e : Expect) : Parser Unit :=
  modify fun s => fetch s.limit e s.layout [] s.limit s.stop

/-- Goes on reading at `c`, where no token has been looked at yet. -/
def seek (c : Cursor) : Parser Unit :=
  modify fun s => {s with token := .unknown,start := c,stop := c,waiting := []}

def token : Parser Token := return (← get).token

/-- Where the current token begins. -/
def here : Parser Cursor := return (← get).start

/-- Where the current token ends. -/
def behind : Parser Cursor := return (← get).stop

def isMark (spelling : String) : Parser Bool := return (← token) == .mark spelling

def isWord (spelling : String) : Parser Bool := return (← token) == .word spelling

def isOneOf (spellings : List String) : Parser Bool :=
  return match ← token with
    | .mark s => spellings.contains s
    | _ => false

def require (b : Bool) : Parser Unit := if b then pure () else failure

/-- The current token as a leaf of the given symbol; `e` is expected after it. -/
def take (symbol : Symbol) (e : Expect) : Parser Tree := do
  let s ← get
  advance e
  return leaf symbol s.start s.stop

def mark (spelling : String) (e : Expect) : Parser Tree := do
  require (← isMark spelling)
  take (.token spelling) e

def keyword (spelling : String) (e : Expect) : Parser Tree := do
  require (← isWord spelling)
  take (.token spelling) e

/-- Keeps only the first character of a mark; the others are read again. -/
def shorten : Parser Unit :=
  modify fun s =>
    let stop := s.start.drop 1
    {s with token := .mark (s.start.textUpTo stop.place.byte),stop := stop}

/-- Any word at all, as an identifier. -/
def name (e : Expect) : Parser Tree := do
  match ← token with
  | .word _ => take (.named .identifier) e
  | _ => failure

/-- The comments and line continuations that wait in front of the current token. -/
def waiting : Parser (List Tree) := do
  let s ← get
  set {s with waiting := []}
  return s.waiting

/-- Adds one more child to those of an open node, after what waits before it. -/
def also (children : List Tree) (p : Parser Tree) : Parser (List Tree) := do
  let between ← waiting
  return children ++ between ++ [← p]

/-- Adds several more children to those of an open node, after what waits before them. -/
def alsoAll (children : List Tree) (p : Parser (List Tree)) : Parser (List Tree) := do
  let between ← waiting
  return children ++ between ++ (← p)

/-- Repeats a step until it has nothing to add; fails after `n` rounds. -/
def loop {α : Type} (step : α → Parser (Option α)) : Nat → α → Parser α
  | 0,_ => failure
  | n + 1,a => do
    match ← step a with
    | none => return a
    | some b => loop step n b

/-- The end of the last of `children`, or `start` if there is none. -/
def lastByte (start : Nat) (children : List Tree) : Nat :=
  match children.getLast? with
  | some t => t.endByte
  | none => start

/-- A node from `start` to the byte offset `stop`. -/
def nodeTo (kind : Kind) (start : Cursor) (stop : Nat) (children : List Tree) : Tree :=
  .node ⟨.named kind,none,start.place,start.textUpTo stop⟩ children

/-- A node that starts at `start` and covers its children. -/
def node (kind : Kind) (start : Cursor) (children : List Tree) : Tree :=
  nodeTo kind start (lastByte start.place.byte children) children

/-- A node without a kind that starts at `start` and covers its children. -/
def compound (spelling : String) (start : Cursor) (children : List Tree) : Tree :=
  .node ⟨.token spelling,none,start.place,start.textUpTo (lastByte start.place.byte children)⟩
    children

end Parser

end Excerpt.Syntax
