/-!
Writing strings of TOML. The form is the first in which nothing has to be escaped: double quotes,
single quotes, then their forms for several lines; otherwise characters are escaped.
-/
namespace Excerpt.Toml

def quoteMark : Char := '\x22'

def singleMark : Char := '\x27'

/-- Control characters that can only be written with an escape. -/
def needsCode (c : Char) : Bool :=
  (c.toNat < 0x20 && c != '\t' && c != '\n') || c.toNat == 0x7F

/-- The longest run of a character, where `here` of them stand in front of the text. -/
def longestRun (mark : Char) (here : Nat) : List Char → Nat
  | [] => here
  | c :: cs => if c == mark then longestRun mark (here + 1) cs else max here (longestRun mark 0 cs)

inductive StringForm
  | basic
  | literal
  | basicLines
  | literalLines
deriving DecidableEq, Repr

def stringForm (cs : List Char) : StringForm :=
  let codes := cs.any needsCode
  let backslash := cs.contains '\\'
  let newline := cs.contains '\n'
  let doubles := longestRun quoteMark 0 cs
  let singles := longestRun singleMark 0 cs
  if !codes && !backslash && doubles == 0 && !newline then .basic
  else if !codes && singles == 0 && !newline then .literal
  else if !codes && !backslash && doubles ≤ 2 then .basicLines
  else if !codes && singles ≤ 2 then .literalLines
  else if newline then .basicLines
  else .basic

def upperHexDigit (n : Nat) : Char := Char.ofNat (if n < 10 then 48 + n else 55 + n)

/-- The escape of a character that cannot stand for itself between double quotes. -/
def escapeOf? (several : Bool) (c : Char) : Option (List Char) :=
  if c == '\x08' then some ['\\','b']
  else if c == '\t' then some ['\\','t']
  else if c == '\n' then if several then none else some ['\\','n']
  else if c == '\x0c' then some ['\\','f']
  else if c == '\r' then some ['\\','r']
  else if c == '\\' then some ['\\','\\']
  else if c.toNat < 0x20 || c.toNat == 0x7F then
    some ['\\','u','0','0',upperHexDigit (c.toNat / 16),upperHexDigit (c.toNat % 16)]
  else none

/-- Text between double quotes. On several lines two quotes in a row may stand for themselves;
`run` counts those just written. -/
def escapeBasic (several : Bool) (run : Nat) : List Char → List Char
  | [] => []
  | c :: cs =>
    if c == quoteMark then
      if several && run < 2 then c :: escapeBasic several (run + 1) cs
      else '\\' :: c :: escapeBasic several 0 cs
    else
      match escapeOf? several c with
      | some escape => escape ++ escapeBasic several 0 cs
      | none => c :: escapeBasic several 0 cs

/-- A string in the given form. A text on several lines starts on a line of its own if it has more
than one. -/
def writeForm (form : StringForm) (cs : List Char) : List Char :=
  let first := if cs.contains '\n' then ['\n'] else []
  match form with
  | .basic => [quoteMark] ++ escapeBasic false 0 cs ++ [quoteMark]
  | .literal => [singleMark] ++ cs ++ [singleMark]
  | .basicLines =>
    List.replicate 3 quoteMark ++ first ++ escapeBasic true 0 cs ++ List.replicate 3 quoteMark
  | .literalLines =>
    List.replicate 3 singleMark ++ first ++ cs ++ List.replicate 3 singleMark

def writeString (s : String) : String := String.ofList (writeForm (stringForm s.toList) s.toList)

/-- An array of strings. Two or more stand on lines of their own. -/
def writeStrings (items : List String) : String :=
  match items with
  | [] => "[]"
  | [item] => "[" ++ writeString item ++ "]"
  | _ => "[\n" ++ String.join (items.map fun s => "    " ++ writeString s ++ ",\n") ++ "]"

end Excerpt.Toml
