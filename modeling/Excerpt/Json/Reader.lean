import Excerpt.Json.Basic

/-!
Reading JSON. Containers nest to a limited depth, and a number must not exceed the range of a
double.
-/
namespace Excerpt.Json

def skipBlanks (cs : List Char) : List Char :=
  cs.dropWhile fun c => c == ' ' || c == '\t' || c == '\n' || c == '\r'

def hexValue? (c : Char) : Option Nat :=
  if '0' ≤ c && c ≤ '9' then some (c.toNat - 48)
  else if 'a' ≤ c && c ≤ 'f' then some (c.toNat - 87)
  else if 'A' ≤ c && c ≤ 'F' then some (c.toNat - 55)
  else none

/-- Where reading stands inside a string literal. `high` is a first half of a pair of units, which
needs its second half. -/
inductive Quoting
  | plain
  | escape
  | hex (high : Option Nat) (count value : Nat)
  | pair (high : Nat)
  | pairEscape (high : Nat)

/-- The character of an escape with a single letter. -/
def escaped? : Char → Option Char
  | '\x22' => some '\x22'
  | '\\' => some '\\'
  | '/' => some '/'
  | 'b' => some '\x08'
  | 'f' => some '\x0c'
  | 'n' => some '\n'
  | 'r' => some '\r'
  | 't' => some '\t'
  | _ => none

/-- The content of a string literal behind its opening quote, and what follows the closing one. -/
def readQuoted : Quoting → List Char → Option (List Char × List Char)
  | _,[] => none
  | .plain,c :: cs =>
    if c == '\x22' then some ([],cs)
    else if c == '\\' then readQuoted .escape cs
    else if c.toNat < 0x20 then none
    else (readQuoted .plain cs).map fun (s,rest) => (c :: s,rest)
  | .escape,c :: cs =>
    if c == 'u' then readQuoted (.hex none 0 0) cs
    else
      match escaped? c with
      | some e => (readQuoted .plain cs).map fun (s,rest) => (e :: s,rest)
      | none => none
  | .hex high count value,c :: cs =>
    match hexValue? c with
    | none => none
    | some d =>
      let value := 16 * value + d
      if count < 3 then readQuoted (.hex high (count + 1) value) cs
      else
        match high with
        | some h =>
          if 0xDC00 ≤ value && value ≤ 0xDFFF then
            let code := 0x10000 + 0x400 * (h - 0xD800) + (value - 0xDC00)
            (readQuoted .plain cs).map fun (s,rest) => (Char.ofNat code :: s,rest)
          else none
        | none =>
          if 0xDC00 ≤ value && value ≤ 0xDFFF then none
          else if 0xD800 ≤ value && value ≤ 0xDBFF then readQuoted (.pair value) cs
          else (readQuoted .plain cs).map fun (s,rest) => (Char.ofNat value :: s,rest)
  | .pair high,c :: cs => if c == '\\' then readQuoted (.pairEscape high) cs else none
  | .pairEscape high,c :: cs => if c == 'u' then readQuoted (.hex (some high) 0 0) cs else none

/-- A natural number rounded to 53 binary digits, halves to the even neighbour. -/
def roundToDouble (n : Nat) : Nat :=
  let excess := n.log2 + 1 - 53
  let unit := Nat.pow 2 excess
  let down := n / unit
  let rest := 2 * (n % unit)
  unit * (if rest < unit then down else if unit < rest then down + 1 else down + down % 2)

/-- A number as digits that fit into 64 bits and a power of ten. -/
structure Scaled where
  significand : Nat
  exponent : Int

namespace Scaled

/-- Digits in front of the point: those that do not fit only count for the magnitude. -/
def whole (full : Bool) (s : Scaled) : List Char → Scaled
  | [] => s
  | c :: cs =>
    let next := 10 * s.significand + (c.toNat - 48)
    if full || Nat.pow 2 64 ≤ next then whole true {s with exponent := s.exponent + 1} cs
    else whole false {s with significand := next} cs

/-- Digits behind the point, up to the first that does not fit. -/
def fraction (s : Scaled) : List Char → Scaled
  | [] => s
  | c :: cs =>
    let next := 10 * s.significand + (c.toNat - 48)
    if Nat.pow 2 64 ≤ next then s else fraction ⟨next,s.exponent - 1⟩ cs

/-- Whether the number lies in the range of a double. -/
def isFinite (s : Scaled) : Bool :=
  s.significand == 0 || s.exponent < 0 ||
    (s.exponent ≤ 308 &&
      roundToDouble (roundToDouble s.significand * roundToDouble (Nat.pow 10 s.exponent.toNat)) <
        Nat.pow 2 1024)

end Scaled

def digitsValue (cs : List Char) : Nat := cs.foldl (fun n c => 10 * n + (c.toNat - 48)) 0

/-- The exponent of a number, and what follows it. -/
def readExponent (cs : List Char) : Option (Option Int × List Char) :=
  match cs with
  | c :: rest =>
    if c == 'e' || c == 'E' then
      let negative := rest.head? == some '-'
      let rest := if negative || rest.head? == some '+' then rest.tail else rest
      let digits := rest.takeWhile Char.isDigit
      if digits.isEmpty then none
      else
        let value : Int := digitsValue digits
        some (some (if negative then -value else value),rest.dropWhile Char.isDigit)
    else some (none,cs)
  | [] => some (none,[])

/-- The digits behind a point, and what follows them. -/
def readFraction (cs : List Char) : Option (List Char × List Char) :=
  match cs with
  | '.' :: rest =>
    let digits := rest.takeWhile Char.isDigit
    if digits.isEmpty then none else some (digits,rest.dropWhile Char.isDigit)
  | _ => some ([],cs)

/-- A number, as far as the text goes on with one. -/
def readNumber (cs : List Char) : Option (Json × List Char) := do
  let body := if cs.head? == some '-' then cs.tail else cs
  let whole := body.takeWhile Char.isDigit
  if whole.isEmpty || (whole.head? == some '0' && 1 < whole.length) then none
  else
    let (fraction,rest) ← readFraction (body.dropWhile Char.isDigit)
    let (exponent,rest) ← readExponent rest
    let digits := Scaled.fraction (Scaled.whole false ⟨0,0⟩ whole) fraction
    if Scaled.isFinite ⟨digits.significand,digits.exponent + exponent.getD 0⟩ then
      return (.number (String.ofList (cs.take (cs.length - rest.length))),rest)
    else none

/-- What follows a word at the start of the text. -/
def afterWord (word : String) (cs : List Char) : Option (List Char) :=
  if word.toList.isPrefixOf cs then some (cs.drop word.length) else none

mutual
/-- A value at the start of the text. Every step uses up fuel; `depth` is what containers may still
nest. -/
def readValue (fuel depth : Nat) (cs : List Char) : Option (Json × List Char) :=
  match fuel with
  | 0 => none
  | fuel + 1 =>
    match skipBlanks cs with
    | [] => none
    | c :: rest =>
      if c == '\x22' then (readQuoted .plain rest).map fun (s,rest) => (.string (String.ofList s),rest)
      else if c == '\x7b' then
        match depth with
        | 0 => none
        | depth + 1 =>
          match skipBlanks rest with
          | '\x7d' :: rest => some (.object [],rest)
          | rest => (readFields fuel depth rest).map fun (fields,rest) => (.object fields,rest)
      else if c == '[' then
        match depth with
        | 0 => none
        | depth + 1 =>
          match skipBlanks rest with
          | ']' :: rest => some (.array [],rest)
          | rest => (readItems fuel depth rest).map fun (items,rest) => (.array items,rest)
      else if c == 't' then (afterWord "true" (c :: rest)).map fun rest => (.bool true,rest)
      else if c == 'f' then (afterWord "false" (c :: rest)).map fun rest => (.bool false,rest)
      else if c == 'n' then (afterWord "null" (c :: rest)).map fun rest => (.null,rest)
      else readNumber (c :: rest)
/-- The items of an array up to its closing bracket. -/
def readItems (fuel depth : Nat) (cs : List Char) : Option (List Json × List Char) :=
  match fuel with
  | 0 => none
  | fuel + 1 =>
    match readValue fuel depth cs with
    | none => none
    | some (item,rest) =>
      match skipBlanks rest with
      | ',' :: rest => (readItems fuel depth rest).map fun (items,rest) => (item :: items,rest)
      | ']' :: rest => some ([item],rest)
      | _ => none
/-- The fields of an object up to its closing brace. -/
def readFields (fuel depth : Nat) (cs : List Char) : Option (List (String × Json) × List Char) :=
  match fuel with
  | 0 => none
  | fuel + 1 =>
    match skipBlanks cs with
    | '\x22' :: rest =>
      match readQuoted .plain rest with
      | none => none
      | some (key,rest) =>
        match skipBlanks rest with
        | ':' :: rest =>
          match readValue fuel depth rest with
          | none => none
          | some (value,rest) =>
            let field := (String.ofList key,value)
            match skipBlanks rest with
            | ',' :: rest =>
              (readFields fuel depth rest).map fun (fields,rest) => (field :: fields,rest)
            | '\x7d' :: rest => some ([field],rest)
            | _ => none
        | _ => none
    | _ => none
end

/-- How deep containers may nest. -/
def maximalDepth : Nat := 127

/-- Reads a text that holds one value and nothing else. -/
def read? (cs : List Char) : Option Json :=
  match readValue (2 * cs.length + 2) maximalDepth cs with
  | some (value,rest) => if (skipBlanks rest).isEmpty then some value else none
  | none => none

def fields? : Json → Option (List (String × Json))
  | .object fields => some fields
  | _ => none

def string? : Json → Option String
  | .string s => some s
  | _ => none

/-- The value of a number written with digits only, if it fits into 64 bits. -/
def natural? : Json → Option Nat
  | .number literal =>
    let digits := literal.toList
    let value := digitsValue digits
    if digits.all Char.isDigit && value < Nat.pow 2 64 then some value else none
  | _ => none

end Excerpt.Json
