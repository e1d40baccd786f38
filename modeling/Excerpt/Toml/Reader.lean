import Excerpt.Toml.Basic

/-!
Reading TOML. Readers give what they read and the rest of the text. Line ends are line feeds: a
carriage return in front of one is dropped beforehand.
-/
namespace Excerpt.Toml

/-- Drops the carriage returns of line ends. -/
def joinLineEnds : List Char → List Char
  | '\r' :: '\n' :: cs => '\n' :: joinLineEnds cs
  | c :: cs => c :: joinLineEnds cs
  | [] => []

def isBlankChar (c : Char) : Bool := c == ' ' || c == '\t'

def skipSpaces (cs : List Char) : List Char := cs.dropWhile isBlankChar

def isCommentChar (c : Char) : Bool := c == '\t' || (0x20 ≤ c.toNat && c.toNat ≤ 0x7F) || 0x80 ≤ c.toNat

def isBasicChar (c : Char) : Bool :=
  c == '\t' || (0x20 ≤ c.toNat && c.toNat != 0x22 && c.toNat != 0x5C && c.toNat != 0x7F)

def isLiteralChar (c : Char) : Bool :=
  c == '\t' || (0x20 ≤ c.toNat && c.toNat != 0x27 && c.toNat != 0x7F)

def isKeyChar (c : Char) : Bool := c.isAlphanum || c == '-' || c == '_'

def hexValue? (c : Char) : Option Nat :=
  if '0' ≤ c && c ≤ '9' then some (c.toNat - 48)
  else if 'a' ≤ c && c ≤ 'f' then some (c.toNat - 87)
  else if 'A' ≤ c && c ≤ 'F' then some (c.toNat - 55)
  else none

def dropComment (cs : List Char) : List Char :=
  match cs with
  | '#' :: rest => rest.dropWhile isCommentChar
  | _ => cs

/-- What follows a line behind which only a comment may stand. -/
def endLine (cs : List Char) : Option (List Char) :=
  match dropComment (skipSpaces cs) with
  | [] => some []
  | '\n' :: rest => some rest
  | _ => none

/-- The character of an escape with a single letter. -/
def escaped? : Char → Option Char
  | 'b' => some '\x08'
  | 'f' => some '\x0c'
  | 'n' => some '\n'
  | 'r' => some '\r'
  | 't' => some '\t'
  | '\\' => some '\\'
  | '\x22' => some '\x22'
  | _ => none

def isScalar (n : Nat) : Bool := n < 0xD800 || (0xDFFF < n && n < 0x110000)

/-- Where reading stands inside a string in double quotes. -/
inductive Quoting
  | plain
  | escape
  | hex (missing value : Nat)
  /-- Behind a backslash at the end of a line, which also skips the blanks that follow. -/
  | gap (ended : Bool)
  | quotes (count : Nat)

/-- Puts characters in front of what is read. -/
def before (cs : List Char) (r : Option (List Char × List Char)) : Option (List Char × List Char) :=
  r.map fun (s,rest) => (cs ++ s,rest)

/-- What a character does inside a string: it is refused, it gives characters and reading goes on, or
it ends the string, with the character itself still unread or not. -/
inductive QuotingStep
  | refused
  | onward (given : List Char) (next : Quoting)
  | done (given : List Char) (unread : Bool)

def plainStep (several : Bool) (c : Char) : QuotingStep :=
  if c == '\x22' then if several then .onward [] (.quotes 1) else .done [] false
  else if c == '\\' then .onward [] .escape
  else if isBasicChar c || (several && c == '\n') then .onward [c] .plain
  else .refused

def QuotingStep.after (given : List Char) : QuotingStep → QuotingStep
  | .refused => .refused
  | .onward more next => .onward (given ++ more) next
  | .done more unread => .done (given ++ more) unread

/-- A character in a string in double quotes, on one line or on several. Up to two quotes may stand
in front of the closing ones of a string on several lines. -/
def quotingStep (several : Bool) (c : Char) : Quoting → QuotingStep
  | .plain => plainStep several c
  | .escape =>
    if c == 'u' then .onward [] (.hex 4 0)
    else if c == 'U' then .onward [] (.hex 8 0)
    else if several && (c == '\n' || isBlankChar c) then .onward [] (.gap (c == '\n'))
    else
      match escaped? c with
      | some e => .onward [e] .plain
      | none => .refused
  | .hex missing value =>
    match hexValue? c with
    | none => .refused
    | some d =>
      let value := 16 * value + d
      if 1 < missing then .onward [] (.hex (missing - 1) value)
      else if isScalar value then .onward [Char.ofNat value] .plain
      else .refused
  | .gap ended =>
    if c == '\n' then .onward [] (.gap true)
    else if isBlankChar c then .onward [] (.gap ended)
    else if ended then plainStep several c
    else .refused
  | .quotes count =>
    if c == '\x22' && count < 5 then .onward [] (.quotes (count + 1))
    else if 3 ≤ count then .done (List.replicate (count - 3) '\x22') true
    else (plainStep several c).after (List.replicate count '\x22')

/-- The content of a string in double quotes, and what follows it. -/
def readBasic (several : Bool) : Quoting → List Char → Option (List Char × List Char)
  | .quotes count,[] => if 3 ≤ count then some (List.replicate (count - 3) '\x22',[]) else none
  | _,[] => none
  | q,c :: cs =>
    match quotingStep several c q with
    | .refused => none
    | .onward given next => before given (readBasic several next cs)
    | .done given unread => some (given,if unread then c :: cs else cs)

/-- The content of a string in single quotes on one line. -/
def readLiteral : List Char → Option (List Char × List Char)
  | [] => none
  | c :: cs =>
    if c == '\x27' then some ([],cs)
    else if isLiteralChar c then before [c] (readLiteral cs)
    else none

/-- The content of a string in single quotes on several lines, behind `count` quotes. -/
def readLiterals (count : Nat) : List Char → Option (List Char × List Char)
  | [] => if 3 ≤ count then some (List.replicate (count - 3) '\x27',[]) else none
  | c :: cs =>
    if c == '\x27' && count < 5 then readLiterals (count + 1) cs
    else if 3 ≤ count then some (List.replicate (count - 3) '\x27',c :: cs)
    else if isLiteralChar c || c == '\n' then
      before (List.replicate count '\x27' ++ [c]) (readLiterals 0 cs)
    else none

/-- A line feed behind the opening quotes does not belong to a string on several lines. -/
def dropFirstLine (cs : List Char) : List Char :=
  match cs with
  | '\n' :: rest => rest
  | _ => cs

/-- A string in any of its four forms. -/
def readString (cs : List Char) : Option (String × List Char) :=
  let result := match cs with
    | '\x22' :: '\x22' :: '\x22' :: rest => readBasic true .plain (dropFirstLine rest)
    | '\x22' :: rest => readBasic false .plain rest
    | '\x27' :: '\x27' :: '\x27' :: rest => readLiterals 0 (dropFirstLine rest)
    | '\x27' :: rest => readLiteral rest
    | _ => none
  result.map fun (s,rest) => (String.ofList s,rest)

def readSimpleKey (cs : List Char) : Option (String × List Char) :=
  match cs with
  | '\x22' :: rest => (readBasic false .plain rest).map fun (s,rest) => (String.ofList s,rest)
  | '\x27' :: rest => (readLiteral rest).map fun (s,rest) => (String.ofList s,rest)
  | _ =>
    let key := cs.takeWhile isKeyChar
    if key.isEmpty then none else some (String.ofList key,cs.dropWhile isKeyChar)

/-- How many parts a key may have, and how deep values may nest. -/
def maximalDepth : Nat := 79

/-- A key of one or more parts with dots between them. -/
def readKey : Nat → List Char → Option (List String × List Char)
  | 0,_ => none
  | left + 1,cs => do
    let (key,rest) ← readSimpleKey (skipSpaces cs)
    match skipSpaces rest with
    | '.' :: rest =>
      let (keys,rest) ← readKey left rest
      return (key :: keys,rest)
    | rest => return ([key],rest)

/-- Digits that may be divided by single underscores. -/
def readDigits (p : Char → Bool) : List Char → Option (List Char × List Char)
  | [] => some ([],[])
  | '_' :: cs =>
    match cs with
    | d :: rest => if p d then before [d] (readDigits p rest) else none
    | [] => none
  | c :: cs => if p c then before [c] (readDigits p cs) else some ([],c :: cs)

/-- At least one digit. -/
def readDigits1 (p : Char → Bool) (cs : List Char) : Option (List Char × List Char) :=
  match cs with
  | c :: rest => if p c then before [c] (readDigits p rest) else none
  | [] => none

def readSign (cs : List Char) : Bool × List Char :=
  match cs with
  | '-' :: rest => (true,rest)
  | '+' :: rest => (false,rest)
  | _ => (false,cs)

/-- A decimal number without leading zeros. -/
def readDecimal (cs : List Char) : Option (List Char × List Char) :=
  match cs with
  | '0' :: rest => some (['0'],rest)
  | _ => readDigits1 Char.isDigit cs

def valueIn (base : Nat) (digits : List Char) : Nat :=
  digits.foldl (fun n c => base * n + (hexValue? c).getD 0) 0

def isSmall (n : Int) : Bool := -Int.pow 2 63 ≤ n && n < Int.pow 2 63

def readInteger (cs : List Char) : Option (Toml × List Char) :=
  match cs with
  | '0' :: 'x' :: rest => based 16 (fun c => (hexValue? c).isSome) rest
  | '0' :: 'o' :: rest => based 8 (fun c => '0' ≤ c && c ≤ '7') rest
  | '0' :: 'b' :: rest => based 2 (fun c => c == '0' || c == '1') rest
  | _ => do
    let (negative,rest) := readSign cs
    let (digits,rest) ← readDecimal rest
    let value : Int := valueIn 10 digits
    let value := if negative then -value else value
    if isSmall value then some (.integer value,rest) else none
where
  based (base : Nat) (p : Char → Bool) (cs : List Char) : Option (Toml × List Char) := do
    let (digits,rest) ← readDigits1 p cs
    let value : Int := valueIn base digits
    if isSmall value then some (.integer value,rest) else none

/-- Whether a decimal number exceeds the range of a double. -/
def exceedsDouble (digits : List Char) (exponent : Int) : Bool :=
  let significant := digits.dropWhile (· == '0')
  let magnitude : Int := significant.length + exponent
  if significant.isEmpty || magnitude < 300 then false
  else if 310 < magnitude then true
  else
    let bound := Nat.pow 2 1024 - Nat.pow 2 970
    let value := valueIn 10 significant
    if 0 ≤ exponent then bound ≤ value * Nat.pow 10 exponent.toNat
    else bound * Nat.pow 10 (-exponent).toNat ≤ value

def readExponent (cs : List Char) : Option (Option Int × List Char) :=
  match cs with
  | c :: rest =>
    if c == 'e' || c == 'E' then do
      let (negative,rest) := readSign rest
      let (digits,rest) ← readDigits1 Char.isDigit rest
      let value : Int := valueIn 10 digits
      return (some (if negative then -value else value),rest)
    else some (none,cs)
  | [] => some (none,[])

def readFraction (cs : List Char) : Option (List Char × List Char) :=
  match cs with
  | '.' :: rest => readDigits1 Char.isDigit rest
  | _ => some ([],cs)

def afterWord (word : String) (cs : List Char) : Option (List Char) :=
  if word.toList.isPrefixOf cs then some (cs.drop word.length) else none

/-- A number with a fraction or an exponent. Only positive numbers are held to the range. -/
def readFloat (cs : List Char) : Option (Toml × List Char) := do
  let (negative,rest) := readSign cs
  match (afterWord "inf" rest).or (afterWord "nan" rest) with
  | some rest => return (.float,rest)
  | none =>
    let (whole,rest) ← readDecimal rest
    let (fraction,rest) ← readFraction rest
    let (exponent,rest) ← readExponent rest
    if fraction.isEmpty && exponent.isNone then none
    else if !negative && exceedsDouble (whole ++ fraction) (exponent.getD 0 - fraction.length) then none
    else return (.float,rest)

/-- A number of exactly `count` digits between two bounds. -/
def readFixed (count low high : Nat) (cs : List Char) : Option (Nat × List Char) :=
  let digits := cs.take count
  let value := valueIn 10 digits
  if digits.length = count && digits.all Char.isDigit && low ≤ value && value ≤ high then
    some (value,cs.drop count)
  else none

def afterChar (c : Char) (cs : List Char) : Option (List Char) :=
  match cs with
  | d :: rest => if d == c then some rest else none
  | [] => none

def daysIn (year month : Nat) : Nat :=
  if month == 2 then
    if year % 4 == 0 && (year % 100 != 0 || year % 400 == 0) then 29 else 28
  else if month == 4 || month == 6 || month == 9 || month == 11 then 30
  else 31

def readDate (cs : List Char) : Option (List Char) := do
  let (year,rest) ← readFixed 4 0 9999 cs
  let (month,rest) ← readFixed 2 1 12 (← afterChar '-' rest)
  let (_,rest) ← readFixed 2 1 (daysIn year month) (← afterChar '-' rest)
  return rest

def readTime (cs : List Char) : Option (List Char) := do
  let (_,rest) ← readFixed 2 0 23 cs
  let (_,rest) ← readFixed 2 0 59 (← afterChar ':' rest)
  let (_,rest) ← readFixed 2 0 60 (← afterChar ':' rest)
  match rest with
  | '.' :: d :: more => if d.isDigit then return more.dropWhile Char.isDigit else return rest
  | _ => return rest

def readOffset (cs : List Char) : Option (List Char) :=
  match cs with
  | c :: rest =>
    if c == 'Z' || c == 'z' then some rest
    else if c == '+' || c == '-' then do
      let (_,rest) ← readFixed 2 0 23 rest
      let (_,rest) ← readFixed 2 0 59 (← afterChar ':' rest)
      return rest
    else none
  | [] => none

/-- A date, a time, or a date with a time and perhaps an offset. -/
def readDatetime (cs : List Char) : Option (Toml × List Char) :=
  match readDate cs with
  | some rest =>
    let timed := match rest with
      | c :: more =>
        if c == 'T' || c == 't' || c == ' ' then (readTime more).map fun r => (readOffset r).getD r
        else none
      | [] => none
    some (.datetime,timed.getD rest)
  | none => (readTime cs).map fun rest => (.datetime,rest)

def readNumber (cs : List Char) : Option (Toml × List Char) :=
  ((readDatetime cs).or (readFloat cs)).or (readInteger cs)

/-- Skips blanks, line ends and comments; a comment ends with its line. -/
def skipLines : Nat → List Char → Option (List Char)
  | 0,_ => none
  | fuel + 1,cs =>
    match skipSpaces cs with
    | '\n' :: rest => skipLines fuel rest
    | '#' :: rest =>
      match rest.dropWhile isCommentChar with
      | '\n' :: rest => skipLines fuel rest
      | _ => none
    | rest => some rest

def putPairs (sort : TableSort) (fields : Fields) : List (List String × Toml) → Option Fields
  | [] => some fields
  | (path,value) :: rest => do
    let (sort,fields) ← putValue path.dropLast (path.getLast?.getD "") value sort fields
    putPairs sort fields rest

/-- The table of the pairs in braces. -/
def inlineTable (pairs : List (List String × Toml)) : Option Toml :=
  (putPairs .inline [] pairs).map (.table .inline)

mutual
/-- A value at the start of the text. Every step uses up fuel; `depth` is what arrays and inline
tables may still nest. -/
def readValue (fuel depth : Nat) (cs : List Char) : Option (Toml × List Char) :=
  match fuel with
  | 0 => none
  | fuel + 1 =>
    match cs with
    | [] => none
    | c :: rest =>
      if c == '\x22' || c == '\x27' then (readString cs).map fun (s,rest) => (.string s,rest)
      else if c == '[' then
        match depth with
        | 0 => none
        | depth + 1 => do
          let (items,rest) ← readItems fuel depth rest
          return (.array items,rest)
      else if c == '\x7b' then
        match depth with
        | 0 => none
        | depth + 1 =>
          match skipSpaces rest with
          | '\x7d' :: rest => some (.table .inline [],rest)
          | rest => do
            let (pairs,rest) ← readPairs fuel depth rest
            return (← inlineTable pairs,rest)
      else if c == 't' then (afterWord "true" cs).map fun rest => (.boolean true,rest)
      else if c == 'f' then (afterWord "false" cs).map fun rest => (.boolean false,rest)
      else readNumber cs
/-- The items of an array up to its closing bracket; a comma may stand behind the last. -/
def readItems (fuel depth : Nat) (cs : List Char) : Option (List Toml × List Char) :=
  match fuel with
  | 0 => none
  | fuel + 1 => do
    match ← skipLines (cs.length + 1) cs with
    | ']' :: rest => return ([],rest)
    | rest =>
      let (item,rest) ← readValue fuel depth rest
      match ← skipLines (rest.length + 1) rest with
      | ',' :: rest =>
        let (items,rest) ← readItems fuel depth rest
        return (item :: items,rest)
      | ']' :: rest => return ([item],rest)
      | _ => none
/-- The pairs of an inline table up to its closing brace. -/
def readPairs (fuel depth : Nat) (cs : List Char) : Option (List (List String × Toml) × List Char) :=
  match fuel with
  | 0 => none
  | fuel + 1 => do
    let (key,rest) ← readKey maximalDepth cs
    let (value,rest) ← readValue fuel depth (skipSpaces (← afterChar '=' rest))
    match skipSpaces rest with
    | ',' :: rest =>
      let (pairs,rest) ← readPairs fuel depth rest
      return ((key,value) :: pairs,rest)
    | '\x7d' :: rest => return ([(key,value)],rest)
    | _ => none
end

/-- A document in the course of reading: the table under the latest header is kept apart until the
next header. -/
structure Draft where
  root : Fields
  sort : TableSort
  current : Fields
  path : List String
  isElement : Bool

namespace Draft

def start : Draft := ⟨[],.header,[],[],false⟩

/-- Changes the parent of the table at a path, from the root. -/
def atParent {α : Type} (root : Fields) (path : List String)
    (change : String → Fields → Option (Fields × α)) : Option (Fields × α) :=
  (descend false (fun s fs => (change (path.getLast?.getD "") fs).map fun (fs,a) => ((s,fs),a))
    path.dropLast .header root).map fun ((_,fs),a) => (fs,a)

/-- Puts the current table where its header says. -/
def finish (d : Draft) : Option Fields :=
  if d.path.isEmpty then some d.current
  else
    let table := Toml.table d.sort d.current
    (atParent d.root d.path fun key fields =>
      if d.isElement then
        match fieldAt key fields with
        | none => some (setField key (.tables [table]) fields,())
        | some (.tables elements) => some (setField key (.tables (elements ++ [table])) fields,())
        | some _ => none
      else some (setField key table fields,())).map (·.1)

/-- Starts the table under a header. Only a table that was implied before may get one. -/
def openTable (d : Draft) (path : List String) : Option Draft := do
  let root ← d.finish
  let (root,fields) ← atParent root path fun key fields =>
    match fieldAt key fields with
    | none => some (fields,[])
    | some (.table .implied inside) => some (eraseField key fields,inside)
    | some _ => none
  return ⟨root,.header,fields,path,false⟩

/-- Starts the next table of an array of tables. -/
def openElement (d : Draft) (path : List String) : Option Draft := do
  let root ← d.finish
  let (root,_) ← atParent root path fun key fields =>
    match fieldAt key fields with
    | none => some (setField key (.tables []) fields,())
    | some (.tables _) => some (fields,())
    | some _ => none
  return ⟨root,.header,[],path,true⟩

def put (d : Draft) (key : List String) (value : Toml) : Option Draft := do
  let (sort,fields) ← putValue key.dropLast (key.getLast?.getD "") value d.sort d.current
  return {d with sort := sort,current := fields}

end Draft

/-- A header, with the brackets that open it already read. -/
def readHeader (closing : Nat) (cs : List Char) : Option (List String × List Char) := do
  let (key,rest) ← readKey maximalDepth cs
  let rest ← if closing = 2 then afterChar ']' rest else some rest
  let rest ← afterChar ']' rest
  return (key,← endLine rest)

def readDocument : Nat → Draft → List Char → Option Draft
  | 0,_,_ => none
  | fuel + 1,d,cs =>
    match skipSpaces cs with
    | [] => some d
    | '\n' :: rest => readDocument fuel d rest
    | '#' :: rest => do
      readDocument fuel d (← endLine ('#' :: rest))
    | '[' :: '[' :: rest => do
      let (key,rest) ← readHeader 2 rest
      readDocument fuel (← d.openElement key) rest
    | '[' :: rest => do
      let (key,rest) ← readHeader 1 rest
      readDocument fuel (← d.openTable key) rest
    | rest => do
      let (key,rest) ← readKey maximalDepth rest
      let rest := skipSpaces (← afterChar '=' rest)
      let (value,rest) ← readValue (2 * rest.length + 2) maximalDepth rest
      let rest ← endLine rest
      readDocument fuel (← d.put key value) rest

/-- Reads a document; a byte order mark at its start is skipped. -/
def read? (text : String) : Option Toml := do
  let cs := joinLineEnds text.toList
  let cs := match cs with
    | '\ufeff' :: rest => rest
    | _ => cs
  let d ← readDocument (cs.length + 1) Draft.start cs
  return .table .header (← d.finish)

end Excerpt.Toml
