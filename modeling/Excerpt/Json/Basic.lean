/-!
Values of JSON and how they are written, on one line or indented by two spaces.
-/
namespace Excerpt

inductive Json
  | null
  | bool (value : Bool)
  /-- A number, as the literal that stands for it. -/
  | number (literal : String)
  | string (value : String)
  | array (items : List Json)
  | object (fields : List (String × Json))

namespace Json

instance : Inhabited Json := ⟨.null⟩

def ofNat (n : Nat) : Json := .number (toString n)

def hexDigit (n : Nat) : Char := Char.ofNat (if n < 10 then 48 + n else 87 + n)

/-- A character as it stands in a string literal. -/
def escapeChar (c : Char) : List Char :=
  if c == '\x22' then ['\\','\x22']
  else if c == '\\' then ['\\','\\']
  else if c == '\n' then ['\\','n']
  else if c == '\r' then ['\\','r']
  else if c == '\t' then ['\\','t']
  else if c == '\x08' then ['\\','b']
  else if c == '\x0c' then ['\\','f']
  else if c.toNat < 0x20 then ['\\','u','0','0',hexDigit (c.toNat / 16),hexDigit (c.toNat % 16)]
  else [c]

def quote (s : String) : String :=
  String.ofList ('\x22' :: s.toList.flatMap escapeChar ++ ['\x22'])

mutual
/-- The value on one line, without blanks. -/
def compact : Json → String
  | .null => "null"
  | .bool value => if value then "true" else "false"
  | .number literal => literal
  | .string value => quote value
  | .array items => "[" ++ ",".intercalate (compactItems items) ++ "]"
  | .object fields => "\x7b" ++ ",".intercalate (compactFields fields) ++ "\x7d"
def compactItems : List Json → List String
  | [] => []
  | j :: js => compact j :: compactItems js
def compactFields : List (String × Json) → List String
  | [] => []
  | (key,value) :: fields => (quote key ++ ":" ++ compact value) :: compactFields fields
end

def indent (depth : Nat) : String := String.ofList (List.replicate (2 * depth) ' ')

/-- The parts of an indented array or object, each on a line of its own. -/
def enclose (left right : String) (depth : Nat) (parts : List String) : String :=
  if parts.isEmpty then left ++ right
  else
    left ++ "\n" ++ ",\n".intercalate (parts.map (indent (depth + 1) ++ ·)) ++ "\n" ++
      indent depth ++ right

mutual
/-- The value on several lines, as it stands at a depth. -/
def pretty (depth : Nat) : Json → String
  | .null => "null"
  | .bool value => if value then "true" else "false"
  | .number literal => literal
  | .string value => quote value
  | .array items => enclose "[" "]" depth (prettyItems (depth + 1) items)
  | .object fields => enclose "\x7b" "\x7d" depth (prettyFields (depth + 1) fields)
def prettyItems (depth : Nat) : List Json → List String
  | [] => []
  | j :: js => pretty depth j :: prettyItems depth js
def prettyFields (depth : Nat) : List (String × Json) → List String
  | [] => []
  | (key,value) :: fields => (quote key ++ ": " ++ pretty depth value) :: prettyFields depth fields
end

end Json

end Excerpt
