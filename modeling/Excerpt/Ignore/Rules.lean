import Excerpt.Ignore.Glob
import Excerpt.Text.Blank
import Excerpt.Text.Utf8

/-!
Rules that leave files out, one on a line of a file. The last rule that matches a path decides.
-/
namespace Excerpt.Ignore
open Excerpt.Text

inductive Decision
  | ignore
  | keep
deriving DecidableEq, Repr

structure Rule where
  decision : Decision
  /-- The rule is for folders only. -/
  folderOnly : Bool
  glob : Glob

/-- A line without the white space at its end, unless a backslash protects it. -/
def trimmedLine (line : List Char) : List Char :=
  if "\\ ".toList.isSuffixOf line then line else dropEndWhile isBlank line

/-- A pattern without a slash at its end, and whether it had one. -/
def folderPattern (pattern : List Char) : List Char × Bool :=
  match pattern.reverse with
  | '/' :: '\\' :: before => (before.reverse,true)
  | '/' :: before => (before.reverse,true)
  | _ => (pattern,false)

/-- A pattern as a glob on whole paths. A pattern with no slash in it may match at any depth, and
one that ends in two asterisks matches what is inside a folder. -/
def pathPattern (anchored : Bool) (pattern : List Char) : List Char :=
  let anywhere := "**/".toList
  let placed :=
    if anchored || pattern.contains '/' || anywhere.isPrefixOf pattern || pattern == "**".toList then
      pattern
    else anywhere ++ pattern
  if "/**".toList.isSuffixOf placed then placed ++ "/*".toList else placed

/-- The parts of a line: what it decides, whether a slash anchors it, and its pattern. -/
def lineParts (line : List Char) : Decision × Bool × List Char :=
  match line with
  | '\\' :: '!' :: rest => (.ignore,false,'!' :: rest)
  | '\\' :: '#' :: rest => (.ignore,false,'#' :: rest)
  | '!' :: '/' :: rest => (.keep,true,rest)
  | '!' :: rest => (.keep,false,rest)
  | '/' :: rest => (.ignore,true,rest)
  | _ => (.ignore,false,line)

/-- The rule on a line. Comments and blank lines hold none, and neither does a malformed pattern. -/
def Rule.ofLine? (lenient : Bool) (line : List Char) : Option Rule :=
  let trimmed := trimmedLine line
  if line.head? == some '#' || trimmed.isEmpty then none
  else
    let (decision,anchored,rest) := lineParts trimmed
    let (pattern,folderOnly) := folderPattern rest
    (readGlob lenient {} (pathPattern anchored pattern)).map fun glob => ⟨decision,folderOnly,glob⟩

/-- The lines of a file up to the first that is not text. -/
def readableLines (bytes : List UInt8) : List (List Char) :=
  let cs := decodeFrom none bytes
  let good := (cs.takeWhile Option.isSome).map (·.getD ' ')
  linesOf [] (if good.length = cs.length then good else dropEndWhile (· != '\n') good)

def dropMarks : List (List Char) → List (List Char)
  | [] => []
  | line :: others => line.dropWhile (· == '\ufeff') :: others

/-- The rules of a file. Byte order marks in front of the first line do not belong to it. -/
def rulesOf (bytes : List UInt8) : List Rule :=
  (dropMarks (readableLines bytes)).filterMap (Rule.ofLine? true)

/-- The rule that leaves out what a pattern matches. -/
def exclusion? (pattern : String) : Option Rule :=
  (Rule.ofLine? false ('!' :: pattern.toList)).map fun rule => {rule with decision := .ignore}

def pathBytes (path : List String) : List UInt8 := ("/".intercalate path).toUTF8.toList

def Rule.applies (rule : Rule) (path : List String) (isFolder : Bool) : Bool :=
  (!rule.folderOnly || isFolder) && rule.glob.matches (pathBytes path)

/-- What rules decide on a path relative to their folder. -/
def decide? (rules : List Rule) (path : List String) (isFolder : Bool) : Option Decision :=
  (rules.reverse.find? (·.applies path isFolder)).map Rule.decision

end Excerpt.Ignore
