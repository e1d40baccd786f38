import Excerpt.BinaryFraction
import Excerpt.Extraction
import Excerpt.Ignore.Visit
import Excerpt.Json.Basic
import Excerpt.Skeleton
import Excerpt.Verdict

/-!
Scanning: every class at the top of every Python file is extracted, reduced to a skeleton and
validated, with one record for each.
-/
namespace Excerpt
open Excerpt.Files Excerpt.Ignore

/-- What became of a class, or of a file in which no class could be found. -/
inductive Report
  | failed (error : Error)
  | scanned (lines comments : Nat) (skeleton : Except Error Skeleton) (verdict : Verdict)

structure ClassRecord where
  repository : String
  file : String
  /-- The name of the class; empty for a record on a file. -/
  name : String
  report : Report

namespace Report

def isScanned : Report → Bool
  | .failed _ => false
  | .scanned .. => true

def isValid : Report → Bool
  | .failed _ => false
  | .scanned _ _ _ verdict => verdict.isValid

def skeleton? : Report → Option Skeleton
  | .scanned _ _ (.ok skeleton) _ => some skeleton
  | _ => none

def error? : Report → Option Error
  | .failed error => some error
  | .scanned _ _ (.error error) _ => some error
  | .scanned _ _ (.ok _) _ => none

def countFields (showRatio : BinaryFraction → Json) : Report → List (String × Json)
  | .failed _ => []
  | .scanned lines comments _ _ =>
    [("lines",.ofNat lines),("comment_lines",.ofNat comments),
      ("comment_ratio",showRatio (.nearest comments lines))]

def skeletonFields (r : Report) : List (String × Json) :=
  match r.skeleton? with
  | some s => [("unit_count",.ofNat s.unitCount),("docstring_count",.ofNat s.docstringCount)]
  | none => []

def verdictFields : Report → List (String × Json)
  | .failed _ => []
  | .scanned _ _ _ verdict =>
    ("verdict",.string verdict.tag) ::
      if verdict.isValid then [] else [("verdict_detail",.string verdict.display)]

def errorFields (r : Report) : List (String × Json) :=
  match r.error? with
  | some e => [("error_kind",.string e.kind),("error",.string e.message)]
  | none => []

end Report

/-- A record as an object, with the ratio shown by `showRatio`. -/
def ClassRecord.toJson (showRatio : BinaryFraction → Json) (r : ClassRecord) : Json :=
  .object ([("repository",.string r.repository),("file",.string r.file),("class",.string r.name)] ++
    r.report.countFields showRatio ++ r.report.skeletonFields ++ r.report.verdictFields ++
    [("valid",.bool r.report.isValid)] ++ r.report.errorFields)

/-- A record on one line. -/
def ClassRecord.line (r : ClassRecord) : String :=
  (r.toJson fun ratio => .number ratio.literal).compact ++ "\n"

/-- The report on a class, which is looked up by its name. -/
def reportClass (validate : String → Verdict) (source : Source) (name : String) : Report :=
  match source.extract name >>= fun e => readSource e.text with
  | .error error => .failed error
  | .ok part =>
    let (lines,comments) := part.commentStats
    .scanned lines comments part.skeleton (validate part.text)

def scanText (validate : String → Verdict) (repository file text : String) : List ClassRecord :=
  match readSource text with
  | .error error => [⟨repository,file,"",.failed error⟩]
  | .ok source =>
    source.classNames.map fun name => ⟨repository,file,name,reportClass validate source name⟩

def scanFile (validate : String → Verdict) (repository : String) (f : FoundFile) :
    List ClassRecord :=
  let file := "/".intercalate f.path
  match Text.decode? f.content with
  | none => [⟨repository,file,"",.failed (.io Fault.notText.reason)⟩]
  | some text => scanText validate repository file text

structure ScanSummary where
  files : Nat
  classes : Nat
  extracted : Nat
  skeletonized : Nat
  valid : Nat
  failed : Nat
deriving DecidableEq, Repr

def summarize (files : Nat) (records : List ClassRecord) : ScanSummary :=
  let classes := records.filter fun r => !r.name.isEmpty
  {files := files
   classes := classes.length
   extracted := classes.countP (·.report.isScanned)
   skeletonized := classes.countP (·.report.skeleton?.isSome)
   valid := classes.countP (·.report.isValid)
   failed := records.countP (·.report.error?.isSome)}

structure Scan where
  files : List FoundFile
  records : List ClassRecord

def Scan.summary (s : Scan) : ScanSummary := summarize s.files.length s.records

/-- Scans what is below a place, except for what the patterns match. -/
def scan (validate : String → Verdict) (patterns : List String) (p : Place) : Scan :=
  let files := pythonFiles (patterns.filterMap exclusion?) p
  ⟨files,files.flatMap (scanFile validate p.name)⟩

end Excerpt
