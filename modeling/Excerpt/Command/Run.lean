import Excerpt.Command.Help
import Excerpt.Command.Invocation
import Excerpt.Files.Surroundings
import Excerpt.Process
import Excerpt.Scan

/-!
Running a command in its surroundings: what it prints, what it writes, and the code it ends with.
-/
namespace Excerpt.Command
open Excerpt.Files

structure Outcome where
  code : Nat := 0
  stdout : String := ""
  stderr : String := ""
deriving DecidableEq, Repr

/-- Why a command gave up: a chain of causes, and the code it ends with. -/
structure Failure where
  causes : List String
  code : Nat
deriving DecidableEq, Repr

/-- An error of the system is a cause of its own. -/
def Failure.ofError (e : Error) : Failure :=
  match e with
  | .io reason => ⟨[e.message,reason],e.exitCode⟩
  | _ => ⟨[e.message],e.exitCode⟩

def Failure.within (context : String) (f : Failure) : Failure := ⟨context :: f.causes,f.code⟩

def Failure.outcome (f : Failure) : Outcome :=
  {code := f.code,stderr := "Error: " ++ ": ".intercalate f.causes ++ "\n"}

/-- Runs a text in an interpreter. -/
abbrev Interpreter := SandboxSettings → String → ProcessOutcome

def validator (interpreter : Interpreter) (settings : SandboxSettings) (text : String) : Verdict :=
  match settings.backend with
  | .static => validate settings.knownModules text
  | .process => validateByProcess (interpreter settings text) text

def withBackend (backend : Option Backend) (settings : SandboxSettings) : SandboxSettings :=
  {settings with backend := backend.getD settings.backend}

section
variable {m : Type → Type} [Monad m] [Surroundings m]

abbrev Run (m : Type → Type) := ExceptT Failure m

def orFail {α : Type} : Except Error α → Run m α
  | .ok a => pure a
  | .error e => throw (.ofError e)

/-- Ends with the reason of a fault behind a context. -/
def orFault {α : Type} (context : String) : Except Fault α → Run m α
  | .ok a => pure a
  | .error fault => throw ⟨[context,fault.reason],1⟩

def readText (path : String) : Run m String := do
  let content ← (Surroundings.read path : m _)
  let text := content.bind fun bytes =>
    match Text.decode? bytes with
    | some text => .ok text
    | none => .error Fault.notText
  match text with
  | .ok text => return text
  | .error fault =>
    throw ((Failure.ofError (.io fault.reason)).within ("failed to read " ++ path))

/-- The text of a file, or of a class extracted from it. -/
def partText (path : String) (name : Option String) : Run m String := do
  let text ← readText path
  match name with
  | none => return text
  | some name => return (← orFail (readSource text >>= (·.extract name))).text

def fileContent (path : String) : m Configuration.FileContent := do
  if ← Surroundings.isPresent path then
    match ← Surroundings.read path with
    | .ok bytes =>
      match Text.decode? bytes with
      | some text => return .text text
      | none => return .unreadable
    | .error _ => return .unreadable
  else return .absent

def loadConfiguration (named : Option String) : Run m Configuration := do
  let content ← (fileContent (named.getD Configuration.fileName) : m _)
  orFail (Configuration.load named content)

def runClasses (file : String) : Run m Outcome := do
  let source ← orFail (readSource (← readText file))
  let lines := source.outline.map fun c =>
    toString c.line ++ "\t" ++ c.name ++ "\t" ++ toString c.units.length ++ " units\n"
  return {stdout := String.join lines}

def runExtract (file name : String) (output : Option String) : Run m Outcome := do
  let text ← partText file (some name)
  match output with
  | none => return {stdout := text}
  | some path =>
    orFault ("failed to write " ++ path) (← (Surroundings.write path text : m _))
    return {stderr := "Written: " ++ path ++ "\n"}

def skeletonJson (s : Skeleton) : Json :=
  .object [("text",.string s.text),("unit_count",.ofNat s.unitCount),
    ("docstring_count",.ofNat s.docstringCount)]

def runSkeleton (file : String) (name : Option String) (asJson : Bool) : Run m Outcome := do
  let text ← partText file name
  let skeleton ← orFail (readSource text >>= Source.skeleton)
  if asJson then return {stdout := (skeletonJson skeleton).pretty 0 ++ "\n"}
  else
    return {
      stdout := skeleton.text
      stderr := "# " ++ toString skeleton.unitCount ++ " units, " ++
        toString skeleton.docstringCount ++ " docstrings\n"}

def runValidate (interpreter : Interpreter) (settings : SandboxSettings) (file : String)
    (name : Option String) (asJson : Bool) : Run m Outcome := do
  let verdict := validator interpreter settings (← partText file name)
  return {
    code := if verdict.isValid then 0 else 1
    stdout :=
      if asJson then verdict.toJson.compact ++ "\n"
      else settings.backend.name ++ ": " ++ verdict.display ++ "\n"}

/-- A summary as an object, with the keys in order. -/
def summaryJson (backend : Backend) (elapsed : Nat) (s : ScanSummary) : Json :=
  .object [("sandbox",.string backend.name),("summary",.object [
    ("classes",.ofNat s.classes),("elapsed_ms",.ofNat elapsed),("extracted",.ofNat s.extracted),
    ("failed",.ofNat s.failed),("files",.ofNat s.files),("skeletonized",.ofNat s.skeletonized),
    ("valid",.ofNat s.valid)])]

def runScan (interpreter : Interpreter) (settings : SandboxSettings) (patterns : List String)
    (folder : String) (output : Option String) : Run m Outcome := do
  let start ← (Surroundings.milliseconds : m _)
  let place ← match ← (Surroundings.place folder : m _) with
    | .ok place => pure place
    | .error fault =>
      throw ((Failure.ofError (.io fault.reason)).within ("failed to scan " ++ folder))
  let found := scan (validator interpreter settings) patterns place
  let report := String.join (found.records.map ClassRecord.line)
  let summary := found.summary
  let elapsed := (← (Surroundings.milliseconds : m _)) - start
  let stderr := (summaryJson settings.backend elapsed summary).pretty 0 ++ "\n"
  match output with
  | none => return {stdout := report,stderr := stderr}
  | some path =>
    orFault ("failed to create " ++ path) (← (Surroundings.write path report : m _))
    return {stderr := stderr}

def runConfigInit : Run m Outcome := do
  let path := (← (Surroundings.currentFolder : m _)) ++ "/" ++ Configuration.fileName
  let text ← orFail
    (Configuration.initial path (← (Surroundings.isPresent Configuration.fileName : m _)))
  match ← (Surroundings.write Configuration.fileName text : m _) with
  | .ok () => return {stdout := "Created: " ++ path ++ "\n"}
  | .error fault => throw (.ofError (.io fault.reason))

def runAction (interpreter : Interpreter) (config : Configuration) : Action → Run m Outcome
  | .classes file => runClasses file
  | .extract file name output => runExtract file name output
  | .skeleton file name asJson => runSkeleton file name asJson
  | .validate file name backend asJson =>
    runValidate interpreter (withBackend backend config.sandbox) file name asJson
  | .scan folder output backend =>
    runScan interpreter (withBackend backend config.sandbox) config.scan.ignore folder output
  | .configInit => runConfigInit
  | .configShow => return {stdout := "# Effective config\n\n" ++ (← orFail config.rendered) ++ "\n"}

/-- Runs a command. Its configuration is read first, whatever the command does. -/
def Invocation.run (interpreter : Interpreter) (i : Invocation) : m Outcome := do
  let result ← (do runAction interpreter (← loadConfiguration i.config) i.action : Run m Outcome).run
  match result with
  | .ok outcome => return outcome
  | .error failure => return failure.outcome

/-- Does what arguments ask for. Arguments that make no sense are answered with the short help. -/
def runArguments (interpreter : Interpreter) (arguments : List String) : m Outcome :=
  match Asked.ofArguments arguments with
  | .run invocation => invocation.run interpreter
  | .help command long => return {stdout := helpText command long}
  | .version => return {stdout := versionText}
  | .refused => return {code := 2,stderr := helpText [] false}

end

end Excerpt.Command
