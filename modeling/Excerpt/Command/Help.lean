/-!
Help on the commands. An entry is an argument, or a command, with the text on it; the long form
gives each entry lines of its own.
-/
namespace Excerpt.Command

structure HelpEntry where
  head : String
  about : String := ""
  default : Option String := none
  /-- The values that an option takes, with a text on each. -/
  values : List (String × String) := []

structure HelpPage where
  about : String
  usage : String
  commands : List HelpEntry := []
  arguments : List HelpEntry := []
  options : List HelpEntry := []

namespace HelpEntry

def spaces (n : Nat) : String := String.ofList (List.replicate n ' ')

def defaultText (e : HelpEntry) : List String :=
  match e.default with
  | some value => ["[default: " ++ value ++ "]"]
  | none => []

def valuesText (e : HelpEntry) : List String :=
  if e.values.isEmpty then []
  else ["[possible values: " ++ ", ".intercalate (e.values.map Prod.fst) ++ "]"]

/-- The entry on one line, with its text behind a column that all entries share. -/
def shortLine (width : Nat) (e : HelpEntry) : String :=
  "  " ++ e.head ++ spaces (width + 2 - e.head.length) ++
    " ".intercalate ((if e.about.isEmpty then [] else [e.about]) ++ e.defaultText ++ e.valuesText)

def margin : String := spaces 10

def valueLines (e : HelpEntry) : List String :=
  if e.values.isEmpty then []
  else
    let width := (e.values.map fun v => v.1.length).foldl max 0
    ["",margin ++ "Possible values:"] ++ e.values.map fun (name,about) =>
      margin ++ "- " ++ name ++ ":" ++ spaces (width - name.length + 1) ++ about

/-- The entry with its text on the lines below it. -/
def longLines (e : HelpEntry) : List String :=
  ["  " ++ e.head,margin ++ e.about] ++
    (match e.default with
      | some value => [margin,margin ++ "[default: " ++ value ++ "]"]
      | none => []) ++
    e.valueLines

end HelpEntry

namespace HelpPage

def widest (entries : List HelpEntry) : Nat := (entries.map fun e => e.head.length).foldl max 0

/-- A list of entries under a title. -/
def shortSection (title : String) (entries : List HelpEntry) : List String :=
  if entries.isEmpty then []
  else ["",title] ++ entries.map (HelpEntry.shortLine (widest entries))

def longSection (title : String) (entries : List HelpEntry) : List String :=
  match entries with
  | [] => []
  | e :: others =>
    ["",title] ++ e.longLines ++ others.flatMap fun other => "" :: other.longLines

/-- Only an option whose values are explained makes a page longer than its short form. -/
def hasLongForm (p : HelpPage) : Bool := p.options.any fun e => !e.values.isEmpty

def helpEntry (p : HelpPage) (long : Bool) : HelpEntry :=
  {head := "-h, --help"
   about :=
    if !p.hasLongForm then "Print help"
    else if long then "Print help (see a summary with '-h')"
    else "Print help (see more with '--help')"}

def render (long : Bool) (p : HelpPage) : String :=
  let isLong := long && p.hasLongForm
  let entries := if isLong then longSection else shortSection
  let options :=
    p.options.filter (·.head != "-V, --version") ++ [p.helpEntry isLong] ++
      p.options.filter (·.head == "-V, --version")
  "\n".intercalate ([p.about,"",p.usage] ++ shortSection "Commands:" p.commands ++
    entries "Arguments:" p.arguments ++ entries "Options:" options) ++ "\n"

end HelpPage

def logLevelEntry : HelpEntry :=
  {head := "    --log-level <LOG_LEVEL>"
   about := "Log level filter (e.g. debug, info, warn, error)"
   default := some "info"}

def configEntry : HelpEntry :=
  {head := "    --config <CONFIG>",about := "Config file (defaults to ./pyslice.toml when present)"}

def backendEntry (about : String) : HelpEntry :=
  {head := "    --backend <BACKEND>"
   about := about
   values := [("static","Abstract execution in-process"),
     ("process","Real interpreter in a subprocess")]}

def commandEntries : List HelpEntry :=
  [⟨"classes","List top-level classes of a file",none,[]⟩,
   ⟨"extract","Print a class together with only the imports it uses",none,[]⟩,
   ⟨"skeleton","Reduce a file (or one class of it) to signatures and docstrings",none,[]⟩,
   ⟨"validate","Run a file (or one extracted class) in the sandbox; exits 1 unless valid",none,[]⟩,
   ⟨"scan","Extract, skeletonize and validate every top-level class under a directory",none,[]⟩,
   ⟨"config","Manage pyslice.toml",none,[]⟩]

def aboutHelp : HelpEntry :=
  ⟨"help","Print this message or the help of the given subcommand(s)",none,[]⟩

def aboutCommand (name : String) : String :=
  ((commandEntries.find? (·.head == name)).map HelpEntry.about).getD ""

def fileEntry : HelpEntry := {head := "<FILE>"}

def rootPage : HelpPage :=
  {about := "Extract self-contained Python classes, skeletons and sandbox verdicts"
   usage := "Usage: pyslice [OPTIONS] <COMMAND>"
   commands := commandEntries ++ [aboutHelp]
   options := [logLevelEntry,configEntry,⟨"-V, --version","Print version",none,[]⟩]}

def helpPage : List String → HelpPage
  | ["classes"] =>
    {about := aboutCommand "classes"
     usage := "Usage: pyslice classes [OPTIONS] <FILE>"
     arguments := [fileEntry]
     options := [logLevelEntry,configEntry]}
  | ["extract"] =>
    {about := aboutCommand "extract"
     usage := "Usage: pyslice extract [OPTIONS] <FILE> <CLASS>"
     arguments :=
       [fileEntry,⟨"<CLASS>","Class name, optionally qualified (pkg.module.Widget)",none,[]⟩]
     options := [logLevelEntry,
       ⟨"-o, --output <OUTPUT>","Write to a file instead of stdout",none,[]⟩,configEntry]}
  | ["skeleton"] =>
    {about := aboutCommand "skeleton"
     usage := "Usage: pyslice skeleton [OPTIONS] <FILE>"
     arguments := [fileEntry]
     options :=
       [⟨"    --class <CLASS>","Skeletonize the extracted unit of this class only",none,[]⟩,
        logLevelEntry,configEntry,
        ⟨"    --json","Print a JSON object instead of plain text",none,[]⟩]}
  | ["validate"] =>
    {about := aboutCommand "validate"
     usage := "Usage: pyslice validate [OPTIONS] <FILE>"
     arguments := [fileEntry]
     options := [⟨"    --class <CLASS>","",none,[]⟩,logLevelEntry,
       backendEntry "Override the configured sandbox backend",configEntry,
       ⟨"    --json","",none,[]⟩]}
  | ["scan"] =>
    {about := aboutCommand "scan"
     usage := "Usage: pyslice scan [OPTIONS] <DIR>"
     arguments := [⟨"<DIR>","",none,[]⟩]
     options := [logLevelEntry,
       ⟨"-o, --output <OUTPUT>","JSON lines report (stdout when omitted)",none,[]⟩,
       backendEntry "",configEntry]}
  | ["config"] =>
    {about := aboutCommand "config"
     usage := "Usage: pyslice config [OPTIONS] <COMMAND>"
     commands := [⟨"init","Create default pyslice.toml in the current directory",none,[]⟩,
       ⟨"show","Show the effective configuration",none,[]⟩,aboutHelp]
     options := [logLevelEntry,configEntry]}
  | ["config","init"] =>
    {about := "Create default pyslice.toml in the current directory"
     usage := "Usage: pyslice config init [OPTIONS]"
     options := [logLevelEntry,configEntry]}
  | ["config","show"] =>
    {about := "Show the effective configuration"
     usage := "Usage: pyslice config show [OPTIONS]"
     options := [logLevelEntry,configEntry]}
  | _ => rootPage

def helpText (command : List String) (long : Bool) : String := (helpPage command).render long

def versionText : String := "pyslice 0.1.0\n"

end Excerpt.Command
