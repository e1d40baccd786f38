import Excerpt.Command.Arguments
import Excerpt.Configuration

/-!
The commands and how they are called.
-/
namespace Excerpt.Command

inductive Action
  | classes (file : String)
  | extract (file name : String) (output : Option String)
  | skeleton (file : String) (name : Option String) (asJson : Bool)
  | validate (file : String) (name : Option String) (backend : Option Backend) (asJson : Bool)
  | scan (folder : String) (output : Option String) (backend : Option Backend)
  | configInit
  | configShow
deriving DecidableEq, Repr

structure Invocation where
  action : Action
  /-- The configuration file that was asked for. -/
  config : Option String
deriving DecidableEq, Repr

/-- What the arguments ask for. -/
inductive Asked
  | run (invocation : Invocation)
  /-- Help on a command, in its long form or its short one. -/
  | help (command : List String) (long : Bool)
  | version
  | refused
deriving DecidableEq, Repr

def isPath (value : String) : Bool := !value.isEmpty

def outputOption : ValueOption := {long := "output",short := some 'o',accepts := isPath}

def classOption : ValueOption := {long := "class"}

def backendOption : ValueOption :=
  {long := "backend",accepts := fun name => (Backend.ofName? name).isSome}

/-- Options that every command takes. -/
def commonOptions : List ValueOption :=
  [{long := "log-level"},{long := "config",accepts := isPath}]

def rootRules : ArgumentRules :=
  {options := commonOptions
   commands := ["classes","extract","skeleton","validate","scan","config","help"]
   hasVersion := true}

def rulesFor : List String → ArgumentRules
  | ["classes"] => {options := commonOptions,operands := [isPath]}
  | ["extract"] =>
    {options := outputOption :: commonOptions,operands := [isPath,fun _ => true]}
  | ["skeleton"] =>
    {flags := ["json"],options := classOption :: commonOptions,operands := [isPath]}
  | ["validate"] =>
    {flags := ["json"]
     options := classOption :: backendOption :: commonOptions
     operands := [isPath]}
  | ["scan"] =>
    {options := outputOption :: backendOption :: commonOptions,operands := [isPath]}
  | ["config"] => {options := commonOptions,commands := ["init","show","help"]}
  | ["config","init"] | ["config","show"] => {options := commonOptions}
  | _ => rootRules

/-- What a command does with its arguments. -/
def actionOf? (g : Given) : List String → Option Action
  | ["classes"] => some (.classes (g.operand 0))
  | ["extract"] => some (.extract (g.operand 0) (g.operand 1) (g.option? "output"))
  | ["skeleton"] => some (.skeleton (g.operand 0) (g.option? "class") (g.hasFlag "json"))
  | ["validate"] =>
    some (.validate (g.operand 0) (g.option? "class") ((g.option? "backend").bind Backend.ofName?)
      (g.hasFlag "json"))
  | ["scan"] =>
    some (.scan (g.operand 0) (g.option? "output") ((g.option? "backend").bind Backend.ofName?))
  | ["config","init"] => some .configInit
  | ["config","show"] => some .configShow
  | _ => none

/-- The command on which help is asked by its name. -/
def helpTopic (command : List String) : List String → Asked
  | [] => .help command true
  | name :: names =>
    if (rulesFor command).commands.contains name then helpTopic (command ++ [name]) names
    else .refused

/-- Reads the arguments of a command and of those that come next, as deep as commands go. The last
configuration file that was given counts. -/
def readCommand (command : List String) (config : Option String) (arguments : List String) :
    Nat → Asked
  | 0 => .refused
  | depth + 1 =>
    match readArguments (rulesFor command) false {} arguments with
    | .error (.help long) => .help command long
    | .error .version => .version
    | .error .refused => .refused
    | .ok g =>
      let config := (g.option? "config").or config
      match g.next with
      | some ("help",topic) => helpTopic command topic
      | some (name,rest) => readCommand (command ++ [name]) config rest depth
      | none =>
        match actionOf? g command with
        | some action => .run ⟨action,config⟩
        | none => .refused

def Asked.ofArguments (arguments : List String) : Asked := readCommand [] none arguments 3

end Excerpt.Command
