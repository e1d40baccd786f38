import Excerpt.Text.Blank

/-!
Reading the arguments of a command: options, operands and the command that comes next.
-/
namespace Excerpt.Command

/-- An option with a value, and which values it takes. -/
structure ValueOption where
  long : String
  short : Option Char := none
  accepts : String → Bool := fun _ => true

/-- What a command understands. -/
structure ArgumentRules where
  flags : List String := []
  options : List ValueOption := []
  /-- The operands in their order, all of which must be given. -/
  operands : List (String → Bool) := []
  /-- The commands one of which must come next, if there are any. -/
  commands : List String := []
  hasVersion : Bool := false

/-- The arguments that were read. -/
structure Given where
  flags : List String := []
  options : List (String × String) := []
  operands : List String := []
  /-- The command that comes next and the arguments behind it. -/
  next : Option (String × List String) := none

/-- Why reading ended early. -/
inductive Halt
  | help (long : Bool)
  | version
  | refused
deriving DecidableEq, Repr

namespace Given

def option? (g : Given) (name : String) : Option String :=
  (g.options.find? (·.1 == name)).map Prod.snd

def hasFlag (g : Given) (name : String) : Bool := g.flags.contains name

def operand (g : Given) (i : Nat) : String := g.operands.getD i ""

/-- A flag may be given once. -/
def addFlag (g : Given) (name : String) : Except Halt Given :=
  if g.hasFlag name then .error .refused else .ok {g with flags := name :: g.flags}

/-- An option may be given once. -/
def addOption (g : Given) (o : ValueOption) (value : String) : Except Halt Given :=
  if (g.option? o.long).isSome || !o.accepts value then .error .refused
  else .ok {g with options := (o.long,value) :: g.options}

def addOperand (rules : ArgumentRules) (g : Given) (value : String) : Except Halt Given :=
  match rules.operands[g.operands.length]? with
  | some accepts =>
    if accepts value then .ok {g with operands := g.operands ++ [value]} else .error .refused
  | none => .error .refused

/-- At the end all operands must be there, and so must the command that comes next. -/
def finish (rules : ArgumentRules) (g : Given) : Except Halt Given :=
  if g.operands.length = rules.operands.length && rules.commands.isEmpty then .ok g
  else .error .refused

end Given

/-- What a single argument is, apart from what it means to the command. -/
inductive Argument
  | separator
  /-- A long option, with the value that an equals sign gave it. -/
  | long (name : String) (value : Option String)
  /-- A short option, with what follows it in the same argument. -/
  | short (letter : Char) (rest : String)
  | word (text : String)

def splitValue (cs : List Char) : String × Option String :=
  match cs.dropWhile (· != '=') with
  | [] => (String.ofList cs,none)
  | _ :: value => (String.ofList (cs.takeWhile (· != '=')),some (String.ofList value))

def Argument.ofText (text : String) : Argument :=
  match text.toList with
  | ['-','-'] => .separator
  | '-' :: '-' :: cs => let (name,value) := splitValue cs; .long name value
  | '-' :: c :: cs => .short c (String.ofList cs)
  | _ => .word text

/-- Only a word can be the value of an option that stands in an argument of its own. -/
def Argument.isWord : Argument → Bool
  | .word _ => true
  | _ => false

/-- An argument that needs no other: a flag, or an option together with its value. The option alone
is given back if its value must follow. -/
def takeOption (rules : ArgumentRules) (g : Given) : Argument → Except Halt (Given ⊕ ValueOption)
  | .long "help" none => .error (.help true)
  | .long "version" none => .error (if rules.hasVersion then .version else .refused)
  | .long name value =>
    match rules.options.find? (·.long == name),value with
    | some o,some v => (g.addOption o v).map .inl
    | some o,none => .ok (.inr o)
    | none,none => if rules.flags.contains name then (g.addFlag name).map .inl else .error .refused
    | none,some _ => .error .refused
  | .short letter rest =>
    match rules.options.find? (·.short == some letter) with
    | some o =>
      match rest.toList with
      | [] => .ok (.inr o)
      | '=' :: value => (g.addOption o (String.ofList value)).map .inl
      | _ => (g.addOption o rest).map .inl
    | none =>
      if letter == 'h' then .error (.help false)
      else .error (if letter == 'V' && rules.hasVersion then .version else .refused)
  | _ => .error .refused

/-- Reads arguments in their order. Behind a separator all of them are operands. -/
def readArguments (rules : ArgumentRules) (plain : Bool) (g : Given) :
    List String → Except Halt Given
  | [] => g.finish rules
  | text :: rest =>
    if plain then do readArguments rules plain (← g.addOperand rules text) rest
    else
      match Argument.ofText text with
      | .separator => readArguments rules true g rest
      | .word _ =>
        if rules.commands.contains text then .ok {g with next := some (text,rest)}
        else do readArguments rules plain (← g.addOperand rules text) rest
      | argument => do
        match ← takeOption rules g argument with
        | .inl after => readArguments rules plain after rest
        | .inr o =>
          match rest with
          | [] => .error .refused
          | value :: rest =>
            if (Argument.ofText value).isWord then
              readArguments rules plain (← g.addOption o value) rest
            else .error .refused

end Excerpt.Command
