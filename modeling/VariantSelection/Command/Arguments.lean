/-
The arguments of the program.

Arguments are read one by one: first options of the program itself, then the name of
a command, then options of that command.  An option has a long name behind two
hyphens; some have a letter behind one, and letters can stand together.  A value
follows its option as the next argument, behind an equals sign, or right behind the
letter, and does not start with a hyphen when it is an argument of its own.  No
option may be given twice.  `ArgumentState.step` takes one argument, and
`Command.parse` all of them.
-/
import VariantSelection.Command

namespace VariantSelection

/-- The commands by their names. -/
inductive CommandName
  | init
  | resolve
  | outgoingVariants
  | resolvableConfigurations
  | attributes
  deriving DecidableEq

namespace CommandName

def text : CommandName → String
  | .init => "init"
  | .resolve => "resolve"
  | .outgoingVariants => "outgoing-variants"
  | .resolvableConfigurations => "resolvable-configurations"
  | .attributes => "attributes"

/-- The command with this name. -/
def named? (text : String) : Option CommandName :=
  [init, resolve, outgoingVariants, resolvableConfigurations, attributes].find?
    fun name => name.text = text

/-- The long name of the option that takes a value. -/
def option? : CommandName → Option String
  | .init => some "name"
  | .resolve => some "configuration"
  | .outgoingVariants => some "module"
  | .resolvableConfigurations => some "configuration"
  | .attributes => none

/-- The letter of the option that takes a value. -/
def letter? : CommandName → Option Char
  | .resolve => some 'c'
  | .resolvableConfigurations => some 'c'
  | _ => none

/-- The command with the value of its option. -/
def command (name : CommandName) (value : Option String) : Command :=
  match name with
  | .init => .init value
  | .resolve => .resolve value
  | .outgoingVariants => .outgoingVariants value
  | .resolvableConfigurations => .resolvableConfigurations value
  | .attributes => .attributes

end CommandName

/-- What the arguments ask for instead of a command, or that they ask for nothing
that there is. -/
inductive ArgumentStop
  | version
  | help
  | misuse
  deriving DecidableEq

/-- What was read of the arguments. -/
structure ArgumentState where
  name : Option CommandName := none
  /-- Whether more messages are asked for, since the command was named or before it is. -/
  verbose : Bool := false
  value : Option String := none
  /-- The next argument is the value of an option. -/
  pending : Bool := false
  /-- The usage is asked for by a word, behind which the name of a command may stand. -/
  helping : Bool := false
  /-- No argument may follow. -/
  closed : Bool := false
  deriving DecidableEq

namespace ArgumentState

/-- Takes the option that asks for more messages. -/
def addVerbose (s : ArgumentState) : Except ArgumentStop ArgumentState :=
  if s.verbose then .error .misuse else .ok { s with verbose := true }

/-- Asks for the version, which only the program itself has. -/
def askVersion (s : ArgumentState) : Except ArgumentStop ArgumentState :=
  if s.name.isNone then .error .version else .error .misuse

/-- Takes the option of the command, with its value if the value is there. -/
def addOption (s : ArgumentState) (value : Option String) : Except ArgumentStop ArgumentState :=
  if s.value.isSome then .error .misuse
  else
    match value with
    | some v => .ok { s with value := some v }
    | none => .ok { s with pending := true }

/-- Takes a long option; a value may stand behind an equals sign. -/
def addLong (s : ArgumentState) (option : List Char) : Except ArgumentStop ArgumentState :=
  let long := String.ofList (option.takeWhile (· ≠ '='))
  let value := match option.dropWhile (· ≠ '=') with
    | [] => none
    | _ :: v => some (String.ofList v)
  if s.name.bind CommandName.option? = some long then s.addOption value
  else if value.isSome then .error .misuse
  else if long = "verbose" then s.addVerbose
  else if long = "help" then .error .help
  else if long = "version" then s.askVersion
  else .error .misuse

/-- Takes letters; what stands behind the letter of an option that takes a value
is the value. -/
def addLetters (s : ArgumentState) : List Char → Except ArgumentStop ArgumentState
  | [] => .ok s
  | letter :: rest =>
    if s.name.bind CommandName.letter? = some letter then
      match rest with
      | [] => s.addOption none
      | '=' :: v => s.addOption (some (String.ofList v))
      | v => s.addOption (some (String.ofList v))
    else if letter = 'v' then do
      (← s.addVerbose).addLetters rest
    else if letter = 'h' then .error .help
    else if letter = 'V' then s.askVersion
    else .error .misuse

/-- Takes an argument that is no option: the name of a command, where none was
named before. -/
def addWord (s : ArgumentState) (word : String) : Except ArgumentStop ArgumentState :=
  if s.name.isSome then .error .misuse
  else if word = "help" then .ok { s with helping := true }
  else
    match CommandName.named? word with
    | some name => .ok { name := some name }
    | none => .error .misuse

/-- Takes the name of the command whose usage is asked for. -/
def addTopic (s : ArgumentState) (topic : String) : Except ArgumentStop ArgumentState :=
  if topic = "help" || (CommandName.named? topic).isSome then .ok { s with closed := true }
  else .error .misuse

/-- Takes the next argument. -/
def step (s : ArgumentState) (argument : String) : Except ArgumentStop ArgumentState :=
  if s.closed then .error .misuse
  else if s.helping then s.addTopic argument
  else
    match argument.toList with
    | '-' :: c :: rest =>
      if s.pending then .error .misuse
      else if c ≠ '-' then s.addLetters (c :: rest)
      else if rest.isEmpty then .ok { s with closed := true }
      else s.addLong rest
    | _ =>
      if s.pending then .ok { s with value := some argument, pending := false }
      else s.addWord argument

/-- The command that was named, unless the value of its option is missing. -/
def finish (s : ArgumentState) : Except ArgumentStop Command :=
  if s.helping then .error .help
  else match s.name with
  | some name => if s.pending then .error .misuse else .ok (name.command s.value)
  | none => .error .misuse

end ArgumentState

/-- The command that the arguments ask for. -/
def Command.parse (arguments : List String) : Except ArgumentStop Command := do
  let s ← arguments.foldlM ArgumentState.step {}
  s.finish

/-- How the program is used. -/
def usage : String :=
  unlines
    ["Usage: varsel [-v | --verbose] COMMAND [OPTIONS]", "", "Commands:",
     "  init [--name NAME]",
     "  resolve [-c | --configuration NAME]",
     "  outgoing-variants [--module GROUP:MODULE:VERSION]",
     "  resolvable-configurations [-c | --configuration NAME]",
     "  attributes"]

/-- What is printed in place of the result of a command. -/
def ArgumentStop.result : ArgumentStop → CommandResult
  | .version => { output := "varsel 0.4.0\n" }
  | .help => { output := usage }
  | .misuse => { exitCode := 2, diagnostics := usage }

/-- Runs the program with its arguments. -/
def runArguments (arguments : List String) : StateM FileSystem CommandResult :=
  match Command.parse arguments with
  | .ok command => command.run
  | .error stop => return stop.result

end VariantSelection
