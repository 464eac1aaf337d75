/-!
# Command line arguments

The arguments are read from left to right. An argument that starts with a dash
is an option: a long one (`--path`), or a cluster of short ones (`-dp`). An
option that takes a value has it attached (`--path=x`, `-ix`, `-i=x`) or in the
next argument, which then may not look like an option. Two dashes end the
options. Anything else is the name of a subcommand, if the level has
subcommands, or a positional argument.

The first mistake ends the reading, and so does asking for help or for the
version, whichever comes first. A positional argument is not looked at where it
stands but when its level reads another option, or at the end of the level. The
end of the program's own level comes after the subcommand, so that a subcommand
can still be asked for help behind a path that is wrong.
-/

namespace GridSat.Command

/-- The options of a command that solves something. -/
structure Options where
  /-- Print the size of the problem, the solution and the time as well. -/
  debug : Bool := false
  /-- Check the solution against the problem. -/
  verify : Bool := true
  /-- Print statistics before the verdict. -/
  stats : Bool := true
  /-- Print the solution after the statistics. -/
  printSolution : Bool := false
deriving DecidableEq

/-- The shells that completions can be made for. -/
inductive Shell where
  | bash
  | elvish
  | fish
  | powershell
  | zsh
deriving DecidableEq

/-- The shell of the given name. -/
def Shell.ofName? : String → Option Shell
  | "bash" => some bash
  | "elvish" => some elvish
  | "fish" => some fish
  | "powershell" => some powershell
  | "zsh" => some zsh
  | _ => none

/-- What the program is asked to do. -/
inductive Task where
  /-- Print how to use the program. -/
  | help
  /-- Print the version. -/
  | version
  /-- Solve the DIMACS file at a path. -/
  | file (path : String) (options : Options)
  /-- Solve a DIMACS text. -/
  | text (input : String) (options : Options)
  /-- Solve the puzzle at a path, and write its formula next to it if asked to. -/
  | sudoku (path : String) (exportDimacs : Bool) (options : Options)
  /-- Solve all files below a directory. -/
  | directory (path : String) (options : Options)
  /-- Print completions for a shell. -/
  | completions (shell : Shell)
deriving DecidableEq

/-- A mistake in the arguments. -/
inductive Misuse where
  /-- There is no such option here. -/
  | unknownOption (option : String)
  /-- There is no such subcommand. -/
  | unknownSubcommand (name : String)
  /-- There is no place for this argument. -/
  | unexpectedArgument (argument : String)
  /-- An option takes no value but has one. -/
  | unexpectedValue (option : String)
  /-- An option takes a value but has none, or an empty one. -/
  | missingValue (option : String)
  /-- An option is given twice. -/
  | repeated (option : String)
  /-- A required option or argument is not there. -/
  | missing (option : String)
  /-- There is no such shell. -/
  | unknownShell (name : String)
deriving DecidableEq

/-- The text of a mistake. -/
def Misuse.message : Misuse → String
  | unknownOption option => s!"unexpected option '{option}'"
  | unknownSubcommand name => s!"unknown subcommand '{name}'"
  | unexpectedArgument argument => s!"unexpected argument '{argument}'"
  | unexpectedValue option => s!"no value is expected for '{option}'"
  | missingValue option => s!"a value is required for '{option}'"
  | repeated option => s!"'{option}' cannot be used more than once"
  | missing option => s!"'{option}' is required"
  | unknownShell name => s!"unknown shell '{name}'"

/-! ### Levels -/

/-- The options without a value. Verification and statistics are always on, so
    that asking for them changes nothing. -/
inductive Flag where
  | debug
  | verify
  | stats
  | printSolution
  | exportDimacs
deriving DecidableEq

namespace Flag

/-- The long name of a flag. -/
def long : Flag → String
  | debug => "debug"
  | verify => "verify"
  | stats => "stats"
  | printSolution => "print-solution"
  | exportDimacs => "export-dimacs"

/-- The short name of a flag. -/
def short : Flag → Char
  | debug => 'd'
  | verify => 'v'
  | stats => 's'
  | printSolution => 'p'
  | exportDimacs => 'e'

end Flag

/-- The flags that every command that solves something has. -/
def commonFlags : List Flag :=
  [.debug, .verify, .stats, .printSolution]

/-- An option that takes a value. -/
structure Valued where
  /-- Its long name. -/
  long : String
  /-- Its short name. -/
  short : Option Char := none
  /-- Whether its value may be empty. -/
  mayBeEmpty : Bool := false

/-- A positional argument. -/
structure Positional where
  /-- What is wrong with a value, if anything. -/
  mistake? : String → Option Misuse

/-- The positional argument that is a path, which may not be empty. -/
def pathPositional : Positional where
  mistake? path := if path.isEmpty then some (.missingValue "PATH") else none

/-- The positional argument that is a shell. -/
def shellPositional : Positional where
  mistake? name := if (Shell.ofName? name).isNone then some (.unknownShell name) else none

/-- What the arguments of the program, or of a subcommand, may be. -/
structure Level where
  /-- The options without a value. -/
  flags : List Flag := []
  /-- The option with a value. -/
  valued : Option Valued := none
  /-- The positional argument. -/
  positional : Option Positional := none
  /-- Whether the version can be asked for. -/
  hasVersion : Bool := false
  /-- The names of the subcommands. -/
  subcommands : List String := []

/-- The subcommands. -/
def subcommandNames : List String :=
  ["file", "text", "sudoku", "dir", "completions", "help"]

/-- The level of the program itself. -/
def topLevel : Level where
  flags := commonFlags
  positional := some pathPositional
  hasVersion := true
  subcommands := subcommandNames

/-- The level of a subcommand that works on a path. -/
def pathLevel (more : List Flag) : Level where
  flags := commonFlags ++ more
  valued := some { long := "path" }

/-- The level of the subcommand that solves a text. -/
def textLevel : Level where
  flags := commonFlags
  valued := some { long := "input", short := some 'i', mayBeEmpty := true }

/-- The level of the subcommand that prints completions. -/
def completionsLevel : Level where
  positional := some shellPositional

/-! ### Reading -/

/-- What an argument looks like. -/
inductive Token where
  /-- Two dashes. -/
  | endOfOptions
  /-- A long option, with its attached value. -/
  | long (name : String) (value : Option String)
  /-- Short options. -/
  | short (cluster : List Char)
  /-- Anything else. -/
  | plain

/-- What an argument looks like. A dash alone is no option. -/
def Token.ofArgument (argument : String) : Token :=
  match argument.toList with
  | ['-', '-'] => .endOfOptions
  | '-' :: '-' :: body =>
    match body.span (· ≠ '=') with
    | (name, []) => .long (String.ofList name) none
    | (name, _ :: value) => .long (String.ofList name) (some (String.ofList value))
  | '-' :: c :: cs => .short (c :: cs)
  | _ => .plain

/-- What was found on a level. -/
structure Found where
  /-- The flags. -/
  flags : List Flag := []
  /-- The value of the option that takes one. -/
  value : Option String := none
  /-- The positional argument. -/
  positional : Option String := none

/-- Why the reading ends early. -/
inductive Halt where
  /-- Help is asked for. -/
  | help
  /-- The version is asked for. -/
  | version
  /-- There is a mistake. -/
  | misuse (mistake : Misuse)

namespace Found

/-- Takes note of a flag. -/
def addFlag (found : Found) (flag : Flag) : Except Halt Found :=
  if flag ∈ found.flags then .error (.misuse (.repeated ("--" ++ flag.long)))
  else .ok { found with flags := flag :: found.flags }

/-- Takes note of the value of an option. -/
def addValue (found : Found) (option : Valued) (value : String) : Except Halt Found :=
  if value.isEmpty && !option.mayBeEmpty then .error (.misuse (.missingValue ("--" ++ option.long)))
  else if found.value.isSome then .error (.misuse (.repeated ("--" ++ option.long)))
  else .ok { found with value := some value }

/-- Takes note of a positional argument, without looking at it. -/
def addPositional (found : Found) (level : Level) (argument : String) : Except Halt Found :=
  match level.positional.filter fun _ => found.positional.isNone with
  | none => .error (.misuse (.unexpectedArgument argument))
  | some _ => .ok { found with positional := some argument }

/-- Looks at the positional argument. -/
def check (found : Found) (level : Level) : Except Halt Unit :=
  match level.positional.bind fun place => found.positional.bind place.mistake? with
  | some mistake => .error (.misuse mistake)
  | none => .ok ()

end Found

/-- What a long option asks for. -/
def readLong (level : Level) (found : Found) (name : String) (value : Option String) :
    Except Halt (Found × Option Valued) :=
  let plain (result : Except Halt Found) : Except Halt (Found × Option Valued) :=
    if value.isSome then .error (.misuse (.unexpectedValue ("--" ++ name)))
    else result.map fun found => (found, none)
  if name = "help" then plain (.error .help)
  else if name = "version" && level.hasVersion then plain (.error .version)
  else
    match level.flags.find? (·.long = name) with
    | some flag => plain (found.addFlag flag)
    | none =>
      match level.valued.filter (·.long = name), value with
      | some option, some value => (found.addValue option value).map fun found => (found, none)
      | some option, none => .ok (found, some option)
      | none, _ => .error (.misuse (.unknownOption ("--" ++ name)))

/-- What a cluster of short options asks for. An option that takes a value ends
    the cluster: what follows it, after an optional equals sign, is the value,
    and if nothing follows the value is still to come. -/
def readShort (level : Level) : List Char → Found → Except Halt (Found × Option Valued)
  | [], found => .ok (found, none)
  | c :: cs, found =>
    if c = 'h' then .error .help
    else if c = 'V' && level.hasVersion then .error .version
    else
      match level.flags.find? (·.short = c) with
      | some flag =>
        match found.addFlag flag with
        | .error halt => .error halt
        | .ok found => readShort level cs found
      | none =>
        match level.valued.filter (·.short = some c), cs with
        | some option, [] => .ok (found, some option)
        | some option, '=' :: value =>
          (found.addValue option (String.ofList value)).map fun found => (found, none)
        | some option, value =>
          (found.addValue option (String.ofList value)).map fun found => (found, none)
        | none, _ => .error (.misuse (.unknownOption (String.ofList ['-', c])))

/-- Takes all arguments as positional ones. -/
def readPositionals (level : Level) : List String → Found → Except Halt Found
  | [], found => .ok found
  | argument :: arguments, found =>
    match found.addPositional level argument with
    | .error halt => .error halt
    | .ok found => readPositionals level arguments found

/-- Reads the arguments of a level, up to the name of a subcommand, which is
    returned with the arguments after it. While an option waits for its value
    the next argument is that value. -/
def readLevel (level : Level) :
    List String → Option Valued → Found → Except Halt (Found × Option (String × List String))
  | [], some option, _ => .error (.misuse (.missingValue ("--" ++ option.long)))
  | [], none, found => .ok (found, none)
  | argument :: arguments, waiting, found =>
    match waiting, Token.ofArgument argument with
    | some option, .plain =>
      match found.addValue option argument with
      | .error halt => .error halt
      | .ok found => readLevel level arguments none found
    | some option, _ => .error (.misuse (.missingValue ("--" ++ option.long)))
    | none, .endOfOptions => (readPositionals level arguments found).map fun found => (found, none)
    | none, .long name value =>
      match found.check level *> readLong level found name value with
      | .error halt => .error halt
      | .ok (found, waiting) => readLevel level arguments waiting found
    | none, .short cluster =>
      match found.check level *> readShort level cluster found with
      | .error halt => .error halt
      | .ok (found, waiting) => readLevel level arguments waiting found
    | none, .plain =>
      if argument ∈ level.subcommands then .ok (found, some (argument, arguments))
      else
        match found.addPositional level argument with
        | .error halt => .error halt
        | .ok found => readLevel level arguments none found

/-- Reads all arguments of a level that has no subcommands. -/
def readWhole (level : Level) (arguments : List String) : Except Halt Found := do
  let (found, _) ← readLevel level arguments none {}
  found.check level
  return found

/-! ### Tasks -/

/-- The options among the flags that were found. Those that are on anyway stay on. -/
def Found.options (found : Found) : Options where
  debug := .debug ∈ found.flags
  printSolution := .printSolution ∈ found.flags

/-- The value of the option that a level requires. -/
def Found.required (found : Found) (option : String) : Except Halt String :=
  match found.value with
  | some value => .ok value
  | none => .error (.misuse (.missing option))

/-- Asking for help on the subcommand of a name, if one is given. -/
def helpOn : List String → Halt
  | [] => .help
  | name :: names =>
    if name ∉ subcommandNames then .misuse (.unknownSubcommand name)
    else
      match names with
      | [] => .help
      | other :: _ => .misuse (.unknownSubcommand other)

/-- The task of a subcommand with its arguments. -/
def subcommandTask (name : String) (arguments : List String) : Except Halt Task := do
  if name = "file" then
    let found ← readWhole (pathLevel []) arguments
    return .file (← found.required "--path") found.options
  else if name = "text" then
    let found ← readWhole textLevel arguments
    return .text (← found.required "--input") found.options
  else if name = "sudoku" then
    let found ← readWhole (pathLevel [.exportDimacs]) arguments
    return .sudoku (← found.required "--path") (.exportDimacs ∈ found.flags) found.options
  else if name = "dir" then
    let found ← readWhole (pathLevel []) arguments
    return .directory (← found.required "--path") found.options
  else if name = "completions" then
    let found ← readWhole completionsLevel arguments
    match found.positional.bind Shell.ofName? with
    | none => .error (.misuse (.missing "SHELL"))
    | some shell => return .completions shell
  else .error (helpOn arguments)

/-- The task of the program. A path in front of a subcommand is ignored, and
    without a path or a subcommand the task is to help. -/
def programTask (arguments : List String) : Except Halt Task := do
  let (found, subcommand) ← readLevel topLevel arguments none {}
  match subcommand with
  | some (name, rest) =>
    let task ← subcommandTask name rest
    found.check topLevel
    return task
  | none =>
    found.check topLevel
    match found.positional with
    | some path => return .file path found.options
    | none => return .help

/-- The task that the arguments ask for. -/
def Task.ofArguments (arguments : List String) : Except Misuse Task :=
  match programTask arguments with
  | .ok task => .ok task
  | .error .help => .ok .help
  | .error .version => .ok .version
  | .error (.misuse mistake) => .error mistake

end GridSat.Command
