import SpriteTables.Text.Digit
import SpriteTables.Text.Piece

/-!
# Arguments of the command line

The first argument names a command; options and positional arguments follow in any order. Two
minus signs alone end the options. The arguments of a command are sorted by its `Grammar`
(`scan`), and the command is made of what was sorted (`Command.ofArguments`).
-/

set_option autoImplicit false

namespace SpriteTables.CommandLine

/-! ## Commands -/

/-- How a batch is to be run: by the configuration at a path, if it is not the standard one, with
paths relative to `root`. A rehearsal writes nothing. -/
structure RunArguments where
  config : Option String := none
  root : String := "."
  rehearse : Bool := false
deriving DecidableEq, Repr

/-- How a single pair of artifacts is to be minified. `source` holds the records and `target` the
offset tables; the result goes to `output`, or else over the target. With `bytes` payloads are
written as bytes, and with `interleave` offset tables are ranked record by record. -/
structure MinifyArguments where
  source : String
  target : String
  entrySize : Nat
  bytes : Bool := false
  interleave : Bool := false
  output : Option String := none
deriving DecidableEq, Repr

/-- Which artifact is to be checked, and the payload words per unit of its records. -/
structure CheckArguments where
  file : String
  entrySize : Nat
deriving DecidableEq, Repr

/-- What the program can be asked to do: to tell about itself, to run a batch, to `minify` a
single pair of artifacts, or to `check` one by counting what is in it. -/
inductive Command where
  | overview
  | help
  | version
  | run (arguments : RunArguments)
  | minify (arguments : MinifyArguments)
  | check (arguments : CheckArguments)
deriving DecidableEq, Repr

/-- Why arguments ask for nothing. An `unexpected` argument has no meaning where it stands, a
`missing` one is needed, and a `badValue` cannot be used. -/
inductive UsageFault where
  | unknownCommand (name : String)
  | unexpected (argument : String)
  | repeated (option : String)
  | missingValue (option : String)
  | unwantedValue (flag : String)
  | missing (argument : String)
  | badValue (argument value : String)
deriving DecidableEq, Repr

/-- The text of a fault. -/
def UsageFault.message : UsageFault → String
  | unknownCommand name => s!"unrecognized subcommand '{name}'"
  | unexpected argument => s!"unexpected argument '{argument}' found"
  | repeated option => s!"the argument '{option}' cannot be used multiple times"
  | missingValue option => s!"a value is required for '{option}' but none was supplied"
  | unwantedValue flag => s!"unexpected value for '{flag}' found; no more were expected"
  | missing argument => s!"the required argument '{argument}' was not provided"
  | badValue argument value => s!"invalid value '{value}' for '{argument}'"

/-! ## Single arguments -/

/-- What one argument looks like. After the `separator` there are no options. A `long` option has
two minus signs and a name, perhaps with a value after an equals sign; a `short` one has a minus
sign and a letter, perhaps with a value right after it. -/
inductive Form where
  | separator
  | long (name : String) (value : Option String)
  | short (letter : Char) (value : Option String)
  | plain
deriving DecidableEq, Repr

/-- A long option's name and the value after its first equals sign. -/
def longForm (cs : List Char) : Form :=
  match cs.dropWhile (· != '=') with
  | [] => .long (String.ofList cs) none
  | _ :: value => .long (String.ofList (cs.takeWhile (· != '='))) (some (String.ofList value))

/-- A short option's letter and the value right after it, without one equals
sign. -/
def shortForm (letter : Char) : List Char → Form
  | [] => .short letter none
  | '=' :: value => .short letter (some (String.ofList value))
  | value => .short letter (some (String.ofList value))

/-- What an argument looks like. A lone minus sign is plain. -/
def Form.of (argument : String) : Form :=
  match argument.toList with
  | ['-', '-'] => .separator
  | '-' :: '-' :: rest => longForm rest
  | '-' :: letter :: rest => shortForm letter rest
  | _ => .plain

/-! ## The arguments of a command -/

/-- An option of a command. Its name stands after two minus signs, its letter after one. -/
structure Flag where
  name : String
  letter : Option Char := none
  hasValue : Bool := true
deriving DecidableEq, Repr

/-- The options of a command, and the greatest number of positional arguments it takes. -/
structure Grammar where
  flags : List Flag
  positions : Nat
deriving Repr

/-- The arguments of a command, sorted into options with their values and positional arguments. -/
structure Given where
  options : List (String × String) := []
  positional : List String := []
deriving Repr

/-- Why the arguments of a command are not read to their end: help was asked for, or something is
wrong. -/
inductive Halt where
  | help
  | fault (fault : UsageFault)
deriving DecidableEq, Repr

namespace Given

/-- The value of an option. -/
def value? (given : Given) (name : String) : Option String :=
  given.options.lookup name

/-- An option was given. -/
def has (given : Given) (name : String) : Bool :=
  (given.value? name).isSome

/-- Adds an option, unless it was given before. -/
def addOption (given : Given) (flag : Flag) (value : String) : Except Halt Given :=
  if given.has flag.name then .error (.fault (.repeated flag.name))
  else .ok { given with options := given.options ++ [(flag.name, value)] }

/-- Adds a positional argument, unless there are enough. -/
def addPositional (grammar : Grammar) (given : Given) (argument : String) : Except Halt Given :=
  if given.positional.length < grammar.positions then
    .ok { given with positional := given.positional ++ [argument] }
  else .error (.fault (.unexpected argument))

end Given

/-- Every command explains itself on request. -/
def helpFlag : Flag where
  name := "help"
  letter := some 'h'
  hasValue := false

/-- The option that an argument names, with the value in the same argument. -/
def Grammar.flag? (grammar : Grammar) : Form → Option (Flag × Option String)
  | .long name value => ((helpFlag :: grammar.flags).find? (·.name = name)).map (·, value)
  | .short letter value =>
      ((helpFlag :: grammar.flags).find? (·.letter = some letter)).map (·, value)
  | _ => none

/-- An argument can be the value of an option before it. -/
def isValue (argument : String) : Bool :=
  Form.of argument == .plain

/-- Takes in a flag. A value in the same argument is wrong, except that a short
request for help is answered before its value is seen. -/
def Given.addFlag (given : Given) (flag : Flag) (form : Form) (value : Option String) :
    Except Halt Given :=
  match form, value with
  | .long _ _, some _ => .error (.fault (.unwantedValue flag.name))
  | _, _ =>
      if flag = helpFlag then .error .help
      else if value.isSome then .error (.fault (.unwantedValue flag.name))
      else given.addOption flag ""

/-- Sorts the arguments of a command. -/
def scan (grammar : Grammar) (given : Given) : List String → Except Halt Given
  | [] => .ok given
  | argument :: rest =>
      match Form.of argument with
      | .separator => rest.foldlM (Given.addPositional grammar) given
      | .plain => do scan grammar (← given.addPositional grammar argument) rest
      | form =>
          match grammar.flag? form with
          | none => .error (.fault (.unexpected argument))
          | some (flag, value) =>
              if flag.hasValue then
                match value, rest with
                | some value, rest => do scan grammar (← given.addOption flag value) rest
                | none, value :: rest =>
                    if isValue value then do
                      scan grammar (← given.addOption flag value) rest
                    else .error (.fault (.missingValue flag.name))
                | none, [] => .error (.fault (.missingValue flag.name))
              else do scan grammar (← given.addFlag flag form value) rest

/-! ## The commands' arguments -/

/-- A path that can be used: any but the empty one. -/
def pathOf (argument path : String) : Except Halt String :=
  if path.isEmpty then .error (.fault (.badValue argument path)) else .ok path

/-- The name of the option for the words per unit. -/
def entrySizeName : String := "entry-size"

/-- The value of the option that every command on single artifacts needs. -/
def Given.entrySize (given : Given) : Except Halt Nat :=
  match given.value? entrySizeName with
  | none => .error (.fault (.missing entrySizeName))
  | some value =>
      match Text.unsigned? value.toList with
      | none => .error (.fault (.badValue entrySizeName value))
      | some size => .ok size

/-- The path that an option gives. -/
def Given.path? (given : Given) (name : String) : Except Halt (Option String) :=
  (given.value? name).mapM (pathOf name)

/-- The arguments of running a batch. -/
def runArguments (arguments : List String) : Except Halt RunArguments := do
  let given ← scan
    { flags := [{ name := "config", letter := some 'c' }, { name := "root" },
        { name := "dry-run", hasValue := false }]
      positions := 0 } {} arguments
  return {
    config := ← given.path? "config"
    root := (← given.path? "root").getD "."
    rehearse := given.has "dry-run" }

/-- The arguments of minifying a single pair. -/
def minifyArguments (arguments : List String) : Except Halt MinifyArguments := do
  let given ← scan
    { flags := [{ name := entrySizeName }, { name := "bytes", hasValue := false },
        { name := "interleave", hasValue := false }, { name := "output", letter := some 'o' }]
      positions := 2 } {} arguments
  match given.positional with
  | [source, target] =>
      return {
        source := ← pathOf "SOURCE" source
        target := ← pathOf "TARGET" target
        entrySize := ← given.entrySize
        bytes := given.has "bytes"
        interleave := given.has "interleave"
        output := ← given.path? "output" }
  | [_] => .error (.fault (.missing "TARGET"))
  | _ => .error (.fault (.missing "SOURCE"))

/-- The arguments of checking an artifact. -/
def checkArguments (arguments : List String) : Except Halt CheckArguments := do
  let given ← scan { flags := [{ name := entrySizeName }], positions := 1 } {} arguments
  match given.positional with
  | [file] => return { file := ← pathOf "FILE" file, entrySize := ← given.entrySize }
  | _ => .error (.fault (.missing "FILE"))

/-! ## Commands in arguments -/

/-- The names of the commands. -/
def commandNames : List String := ["run", "minify", "check", "help"]

/-- What is asked for after the word for help: all commands share one help. -/
def helpTopic : List String → Except UsageFault Command
  | [] => .ok .help
  | [topic] =>
      if topic ∈ commandNames then .ok .help else .error (.unknownCommand topic)
  | topic :: other :: _ =>
      if topic ∈ commandNames then .error (.unknownCommand other)
      else .error (.unknownCommand topic)

/-- What an option in place of a command asks for. -/
def Form.command? : Form → Option Command
  | .long "help" none | .short 'h' _ => some .help
  | .long "version" none | .short 'V' _ => some .version
  | _ => none

/-- A request for help within a command is a request for help. -/
def settle {α : Type} (command : α → Command) : Except Halt α → Except UsageFault Command
  | .ok arguments => .ok (command arguments)
  | .error .help => .ok .help
  | .error (.fault fault) => .error fault

/-- The command in the arguments of the program. -/
def Command.ofArguments : List String → Except UsageFault Command
  | [] => .ok .overview
  | "run" :: rest => settle .run (runArguments rest)
  | "minify" :: rest => settle .minify (minifyArguments rest)
  | "check" :: rest => settle .check (checkArguments rest)
  | "help" :: rest => helpTopic rest
  | argument :: rest =>
      match Form.of argument with
      | .separator =>
          match rest with
          | [] => .ok .overview
          | other :: _ => .error (.unexpected other)
      | .plain => .error (.unknownCommand argument)
      | form =>
          match form.command? with
          | some command => .ok command
          | none => .error (.unexpected argument)

end SpriteTables.CommandLine
