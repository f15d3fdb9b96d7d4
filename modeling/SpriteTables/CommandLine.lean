import SpriteTables.Batch
import SpriteTables.Batch.ConfigText
import SpriteTables.CommandLine.Arguments
import SpriteTables.CommandLine.Usage

/-!
# The command line

A command is performed on files and has an outcome: an exit code, what is printed and what is
complained about. `performRun`, `performMinify` and `performCheck` are the three commands that use
files; `respond` answers any arguments.
-/

set_option autoImplicit false

namespace SpriteTables.CommandLine

open Batch (Config Finished)
open Files (FileAccess FileFault PathKey)

/-! ## Colors -/

/-- What decides whether complaints are colored. `off`, set to anything, turns colors off. `force`
turns them off if set to zero, and on if set to anything else. A `wish` of zero turns them off.
Otherwise they are on when complaints go to a `terminal`. -/
structure ColorSettings where
  off : Option String := none
  force : Option String := none
  wish : Option String := none
  terminal : Bool := false
deriving Repr

/-- Whether complaints are colored; the first setting that decides counts. -/
def ColorSettings.colored (settings : ColorSettings) : Bool :=
  if settings.off.isSome then false
  else match settings.force with
    | some force => force != "0"
    | none => settings.wish != some "0" && settings.terminal

/-! ## Outcomes -/

/-- What came of a command: its exit code, what it printed, what it complained about and what was
remarked on the way. -/
structure Outcome where
  code : Nat := 0
  printed : String := ""
  complaint : String := ""
  log : List LogEvent := []
deriving DecidableEq, Repr

namespace Outcome

/-- The exit code of a command that failed. -/
def failureCode : Nat := 1

/-- The exit code of arguments that ask for nothing. -/
def usageCode : Nat := 2

/-- A command that failed, with messages from the outermost one to the cause. -/
def failure (log : List LogEvent) (chain : List String) : Outcome where
  code := failureCode
  complaint := linesText [": ".intercalate chain]
  log := log

/-- Arguments that ask for nothing. -/
def misuse (fault : UsageFault) : Outcome where
  code := usageCode
  complaint := linesText [s!"error: {fault.message}"]

/-- A command that succeeded. -/
def success (log : List LogEvent) (printed : String) : Outcome where
  printed := printed
  log := log

end Outcome

variable {m : Type → Type} [Monad m]

/-! ## Running a batch -/

/-- What is printed about the jobs of a batch. -/
def runReport (rehearse : Bool) (jobs : List Finished) : String :=
  let verb := if rehearse then "checked" else "wrote"
  let done := if rehearse then "checked" else "written"
  let lines := jobs.filterMap fun finished =>
    match finished.result with
    | .written path counts =>
        some (s!"{verb} {path} ({finished.job.entity.name} {finished.job.kind.name}, " ++
          s!"{counts.distinctRecords} distinct records)")
    | .skipped _ => none
  linesText (lines ++ [s!"{lines.length} artifact(s) {done}, {jobs.length - lines.length} skipped"])

/-- Runs the batch of a configuration. -/
def runConfig (access : FileAccess m) (colored rehearse : Bool) (root : String)
    (config : Config) : m Outcome := do
  let ran ← Batch.run access { root, rehearse } config
  match ran.value with
  | .error failure => return .failure ran.log (failure.chain colored)
  | .ok jobs => return .success ran.log (runReport rehearse jobs)

/-- Runs the batch that arguments describe. -/
def performRun (access : FileAccess m) (colored : Bool) (arguments : RunArguments) :
    m Outcome := do
  match arguments.config with
  | none => runConfig access colored arguments.rehearse arguments.root .standard
  | some path =>
      match ← access.read path with
      | .error fault =>
          return .failure [] [s!"failed to read batch config '{path}'", fault.cause]
      | .ok text =>
          match Config.ofText text with
          | .error fault =>
              return .failure [] [s!"failed to parse batch config '{path}'", fault.message]
          | .ok config => runConfig access colored arguments.rehearse arguments.root config

/-! ## Single artifacts -/

/-- The complaint about an entry size of zero. -/
def zeroEntrySize : String := "--entry-size must be at least 1"

/-- How a single pair is minified. -/
def MinifyArguments.options (arguments : MinifyArguments) : Options where
  entrySize := arguments.entrySize
  payload := if arguments.bytes then .byte else .word
  order := if arguments.interleave then .interleaved else .sequential

/-- Prints a minified text or writes it where the arguments say. A path that is
a minus sign stands for printing. -/
def deliver (access : FileAccess m) (arguments : MinifyArguments) (log : List LogEvent)
    (text : String) : m Outcome := do
  let path := arguments.output.getD arguments.target
  if arguments.output.any fun path => PathKey.of path = PathKey.of "-" then
    return .success log text
  match ← access.write path text with
  | .error cause => return .failure log (FileFault.refused path cause).chain
  | .ok () => return .success log ""

/-- Minifies a single pair of artifacts. -/
def performMinify (access : FileAccess m) (colored : Bool) (arguments : MinifyArguments) :
    m Outcome := do
  if arguments.entrySize = 0 then return .failure [] [zeroEntrySize]
  match ← access.read arguments.source with
  | .error fault => return .failure [] (FileFault.ofRead arguments.source fault).chain
  | .ok sourceText =>
      match ← access.read arguments.target with
      | .error fault => return .failure [] (FileFault.ofRead arguments.target fault).chain
      | .ok targetText =>
          let minified := minifyTexts arguments.options
            ⟨arguments.source, sourceText⟩ ⟨arguments.target, targetText⟩
          match minified.value with
          | .error failure => return .failure minified.log [failure.report colored]
          | .ok output => deliver access arguments minified.log output.text

/-- What is printed about an artifact. -/
def checkReport (path : String) (artifact : Artifact) : String :=
  linesText
    [path,
     s!"  tables:           {artifact.offsets.tableCount}",
     s!"  offset entries:   {artifact.offsets.size}",
     s!"  distinct records: {artifact.recordCount}",
     s!"  labels:           {artifact.labelCount}"]

/-- Counts what is in an artifact. -/
def performCheck (access : FileAccess m) (colored : Bool) (arguments : CheckArguments) :
    m Outcome := do
  if arguments.entrySize = 0 then return .failure [] [zeroEntrySize]
  match ← access.read arguments.file with
  | .error fault => return .failure [] (FileFault.ofRead arguments.file fault).chain
  | .ok text =>
      let parsed := parseNamed arguments.entrySize ⟨arguments.file, text⟩
      match parsed.value with
      | .error failure => return .failure parsed.log [failure.report colored]
      | .ok artifact => return .success parsed.log (checkReport arguments.file artifact)

/-! ## All commands -/

/-- Performs a command on files. -/
def perform (access : FileAccess m) (colored : Bool) : Command → m Outcome
  | .overview => return .success [] overviewText
  | .help => return .success [] helpText
  | .version => return .success [] versionText
  | .run arguments => performRun access colored arguments
  | .minify arguments => performMinify access colored arguments
  | .check arguments => performCheck access colored arguments

/-- Does what the arguments of the program ask for. -/
def respond (access : FileAccess m) (colors : ColorSettings) (arguments : List String) :
    m Outcome :=
  match Command.ofArguments arguments with
  | .error fault => return .misuse fault
  | .ok command => perform access colors.colored command

end SpriteTables.CommandLine
