import SpriteTables.CommandLine

/-!
# The program

Connects the command line to the files of the world, to the environment and to
the standard streams.
-/

set_option autoImplicit false

namespace SpriteTables.Program

open Files (FileAccess)

/-- A fault of the system in its own words, as far as they are known. -/
def systemCause (error : IO.Error) : String :=
  match error with
  | .noFileOrDirectory _ _ _ => Files.noSuchFile
  | .inappropriateType _ 21 _ => Files.isADirectory
  | .inappropriateType _ 20 _ => Files.notADirectory
  | other => toString other

/-- The text of a file. -/
def readText (path : String) : IO (Except Files.ReadFault String) := do
  try
    match String.fromUTF8? (← IO.FS.readBinFile path) with
    | some text => return .ok text
    | none => return .error (.refused Files.notText)
  catch
    | .noFileOrDirectory _ _ _ => return .error .missing
    | error => return .error (.refused (systemCause error))

/-- Replaces the text of a file. -/
def writeText (path text : String) : IO (Except String Unit) := do
  try
    IO.FS.writeFile path text
    return .ok ()
  catch error => return .error (systemCause error)

/-- The files of the world. -/
def access : FileAccess IO where
  read := readText
  write := writeText

/-- The color settings of the environment. -/
def colorSettings : IO CommandLine.ColorSettings := do
  return {
    off := ← IO.getEnv "NO_COLOR"
    force := ← IO.getEnv "CLICOLOR_FORCE"
    wish := ← IO.getEnv "CLICOLOR"
    terminal := ← (← IO.getStderr).isTty }

end SpriteTables.Program

/-- Performs the command in the arguments of the program. -/
def main (arguments : List String) : IO UInt32 := do
  let outcome ← SpriteTables.CommandLine.respond SpriteTables.Program.access
    (← SpriteTables.Program.colorSettings) arguments
  for event in outcome.log do
    unless event.level = .debug do
      IO.eprintln event.line
  IO.print outcome.printed
  IO.eprint outcome.complaint
  return outcome.code.toUInt32
