/-!
# What the program says about itself

Two texts answer the questions for help and for the version, and a third one is shown when nothing
was asked.
-/

set_option autoImplicit false

namespace SpriteTables.CommandLine

/-- The name of the program. -/
def programName : String := "sprmin"

/-- The version of the program. -/
def programVersion : String := "0.3.0"

/-- Lines of text, each ended by a line feed. -/
def linesText (lines : List String) : String :=
  String.join (lines.map (· ++ "\n"))

/-- The answer to the question for the version. -/
def versionText : String :=
  linesText [s!"{programName} {programVersion}"]

/-- How the program is used. -/
def helpText : String :=
  linesText
    ["Deduplicating minifier for sprite mapping and DPLC tables",
     "",
     s!"Usage: {programName} [COMMAND]",
     "",
     "Commands:",
     "  run     Minify every configured artifact under a root directory",
     "  minify  Minify one source/target pair",
     "  check   Parse one artifact and print a summary",
     "  help    Print this message or the help of the given subcommand(s)",
     "",
     "Options:",
     "  -h, --help     Print help",
     "  -V, --version  Print version",
     "",
     "Examples:",
     s!"  {programName} run --root art/sprites",
     s!"  {programName} minify map.asm \"Map - Sonic.asm\" --entry-size 3 --bytes --interleave",
     s!"  {programName} check plc.asm --entry-size 1"]

/-- What the program is and how it is used. -/
def overviewText : String :=
  linesText
    [s!"{programName}, version {programVersion}.",
     "Merges identical sprite mapping and DPLC records.",
     "License: 0BSD - free to use, copy, modify, and distribute.",
     ""] ++ helpText ++ "\n"

end SpriteTables.CommandLine
