/-!
# Reading and writing files

The program reads and writes artifacts through a `FileAccess`: two actions of a monad. In the
finished program it is the world's files; a store in memory and a tree of files are pure ones.
-/

set_option autoImplicit false

namespace SpriteTables.Files

/-- Why a file cannot be read: there is no such file, or the system refuses, for a cause in its
own words. -/
inductive ReadFault where
  | missing
  | refused (cause : String)
deriving DecidableEq, Repr

/-- What the system says about a missing file or directory. -/
def noSuchFile : String := "No such file or directory (os error 2)"

/-- What the system says when a component of a path is no directory. -/
def notADirectory : String := "Not a directory (os error 20)"

/-- What the system says when a directory is read or written. -/
def isADirectory : String := "Is a directory (os error 21)"

/-- What is said about a file that is no text. -/
def notText : String := "stream did not contain valid UTF-8"

/-- A fault in the system's words. -/
def ReadFault.cause : ReadFault → String
  | missing => noSuchFile
  | refused cause => cause

/-- How files are read and written: by displayed path, as whole texts. A write replaces the text
of a file, or says why not. -/
structure FileAccess (m : Type → Type) where
  read : String → m (Except ReadFault String)
  write : String → String → m (Except String Unit)

/-- Why an artifact could not be read or stored: there is none at the path, or the system refused,
for a cause in its own words. -/
inductive FileFault where
  | missing (path : String)
  | refused (path cause : String)
deriving DecidableEq, Repr

namespace FileFault

/-- The fault of reading the artifact at a path. -/
def ofRead (path : String) : ReadFault → FileFault
  | .missing => missing path
  | .refused cause => refused path cause

/-- The messages of a fault, the outermost first. -/
def chain : FileFault → List String
  | missing path => [s!"artifact '{path}' does not exist"]
  | refused path cause => [s!"I/O error on '{path}'", cause]

end FileFault

end SpriteTables.Files
