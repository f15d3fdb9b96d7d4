import SpriteTables.Entries
import SpriteTables.Files.Access
import SpriteTables.Files.Path

/-!
# Trees of files

A tree holds files in directories below a working directory. Paths are followed component by
component, as a file system does (`Tree.follow`), and what cannot be read or written is refused in
the system's words.
-/

set_option autoImplicit false

namespace SpriteTables.Files

/-! ## Files and directories -/

/-- What a file holds: text in UTF-8, or bytes that are no text. -/
inductive Content where
  | text (text : String)
  | binary
deriving DecidableEq, Repr

/-- The names that lead from the working directory to a file or directory. -/
abbrev Place := List String

/-- Files below a working directory, by their place, each once. -/
structure Tree where
  files : List (Place × Content) := []
deriving Repr

namespace Tree

/-- The file at a place. -/
def file? (tree : Tree) (place : Place) : Option Content :=
  tree.files.lookup place

/-- A place is the working directory or a directory with something in it. -/
def isDirectory (tree : Tree) (place : Place) : Bool :=
  place == [] || tree.files.any fun file => place.isPrefixOf file.1 && place != file.1

/-- Nothing is wrong with going on from a place. -/
def enter (tree : Tree) (place : Place) : Except ReadFault Unit :=
  if tree.isDirectory place then .ok ()
  else if (tree.file? place).isSome then .error (.refused notADirectory)
  else .error .missing

/-- A component stays in a directory. -/
def isStay (component : String) : Bool :=
  component == "" || component == "."

/-- A component leaves a directory. -/
def isLeave (component : String) : Bool :=
  component == ".."

/-- The place that components lead to. Only directories can be passed. Above the
working directory there are directories, but nothing else can be seen. -/
def follow (tree : Tree) (place : Place) : List String → Except ReadFault Place
  | [] => .ok place
  | component :: rest => do
      tree.enter place
      if isStay component then tree.follow place rest
      else if !isLeave component then tree.follow (place ++ [component]) rest
      else if place ≠ [] then tree.follow place.dropLast rest
      else if rest.all fun next => isStay next || isLeave next then
        .error (.refused isADirectory)
      else .error .missing

/-- The components of a path below the working directory. -/
def components? (path : String) : Option (List String) :=
  if path.isEmpty || isAbsolute path then none else some (componentsOf path)

/-! ## Reading -/

/-- The text of the file at a path. -/
def read (tree : Tree) (path : String) : Except ReadFault String :=
  match components? path with
  | none => .error .missing
  | some components => do
      let place ← tree.follow [] components
      match tree.file? place with
      | some (.text text) => .ok text
      | some .binary => .error (.refused notText)
      | none => .error (if tree.isDirectory place then .refused isADirectory else .missing)

/-! ## Writing -/

/-- A path ends in a directory, whatever there is. -/
def endsInDirectory (components : List String) : Bool :=
  components.getLast?.all fun last => isStay last || isLeave last

/-- Components without the last one that is not empty. -/
def parentsOf (components : List String) : List String :=
  (components.reverse.dropWhile (· = "")).reverse.dropLast

/-- Where a file is written, if the path leads into a directory. -/
def writePlace (tree : Tree) (path : String) : Except ReadFault Place :=
  match components? path with
  | none => .error .missing
  | some components => do
      let directory ← tree.follow [] (parentsOf components)
      tree.enter directory
      let place := directory ++ components.getLast?.toList
      if endsInDirectory components || tree.isDirectory place then
        .error (.refused isADirectory)
      else .ok place

/-- Writes a file as a whole. -/
def write (tree : Tree) (path text : String) : Except ReadFault Tree :=
  (tree.writePlace path).map fun place => ⟨Entries.put place (.text text) tree.files⟩

/-- Reads and writes a tree. -/
def access : FileAccess (StateM Tree) where
  read path := return (← get).read path
  write path text := do
    match (← get).write path text with
    | .error fault => return .error fault.cause
    | .ok tree =>
        set tree
        return .ok ()

/-- The files of a later tree that are new or differ. -/
def changes (before later : Tree) : List (Place × Content) :=
  later.files.filter fun file => before.file? file.1 ≠ some file.2

end Tree

end SpriteTables.Files
