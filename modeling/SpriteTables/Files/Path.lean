import SpriteTables.Text.Piece

/-!
# Paths of files

A path is a text; slashes separate its components. Paths are shown as they were written, so
joining never tidies anything up. Whether two paths name the same file is decided by their keys:
`PathKey.of` leaves out repeated slashes, dots and a final slash, but a dot in front of a relative
path counts, and so does every double dot.
-/

set_option autoImplicit false

namespace SpriteTables.Files

/-- The components of a path, the empty ones included. -/
def componentsOf (path : String) : List String :=
  (path.toList.splitOn '/').map String.ofList

/-- A path begins at the root of all files. -/
def isAbsolute (path : String) : Bool :=
  path.toList.head? == some '/'

/-- A path under a root directory: one slash comes between them, unless the root
is empty or ends in one. -/
def join (root path : String) : String :=
  if isAbsolute path || root.isEmpty then path
  else if root.toList.getLast? = some '/' then root ++ path
  else root ++ "/" ++ path

/-- What two spellings of one path have in common: whether it is `absolute`, that is, begins with
a slash, and the components that count. -/
structure PathKey where
  absolute : Bool
  components : List String
deriving DecidableEq, Repr, Inhabited

namespace PathKey

/-- Leaves out the components that do not count. -/
def significant (components : List String) : List String :=
  components.filter fun component => component ≠ "" ∧ component ≠ "."

/-- The key of a path. -/
def of (path : String) : PathKey :=
  match isAbsolute path, componentsOf path with
  | false, "." :: rest => ⟨false, "." :: significant rest⟩
  | absolute, components => ⟨absolute, significant components⟩

end PathKey

end SpriteTables.Files
