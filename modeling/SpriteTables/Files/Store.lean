import SpriteTables.Files.Access
import SpriteTables.Files.Path
import SpriteTables.Text.Shelf

/-!
# Artifacts in memory

A store keeps artifacts by the key of their path and remembers what was written, in order. What is
read after a write is its text by every spelling of the path, and what was there before by all
other paths (`get?_write`). Some paths can be made to refuse, which comes before the question
whether the artifact exists.
-/

set_option autoImplicit false

namespace SpriteTables.Files

/-- Artifacts in memory, by the key of their path, and the paths and texts written, in order. -/
structure Store where
  artifacts : Text.Shelf PathKey := {}
  writes : List (String × String) := []
deriving Repr

/-- The displayed paths that refuse to be read or written. -/
structure Refusals where
  reads : List String := []
  writes : List String := []
deriving Repr

namespace Store

/-- The artifact at a path. -/
def get? (store : Store) (path : String) : Option String :=
  store.artifacts.get? (.of path)

/-- Puts an artifact at a path. -/
def insert (store : Store) (path text : String) : Store :=
  { store with artifacts := store.artifacts.insert (.of path) text }

/-- Puts an artifact at a path and remembers it as written. -/
def write (store : Store) (path text : String) : Store :=
  { store.insert path text with writes := store.writes ++ [(path, text)] }

/-- After a write the paths with the same key read back its text, and all others
are unchanged. -/
@[simp] theorem get?_write (store : Store) (path other text : String) :
    (store.write path text).get? other =
      if PathKey.of other = PathKey.of path then some text else store.get? other :=
  Text.Shelf.get?_insert store.artifacts (.of path) (.of other) text

/-- What a refused path says. -/
def refusal : String := "refused"

/-- Reads and writes a store in which some paths refuse. -/
def access (refusals : Refusals) : FileAccess (StateM Store) where
  read path := do
    if path ∈ refusals.reads then return .error (.refused refusal)
    match (← get).get? path with
    | some text => return .ok text
    | none => return .error .missing
  write path text := do
    if path ∈ refusals.writes then return .error refusal
    modify (·.write path text)
    return .ok ()

end Store

end SpriteTables.Files
