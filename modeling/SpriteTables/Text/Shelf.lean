import SpriteTables.Entries

/-!
# Collections of texts

Two ways to keep texts. A `Shelf` holds at most one text per key and replaces it on insertion
(`get?_insert`); a `Catalog` hands out consecutive numbers and keeps every text that was ever
added.
-/

set_option autoImplicit false

namespace SpriteTables.Text

/-! ## Texts by key -/

/-- Texts by key, at most one per key, in the order in which the keys first appeared. -/
structure Shelf (κ : Type) where
  entries : List (κ × String) := []
deriving Repr

namespace Shelf

variable {κ : Type} [DecidableEq κ]

/-- The text stored under a key. -/
def get? (shelf : Shelf κ) (key : κ) : Option String :=
  shelf.entries.lookup key

/-- Stores a text under a key, in place of the key's previous text. -/
def insert (shelf : Shelf κ) (key : κ) (text : String) : Shelf κ :=
  ⟨Entries.put key text shelf.entries⟩

/-- How many keys have a text. -/
def size (shelf : Shelf κ) : Nat :=
  shelf.entries.length

/-- After storing, the key reads back its text and every other key is unchanged. -/
@[simp] theorem get?_insert (shelf : Shelf κ) (key other : κ) (text : String) :
    (shelf.insert key text).get? other =
      if other = key then some text else shelf.get? other :=
  Entries.lookup_put key other text shelf.entries

end Shelf

/-! ## Texts by number -/

/-- A text under the name that reports call it. -/
structure NamedText where
  name : String
  text : String
deriving DecidableEq, Repr, Inhabited

/-- Named texts, numbered from zero in order of addition; the one added first is in front. -/
structure Catalog where
  entries : List NamedText := []
deriving Repr, Inhabited

namespace Catalog

/-- Adds a text; its number is how many were there before. -/
def add (catalog : Catalog) (entry : NamedText) : Catalog × Nat :=
  (⟨catalog.entries ++ [entry]⟩, catalog.entries.length)

/-- The text with a number. -/
def get? (catalog : Catalog) (number : Nat) : Option NamedText :=
  catalog.entries[number]?

/-- A text that was just added is found under its number. -/
theorem get?_add (catalog : Catalog) (entry : NamedText) :
    (catalog.add entry).1.get? (catalog.add entry).2 = some entry := by
  simp [add, get?]

end Catalog

end SpriteTables.Text
