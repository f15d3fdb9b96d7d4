import SpriteTables.Width

/-!
# Records

A record is a repetition count, its header, followed by payload words: as many as the count times
the entry size of the artifact. Records are the same when their words are, and they are ordered
word by word. A fingerprint is a cheap 32-bit summary of a record's words.
-/

set_option autoImplicit false

namespace SpriteTables

/-- A header word, which is a repetition count, and payload words. -/
structure Record where
  header : Int16
  payload : List Int16
deriving DecidableEq, Repr, Inhabited

namespace Record

/-- All words of a record, its header first. -/
def words (record : Record) : List Int16 :=
  record.header :: record.payload

/-- The record with the given words, which there is unless there are none. -/
def ofWords? : List Int16 → Option Record
  | [] => none
  | header :: payload => some ⟨header, payload⟩

@[simp] theorem ofWords?_words (record : Record) : ofWords? record.words = some record :=
  rfl

/-- Reading a record from words loses none of them. -/
theorem words_of_ofWords? {ws : List Int16} {record : Record}
    (h : ofWords? ws = some record) : record.words = ws := by
  cases ws with
  | nil => cases h
  | cons header payload => cases h; rfl

/-! ## Length -/

/-- The number of words of a record with a repetition count, header included,
where it is below the bound. -/
def expectedLength? (count entrySize : Nat) : Option Nat :=
  if 1 + count * entrySize < sizeBound then some (1 + count * entrySize) else none

/-! ## Fingerprint -/

/-- Joins words to a summary by exclusive or, a word that stands high being
shifted by sixteen bits and each next word standing where the one before did
not. -/
def foldWords (high : Bool) (summary : Int32) : List Int16 → Int32
  | [] => summary
  | word :: rest =>
      foldWords (!high) (summary ^^^ (if high then word.toInt32 <<< 16 else word.toInt32)) rest

/-- A 32-bit summary of the words, the first one standing low. -/
def fingerprint (record : Record) : UInt32 :=
  (foldWords false 0 record.words).toUInt32

/-! ## Order -/

/-- Compares two records by their first different word, a beginning of the other
coming first. -/
def compare (a b : Record) : Ordering :=
  Ord.compare a.words b.words

end Record

end SpriteTables
