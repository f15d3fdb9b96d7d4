import SpriteTables.Text.Blank

/-!
# Pieces of a text and their spans

Every diagnostic points into a text by byte offsets. A `Piece` is a stretch of a text together
with the byte offset at which it begins, so that cutting and trimming keep track of positions and
no position is ever searched for again.
-/

set_option autoImplicit false

namespace SpriteTables.Text

/-! ## Sizes in bytes -/

/-- The number of bytes a text takes in UTF-8. -/
def byteSize : List Char → Nat
  | [] => 0
  | c :: cs => c.utf8Size + byteSize cs

@[simp] theorem byteSize_nil : byteSize [] = 0 := rfl

@[simp] theorem byteSize_cons (c : Char) (cs : List Char) :
    byteSize (c :: cs) = c.utf8Size + byteSize cs := rfl

@[simp] theorem byteSize_append (cs ds : List Char) :
    byteSize (cs ++ ds) = byteSize cs + byteSize ds := by
  induction cs with
  | nil => simp
  | cons c cs ih => rw [List.cons_append, byteSize_cons, byteSize_cons, ih, Nat.add_assoc]

/-! ## Spans -/

/-- A half-open range of byte offsets into one text. -/
structure Span where
  start : Nat
  stop : Nat
deriving DecidableEq, Repr, Inhabited

/-! ## Pieces -/

/-- A stretch of a text, with the byte offset of its first character in the whole text. -/
structure Piece where
  start : Nat
  chars : List Char
deriving DecidableEq, Repr, Inhabited

namespace Piece

/-- The whole of a text is its piece at offset zero. -/
def whole (text : String) : Piece :=
  ⟨0, text.toList⟩

/-- The bytes a piece covers. -/
def span (p : Piece) : Span :=
  ⟨p.start, p.start + byteSize p.chars⟩

/-- The characters of a piece as a string. -/
def text (p : Piece) : String :=
  String.ofList p.chars

/-- The longest beginning of a piece whose characters all pass a test. -/
def takeWhile (test : Char → Bool) (p : Piece) : Piece :=
  ⟨p.start, p.chars.takeWhile test⟩

/-- What follows the longest beginning whose characters all pass a test. -/
def dropWhile (test : Char → Bool) (p : Piece) : Piece :=
  ⟨p.start + byteSize (p.chars.takeWhile test), p.chars.dropWhile test⟩

/-- A piece without its leading blanks. -/
def trimStart (p : Piece) : Piece :=
  p.dropWhile isBlank

/-- A piece without its trailing blanks. -/
def trimEnd (p : Piece) : Piece :=
  ⟨p.start, Text.trimEnd p.chars⟩

/-- A piece without blanks at either end. A piece of blanks alone becomes the
empty piece at its start, because its end is trimmed first. -/
def trim (p : Piece) : Piece :=
  p.trimEnd.trimStart

/-- The parts before and after the first character that passes a test, without
that character, or nothing when no character does. -/
def cutAt (test : Char → Bool) (p : Piece) : Option (Piece × Piece) :=
  match p.dropWhile fun c => !test c with
  | ⟨_, []⟩ => none
  | ⟨start, c :: rest⟩ =>
      some (p.takeWhile fun c => !test c, ⟨start + c.utf8Size, rest⟩)

/-- Places consecutive stretches, each followed by one separator, from an offset
on. -/
def locate (separator : Char) (start : Nat) : List (List Char) → List Piece
  | [] => []
  | cs :: rest =>
      ⟨start, cs⟩ :: locate separator (start + byteSize cs + separator.utf8Size) rest

/-- The pieces between the occurrences of a separator. -/
def splitOn (separator : Char) (p : Piece) : List Piece :=
  locate separator p.start (p.chars.splitOn separator)

end Piece

end SpriteTables.Text
