import SpriteTables.Text.Piece

/-!
# Lines of a text

A text is read line by line, and an error is reported by line number. Both views are here, each
computed on its own: the sequence of lines with their offsets (`linesOf`), and the position that a
byte offset has (`positionAt`).

A line ends at a line feed; one carriage return before that, or at the end of the text, belongs to
the terminator. No line follows a final line feed, though `lineCount` is one more than the number
of line feeds.
-/

set_option autoImplicit false

namespace SpriteTables.Text

/-! ## The sequence of lines -/

/-- One line of a text, without its terminator, and its number, counted from one. -/
structure Line extends Piece where
  number : Nat
deriving DecidableEq, Repr, Inhabited

/-- A piece without one carriage return at its end. -/
def Piece.dropFinalReturn (p : Piece) : Piece :=
  if p.chars.getLast? = some '\r' then ⟨p.start, p.chars.dropLast⟩ else p

/-- Numbers the pieces between line feeds, leaving out an empty last one. -/
def numberLines (number : Nat) : List Piece → List Line
  | [] => []
  | [last] => if last.chars = [] then [] else [⟨last.dropFinalReturn, number⟩]
  | piece :: rest => ⟨piece.dropFinalReturn, number⟩ :: numberLines (number + 1) rest

/-- The lines of a text. -/
def linesOf (text : String) : List Line :=
  numberLines 1 ((Piece.whole text).splitOn '\n')

/-! ## The position of an offset -/

/-- A place in a text: line and column, both counted from one. -/
structure Position where
  line : Nat
  column : Nat
deriving DecidableEq, Repr, Inhabited

/-- The offsets after each line feed, for characters that begin at an offset. -/
def startsAfterFeeds (offset : Nat) : List Char → List Nat
  | [] => []
  | c :: cs =>
      if c = '\n' then (offset + c.utf8Size) :: startsAfterFeeds (offset + c.utf8Size) cs
      else startsAfterFeeds (offset + c.utf8Size) cs

/-- The offsets at which lines begin. -/
def lineStarts (text : String) : List Nat :=
  0 :: startsAfterFeeds 0 text.toList

/-- Line and byte column of an offset: the last line that begins at or before it,
and the distance from there. -/
def positionAt (text : String) (offset : Nat) : Position :=
  let begun := (lineStarts text).takeWhile (· ≤ offset)
  ⟨begun.length, offset - begun.getLastD 0 + 1⟩

/-- The number of line feeds, plus one. -/
def lineCount (text : String) : Nat :=
  (lineStarts text).length

end SpriteTables.Text
