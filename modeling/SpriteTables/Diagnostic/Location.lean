import SpriteTables.Text.Line

/-!
# Where a report places a span

The head of a report shows a place the way a text viewer counts it (`viewedPosition`). Its lines
end after more characters than the lines of an artifact, a carriage return and line feed ending
one line together, and its columns count characters, so a place can differ from `Text.positionAt`.
-/

set_option autoImplicit false

namespace SpriteTables.Diagnostic

open Text (Position)

/-- The characters after which a viewer begins a new line. -/
def lineTerminators : List Char :=
  ['\n', '\r', '\x0b', '\x0c', '\u0085', '\u2028', '\u2029']

/-- A character ends a viewed line, given what follows it: a carriage return
before a line feed leaves that to the line feed. -/
def endsViewedLine (c : Char) (rest : List Char) : Bool :=
  lineTerminators.contains c && !(c == '\r' && rest.head? == some '\n')

/-- Walks over the characters before an offset, counting lines and columns. -/
def viewedPositionFrom (here : Position) (bytes : Nat) : List Char → Position
  | [] => here
  | c :: rest =>
      if bytes < c.utf8Size then here
      else
        let next : Position :=
          if endsViewedLine c rest && !rest.isEmpty then ⟨here.line + 1, 1⟩
          else ⟨here.line, here.column + 1⟩
        viewedPositionFrom next (bytes - c.utf8Size) rest

/-- Line and character column of a byte offset in a viewed text. -/
def viewedPosition (text : String) (offset : Nat) : Position :=
  viewedPositionFrom ⟨1, 1⟩ offset text.toList

end SpriteTables.Diagnostic
