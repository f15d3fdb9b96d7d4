import SpriteTables.Operand
import SpriteTables.Text.Line

/-!
# Statements

A line of an artifact holds an optional label and a body: nothing, the word that ends the
artifact, or a directive with operands. A comment runs from the first semicolon to the end of the
line. Text in column zero must declare a label, the ending word alone excepted; indented text must
be a directive or the ending word (`Statement.ofLine`).
-/

set_option autoImplicit false

namespace SpriteTables

open Text (Piece Line isBlank isAllBlank)

/-! ## Parts of a statement -/

/-- A size directive with its operands, in order; as a piece it is its whole text. -/
structure Directive extends Piece where
  width : Width
  operands : List Operand
deriving DecidableEq, Repr

/-- What a line holds apart from its label: nothing, the word that ends the artifact, or a
directive. -/
inductive Body where
  | empty
  | sentinel
  | directive (directive : Directive)
deriving DecidableEq, Repr

/-- A declared label, as the piece that names it. -/
structure Label extends Piece
deriving DecidableEq, Repr

/-- The name that a label declares. -/
def Label.name (label : Label) : String :=
  label.text

/-- What a line says: the label it declares and what else it holds. -/
structure Statement where
  line : Line
  label : Option Label := none
  body : Body := .empty
deriving DecidableEq, Repr

/-- A statement without a label and without a body says nothing. -/
def Statement.isBlank (s : Statement) : Bool :=
  s.label.isNone && decide (s.body = .empty)

/-! ## Reading a line -/

/-- The word that ends an artifact. -/
def sentinelWord : List Char :=
  ['e', 'v', 'e', 'n']

/-- A piece up to its first semicolon. -/
def codeOf (p : Piece) : Piece :=
  p.takeWhile (· != ';')

/-- A piece without its comment and without trailing blanks. -/
def contentOf (p : Piece) : Piece :=
  (codeOf p).trimEnd

/-- Reads a directive: a keyword, a blank, and operands between commas. -/
def Directive.ofPiece (p : Piece) : Except Diagnostic Directive :=
  let (keyword, operands) := (p.cutAt isBlank).getD (p, ⟨p.span.stop, []⟩)
  match Width.ofKeyword? keyword.text with
  | none =>
      .error ((Diagnostic.of keyword.span
        (.malformedDirective (.unknownKeyword keyword.text))).advise .knownKeywords)
  | some width =>
      if isAllBlank operands.chars then
        .error (.of p.span (.malformedDirective (.noOperands keyword.text)))
      else
        .ok { p with
          width
          operands := (operands.splitOn ',').map fun piece => ⟨piece.trim⟩ }

namespace Statement

/-- Reads the name in front of a colon. -/
def ofLabel (p : Piece) : Except Diagnostic Label :=
  if isIdentifier p.chars then .ok ⟨p⟩
  else .error (.of p.span (.malformedLabel p.text))

/-- Reads what stands after the label, without blanks around it. -/
def ofBody (p : Piece) : Except Diagnostic Body :=
  if p.chars = [] then .ok .empty
  else if p.chars = sentinelWord then .ok .sentinel
  else (Directive.ofPiece p).map .directive

/-- A content declares a label when it begins in column zero and is not the
ending word. -/
def isLabelled (content : Piece) : Bool :=
  !content.chars.isEmpty && decide (content.trimStart = content)
    && decide (content.chars ≠ sentinelWord)

/-- Reads one line. -/
def ofLine (line : Line) : Except Diagnostic Statement :=
  let content := contentOf line.toPiece
  if isLabelled content then
    match content.cutAt (· == ':') with
    | none =>
        .error (((Diagnostic.of content.span (.malformedLabel content.text)).advise
          .labelForm).advise .indentDirectives)
    | some (name, rest) => do
        let label ← ofLabel name.trimEnd
        let body ← ofBody rest.trimStart
        return { line, label := some label, body }
  else do
    let body ← ofBody content.trimStart
    return { line, body }

end Statement

end SpriteTables
