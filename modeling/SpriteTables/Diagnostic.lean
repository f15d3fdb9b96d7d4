import SpriteTables.Text.Piece
import SpriteTables.Width

/-!
# Diagnostics

Everything that can make an artifact unreadable is a `Cause`. A `Diagnostic` puts a cause at a
span and adds related spans and hints. All wording is in this module.
-/

set_option autoImplicit false

namespace SpriteTables

open Text (Span)

/-! ## Causes -/

/-- What is wrong with a directive: its first word is no known keyword, nothing follows the
keyword, or it stores bytes where an offset table is declared. -/
inductive DirectiveFault where
  | unknownKeyword (keyword : String)
  | noOperands (keyword : String)
  | bytesInOffsetTable
deriving DecidableEq, Repr

/-- The text of a directive's fault. -/
def DirectiveFault.message : DirectiveFault → String
  | unknownKeyword keyword => s!"unrecognized size directive '{keyword}'"
  | noOperands keyword => s!"'{keyword}' has no operands"
  | bytesInOffsetTable => "byte operands are not allowed in an offset table"

/-- What makes an artifact unreadable. Texts are quoted as they stand. A record is truncated when
its words run out, unbalanced when a high byte has no low byte, and trailed by operands when they
follow its last word on the line; its count is invalid when it is negative or announces too many
words. -/
inductive Cause where
  | malformedDirective (fault : DirectiveFault)
  | malformedLiteral (text : String)
  | malformedLabel (text : String)
  | malformedTableEntry (text : String)
  | duplicateLabel (label : String)
  | truncatedRecord (expected read : Nat)
  | unbalancedByteOperands
  | invalidRecordCount (count : Int16)
  | trailingOperands (count : Nat)
  | unlabelledRecord
deriving DecidableEq, Repr

/-- The text of a cause. -/
def Cause.message : Cause → String
  | malformedDirective fault => s!"malformed directive: {fault.message}"
  | malformedLiteral text => s!"malformed literal '{text}'"
  | malformedLabel text => s!"malformed label '{text}'"
  | malformedTableEntry text =>
      s!"malformed offset table entry '{text}', expected '<label>-<table>'"
  | duplicateLabel label => s!"duplicate label '{label}'"
  | truncatedRecord expected read => s!"record ends after {read} of {expected} words"
  | unbalancedByteOperands => "unbalanced byte operands: a word is missing its low byte"
  | invalidRecordCount count => s!"invalid repetition count {count.toInt}"
  | trailingOperands count => s!"{count} operand(s) left over after the record ends"
  | unlabelledRecord => "record has no label"

/-! ## Related places and hints -/

/-- Why a second place is shown beside the primary one: a label's first entry in the offset table,
or where it was bound to another record; the word operand that meets half a word; the line that
interrupts a record; the operand that completes it. -/
inductive Relation where
  | firstDeclared
  | boundElsewhere
  | wordOperand
  | interruption
  | recordEnd
deriving DecidableEq, Repr

/-- The text beside a related place. -/
def Relation.message : Relation → String
  | firstDeclared => "first declared here"
  | boundElsewhere => "already bound to a different record here"
  | wordOperand => "word operand starts here"
  | interruption => "record interrupted here"
  | recordEnd => "record ends here"

/-- What may help to repair an artifact, or explains a diagnostic. -/
inductive Hint where
  | labelForm
  | indentDirectives
  | knownKeywords
  | operandRange (width : Width)
  | offsetForm
  | sharedRootOnly
  | labelBeforeRecord
  | countFirst
  | tooManyWords (count entrySize : Nat)
  | pairBytes
  | wordCompletesNoPair
  | endsMidWord
  | endsMidRecord
  | moveOperands
deriving DecidableEq, Repr

/-- Whether a hint says what to do, or explains the diagnostic. -/
inductive HintKind where
  | help
  | note
deriving DecidableEq, Repr

namespace Hint

/-- Whether a hint says what to do or explains why. -/
def kind : Hint → HintKind
  | labelForm | knownKeywords | operandRange _ | offsetForm | labelBeforeRecord
  | countFirst | pairBytes | moveOperands => .help
  | indentDirectives | sharedRootOnly | tooManyWords _ _ | wordCompletesNoPair
  | endsMidWord | endsMidRecord => .note

/-- The text of a hint. -/
def message : Hint → String
  | labelForm => "label declarations start in column 0 and end with ':'"
  | indentDirectives => "indent directives that do not declare a label"
  | knownKeywords => "expected dc.b or dc.w"
  | operandRange width =>
      s!"{width.keyword} operands must lie in {width.least}..={width.greatest}"
  | offsetForm => "declare offsets with dc.w <label>-<table>"
  | sharedRootOnly =>
      "only the main table's first label may appear again, and only in another table"
  | labelBeforeRecord => "declare a label in column 0 before the record"
  | countFirst => "the first word of a record is its repetition count"
  | tooManyWords count entrySize =>
      s!"{count} entries of {entrySize} words do not fit in a record"
  | pairBytes => "byte operands pair up high byte first; add the missing low byte"
  | wordCompletesNoPair => "a byte pair cannot be completed by a word operand"
  | endsMidWord => "the artifact ends mid-word"
  | endsMidRecord => "the artifact ends before the record is complete"
  | moveOperands => "move these operands to their own record or remove them"

end Hint

/-! ## Diagnostics -/

/-- A second place that a diagnostic points at, and what it has to do with the diagnostic. -/
structure RelatedSpan where
  span : Span
  relation : Relation
deriving DecidableEq, Repr

/-- What is wrong and where, with related places and hints in the order in which they are shown.
-/
structure Diagnostic where
  cause : Cause
  primary : Span
  related : List RelatedSpan := []
  hints : List Hint := []
deriving DecidableEq, Repr

namespace Diagnostic

/-- The bare diagnostic of a cause at a place. -/
def of (primary : Span) (cause : Cause) : Diagnostic where
  cause := cause
  primary := primary

/-- Adds a related place. -/
def relate (d : Diagnostic) (span : Span) (relation : Relation) : Diagnostic :=
  { d with related := d.related ++ [⟨span, relation⟩] }

/-- Adds a hint. -/
def advise (d : Diagnostic) (hint : Hint) : Diagnostic :=
  { d with hints := d.hints ++ [hint] }

end Diagnostic

end SpriteTables
