import SpriteTables.Diagnostic
import SpriteTables.Operand.Token

/-!
# Operands

An operand is a piece of a line. What it means depends on where it stands: a number in a record, a
label less a table in an offset table; no operand is both (`literal?_eq_none_of_reference?`). A
number from the signed range and one from the unsigned range give the same byte or word when they
are congruent.
-/

set_option autoImplicit false

namespace SpriteTables

open Text (Piece)

/-- One operand of a directive. -/
structure Operand extends Piece
deriving DecidableEq, Repr

namespace Operand

/-! ## Numbers -/

/-- The number that an operand denotes. -/
def literal? (o : Operand) : Option Int :=
  match tokens? o.chars with
  | some [.number value] => some value
  | some [.minus, .number value] => some (-value)
  | _ => none

/-- The diagnostic of an operand that should have been a number. -/
def malformedLiteral (o : Operand) : Diagnostic :=
  .of o.span (.malformedLiteral o.text)

/-- The number that an operand denotes, within the range of a width. -/
def bounded (width : Width) (o : Operand) : Except Diagnostic Int :=
  match o.literal? with
  | none => .error o.malformedLiteral
  | some value =>
      if width.least ≤ value ∧ value ≤ width.greatest then .ok value
      else .error (o.malformedLiteral.advise (.operandRange width))

/-- The operand as a byte, modulo 256. -/
def byte (o : Operand) : Except Diagnostic UInt8 :=
  (o.bounded .byte).map UInt8.ofInt

/-- The operand as a word, modulo 65536. -/
def word (o : Operand) : Except Diagnostic Int16 :=
  (o.bounded .word).map Int16.ofInt

/-! ## References -/

/-- The two identifiers that an operand joins by a minus sign. -/
def reference? (o : Operand) : Option (String × String) :=
  match tokens? o.chars with
  | some [.identifier label, .minus, .identifier table] => some (label, table)
  | _ => none

/-- The label and the table that an operand of an offset table names. -/
def entry (o : Operand) : Except Diagnostic (String × String) :=
  match o.reference? with
  | some names => .ok names
  | none => .error (.of o.span (.malformedTableEntry o.text))

/-- An operand that joins two identifiers is no number. -/
theorem literal?_eq_none_of_reference? {o : Operand} {names : String × String}
    (h : o.reference? = some names) : o.literal? = none := by
  rw [reference?] at h
  split at h
  · next htokens => rw [literal?, htokens]
  · cases h

end Operand

end SpriteTables
