import SpriteTables.Width

/-!
# Digits

Numbers are written in bases up to sixteen, the letters in either case. This module reads them,
and decimal numbers of 64 bits that may follow a plus sign (`unsigned?`).
-/

set_option autoImplicit false

namespace SpriteTables.Text

/-- The digits of the hexadecimal notation, in either case. -/
def isHexDigit (c : Char) : Bool :=
  c.isDigit || ('a' ≤ c && c ≤ 'f') || ('A' ≤ c && c ≤ 'F')

/-- The value of a decimal or hexadecimal digit. -/
def digitValue (c : Char) : Nat :=
  if c.isDigit then c.toNat - '0'.toNat
  else if 'a' ≤ c && c ≤ 'f' then c.toNat - 'a'.toNat + 10
  else c.toNat - 'A'.toNat + 10

/-- The value of a sequence of digits in a base, the most significant first. -/
def digitsValue (base : Nat) (digits : List Char) : Nat :=
  digits.foldl (fun value c => value * base + digitValue c) 0

/-- The size that at least one decimal digit denotes. -/
def decimal? (digits : List Char) : Option Nat :=
  if digits ≠ [] ∧ digits.all Char.isDigit ∧ digitsValue 10 digits < sizeBound then
    some (digitsValue 10 digits)
  else none

/-- A size in decimal digits; one plus sign may stand before them. -/
def unsigned? : List Char → Option Nat
  | '+' :: digits => decimal? digits
  | digits => decimal? digits

end SpriteTables.Text
