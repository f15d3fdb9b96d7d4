/-!
# Numerals of a listing

Words and bytes are written in upper-case hexadecimal after a dollar sign, without leading zeros.
The numbers below ten, whose decimal and hexadecimal spellings are the same, are written without
the sign. A word is spelled by its two's complement, and a byte stands at the right of a column
four wide.
-/

set_option autoImplicit false

namespace SpriteTables.Listing

/-- The upper-case hexadecimal digit of a number below sixteen. -/
def hexDigit (digit : Nat) : Char :=
  if digit < 10 then Char.ofNat ('0'.toNat + digit) else Char.ofNat ('A'.toNat + (digit - 10))

/-- The upper-case hexadecimal digits of a number, the most significant first. -/
def hexDigits (n : Nat) : List Char :=
  if n < 16 then [hexDigit n] else hexDigits (n / 16) ++ [hexDigit (n % 16)]
termination_by n

/-- The spelling of a number in a listing. -/
def numeral (n : Nat) : List Char :=
  if n < 10 then hexDigits n else '$' :: hexDigits n

/-- The spelling of a word. -/
def wordText (word : Int16) : String :=
  String.ofList (numeral word.toUInt16.toNat)

/-- The width of the column that holds a byte. -/
def byteColumn : Nat := 4

/-- The spelling of a byte, filled with spaces on the left. -/
def byteText (byte : UInt8) : String :=
  let digits := numeral byte.toNat
  String.ofList (List.replicate (byteColumn - digits.length) ' ' ++ digits)

end SpriteTables.Listing
