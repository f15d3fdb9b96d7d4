import SpriteTables.Listing
import SpriteTables.Operand
import SpriteTables.Proofs.Operand.Token
import SpriteTables.Record.Reading

/-!
# Numerals read back

A listing spells a word by its two's complement and a byte by its value. Both spellings denote the
number that was written, so the operand has the same word or byte again (`word_of_numeral`,
`byte_of_numeral`), and a word cut into two bytes is put together again
(`wordOfBytes_bytesOfWord`).
-/

set_option autoImplicit false

namespace SpriteTables.Listing

open Text (isPlain isHexDigit digitValue digitsValue Padded)

/-! ## Digits -/

/-- The digit of a number below sixteen is hexadecimal, plain and has that value. -/
theorem hexDigit_facts {digit : Nat} (h : digit < 16) :
    isHexDigit (hexDigit digit) = true ∧ isPlain (hexDigit digit) = true ∧
      digitValue (hexDigit digit) = digit := by
  have hall : ∀ d : Fin 16, isHexDigit (hexDigit d) = true ∧ isPlain (hexDigit d) = true ∧
      digitValue (hexDigit d) = d := by decide
  exact hall ⟨digit, h⟩

theorem hexDigits_ne_nil (n : Nat) : hexDigits n ≠ [] := by
  rw [hexDigits]
  split
  · exact List.cons_ne_nil _ _
  · exact List.append_ne_nil_of_right_ne_nil _ (List.cons_ne_nil _ _)

/-- What holds of every digit holds of all digits of a number. -/
theorem forall_mem_hexDigits {property : Char → Prop}
    (h : ∀ digit, digit < 16 → property (hexDigit digit)) (n : Nat) :
    ∀ c ∈ hexDigits n, property c := by
  induction n using hexDigits.induct with
  | case1 n hlt =>
      rw [hexDigits, if_pos hlt]
      exact List.forall_mem_singleton.mpr (h n hlt)
  | case2 n hge ih =>
      rw [hexDigits, if_neg hge]
      exact List.forall_mem_append.mpr
        ⟨ih, List.forall_mem_singleton.mpr (h (n % 16) (Nat.mod_lt n (by decide)))⟩

/-- The digits of a number denote it. -/
theorem digitsValue_hexDigits (n : Nat) : digitsValue 16 (hexDigits n) = n := by
  induction n using hexDigits.induct with
  | case1 n hlt =>
      rw [hexDigits, if_pos hlt, digitsValue, List.foldl_cons, List.foldl_nil,
        (hexDigit_facts hlt).2.2, Nat.zero_mul, Nat.zero_add]
  | case2 n hge ih =>
      -- the digits before the last denote the quotient
      have hlast : n % 16 < 16 := Nat.mod_lt n (by decide)
      rw [digitsValue] at ih
      rw [hexDigits, if_neg hge, digitsValue, List.foldl_append, ih, List.foldl_cons,
        List.foldl_nil, (hexDigit_facts hlast).2.2]
      exact Nat.div_add_mod' n 16

/-! ## Numerals -/

theorem numeral_ne_nil (n : Nat) : numeral n ≠ [] := by
  rw [numeral]
  split
  · exact hexDigits_ne_nil n
  · exact List.cons_ne_nil _ _

/-- A numeral is plain. -/
theorem isPlain_numeral (n : Nat) : ∀ c ∈ numeral n, isPlain c = true := by
  have hdigits : ∀ c ∈ hexDigits n, isPlain c = true :=
    forall_mem_hexDigits (fun digit h => (hexDigit_facts h).2.1) n
  rw [numeral]
  split
  · exact hdigits
  · exact List.forall_mem_cons.mpr ⟨by decide, hdigits⟩

/-- A numeral is one number token at the start of a text. -/
theorem first?_numeral {n : Nat} (h : n < Token.numberBound) :
    Token.first? (numeral n) = some (.number n, []) := by
  rw [numeral]
  split
  · -- below ten: a single decimal digit
    next hlt =>
      have hall : ∀ d : Fin 10, Token.first? [hexDigit d] = some (.number d, []) := by decide
      rw [hexDigits, if_pos (Nat.lt_of_lt_of_le hlt (by decide))]
      exact hall ⟨n, hlt⟩
  · -- otherwise a sign and hexadecimal digits up to the end
    have hhex : ∀ c ∈ hexDigits n, isHexDigit c = true :=
      forall_mem_hexDigits (fun digit h => (hexDigit_facts h).1) n
    rw [Token.first?, if_neg (by decide), if_pos rfl, List.takeWhile_eq_self_iff.mpr hhex,
      List.dropWhile_eq_nil_iff.mpr hhex, if_neg (hexDigits_ne_nil n), Token.number?,
      digitsValue_hexDigits, if_pos h]
    rfl

/-- The only token of a numeral is its number. -/
theorem tokens?_numeral {n : Nat} (h : n < Token.numberBound) :
    tokens? (numeral n) = some [.number n] := by
  have hgap : (numeral n).dropWhile isGap = numeral n := by
    cases hnumeral : numeral n with
    | nil => exact absurd hnumeral (numeral_ne_nil n)
    | cons c rest =>
        refine dropWhile_isGap_of_isPlain (isPlain_numeral n c ?_)
        rw [hnumeral]
        exact List.mem_cons_self
  rw [tokens?_eq_of_first? (by rw [hgap]; exact first?_numeral h), tokens?_eq_nil rfl]
  rfl

/-! ## Spellings -/

theorem padded_wordText (word : Int16) :
    Padded (wordText word).toList (numeral word.toUInt16.toNat) := by
  rw [wordText, String.toList_ofList]
  exact Padded.refl (numeral_ne_nil _) (isPlain_numeral _)

theorem padded_byteText (byte : UInt8) :
    Padded (byteText byte).toList (numeral byte.toNat) := by
  rw [byteText, String.toList_ofList]
  exact ⟨⟨_, rfl⟩, numeral_ne_nil _, isPlain_numeral _⟩

/-- The value of an operand that is a numeral. -/
theorem literal?_of_numeral {o : Operand} {n : Nat} (ho : o.chars = numeral n)
    (h : n < Token.numberBound) : o.literal? = some (n : Int) := by
  rw [Operand.literal?, ho, tokens?_numeral h]

theorem int16_ofInt_toUInt16 (word : Int16) : Int16.ofInt (word.toUInt16.toNat : Int) = word := by
  have hbits : word.toUInt16.toNat = word.toBitVec.toNat := rfl
  rw [Int16.ofInt_eq_ofNat, hbits, Int16.ofNat_bitVecToNat]
  rfl

/-- An operand that spells a word is that word. -/
theorem word_of_numeral {o : Operand} {word : Int16}
    (ho : o.chars = numeral word.toUInt16.toNat) : o.word = .ok word := by
  have hlt : word.toUInt16.toNat < 65536 := word.toUInt16.toNat_lt
  have hliteral := literal?_of_numeral ho (Nat.lt_trans hlt (by decide))
  have hbounded : o.bounded .word = .ok (word.toUInt16.toNat : Int) := by
    rw [Operand.bounded, hliteral]
    refine if_pos ⟨?_, ?_⟩
    · show (-0x8000 : Int) ≤ _
      omega
    · show _ ≤ (0xFFFF : Int)
      omega
  rw [Operand.word, hbounded, Except.map, int16_ofInt_toUInt16]

/-- An operand that spells a byte is that byte. -/
theorem byte_of_numeral {o : Operand} {byte : UInt8}
    (ho : o.chars = numeral byte.toNat) : o.byte = .ok byte := by
  have hlt : byte.toNat < 256 := byte.toNat_lt
  have hliteral := literal?_of_numeral ho (Nat.lt_trans hlt (by decide))
  have hbounded : o.bounded .byte = .ok (byte.toNat : Int) := by
    rw [Operand.bounded, hliteral]
    refine if_pos ⟨?_, ?_⟩
    · show (-0x80 : Int) ≤ _
      omega
    · show _ ≤ (0xFF : Int)
      omega
  have hmod : ((byte.toNat : Int) % 2 ^ 8).toNat = byte.toNat := by omega
  rw [Operand.byte, hbounded, Except.map, UInt8.ofInt, hmod, UInt8.ofNat_toNat]

/-! ## Words and their bytes -/

/-- The high and the low byte of a word make the word. -/
theorem wordOfBytes_bytesOfWord (word : Int16) :
    ∃ high low, bytesOfWord word = [high, low] ∧ Reading.wordOfBytes high low = word := by
  have hlt : word.toUInt16.toNat < 65536 := word.toUInt16.toNat_lt
  refine ⟨_, _, rfl, ?_⟩
  have hhigh : (UInt8.ofNat (word.toUInt16.toNat / 256)).toNat = word.toUInt16.toNat / 256 :=
    UInt8.toNat_ofNat_of_lt' (by show _ < 256; omega)
  have hlow : (UInt8.ofNat (word.toUInt16.toNat % 256)).toNat = word.toUInt16.toNat % 256 :=
    UInt8.toNat_ofNat_of_lt' (by show _ < 256; omega)
  apply Int16.toBitVec_inj.mp
  apply BitVec.eq_of_toNat_eq
  show (Reading.wordOfBytes _ _).toUInt16.toNat = word.toUInt16.toNat
  rw [Reading.toNat_wordOfBytes, hhigh, hlow, Nat.div_add_mod]

end SpriteTables.Listing
