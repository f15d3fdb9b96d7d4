import Mathlib.Data.Int.ModEq
import SpriteTables.Operand
import SpriteTables.Proofs.Operand.Spelling
import SpriteTables.Proofs.Steps

/-!
# The grammar of operands

An operand is read from its tokens. What it may be is said here without tokens: a numeral with or
without a minus sign before it (`NumberText`), or two identifiers with a minus sign between them
(`ReferenceText`), and gaps anywhere around these parts. Both descriptions accept the same
operands and give them the same meaning (`Operand.reads_by_grammar`).
-/

set_option autoImplicit false

namespace SpriteTables

/-! ## The grammar -/

/-- A numeral with or without a minus sign before it, with gaps around both. -/
inductive NumberText : List Char → Int → Prop where
  | positive {before numeral after : List Char} {value : Nat} (hbefore : IsGaps before)
      (h : Numeral numeral value) (hafter : IsGaps after) :
      NumberText (before ++ numeral ++ after) value
  | negative {before between numeral after : List Char} {value : Nat} (hbefore : IsGaps before)
      (hbetween : IsGaps between) (h : Numeral numeral value) (hafter : IsGaps after) :
      NumberText (before ++ '-' :: between ++ numeral ++ after) (-value)

/-- Two identifiers, a label and its table, with a minus sign between them and gaps around all
three. -/
inductive ReferenceText : List Char → List Char → List Char → Prop where
  | mk {before label left right table after : List Char} (hbefore : IsGaps before)
      (hlabel : Identifier label) (hleft : IsGaps left) (hright : IsGaps right)
      (htable : Identifier table) (hafter : IsGaps after) :
      ReferenceText (before ++ label ++ left ++ '-' :: right ++ table ++ after) label table

/-! ## Numbers -/

section Numbers

variable {cs : List Char} {value other : Nat} {v v' : Int}

/-- A numeral denotes one number. -/
theorem Numeral.unique (h : Numeral cs value) (h' : Numeral cs other) : value = other := by
  rcases numeral_iff.mp h with ⟨-, hdigits, rfl⟩ | ⟨digits, rfl, -, -, rfl⟩
  · rcases numeral_iff.mp h' with ⟨-, -, rfl⟩ | ⟨digits, rfl, -, -, rfl⟩
    · rfl
    · exact absurd (hdigits '$' List.mem_cons_self) (by decide)
  · rcases numeral_iff.mp h' with ⟨-, hdigits, rfl⟩ | ⟨digits', heq, -, -, rfl⟩
    · exact absurd (hdigits '$' List.mem_cons_self) (by decide)
    · rw [(List.cons.inj heq).2]

/-- A numeral does not begin with a minus sign. -/
theorem Numeral.not_cons_minus : ¬ Numeral ('-' :: cs) value := by
  intro h
  rcases numeral_iff.mp h with ⟨-, hdigits, -⟩ | ⟨digits, heq, -⟩
  · exact absurd (hdigits '-' List.mem_cons_self) (by decide)
  · exact absurd (List.cons.inj heq).1 (by decide)

/-- Without its gaps the text of a number is a numeral, or one after a minus sign. -/
theorem NumberText.filter_gaps (h : NumberText cs v) :
    (∃ value : Nat, v = value ∧ Numeral (cs.filter (!isGap ·)) value) ∨
      ∃ (value : Nat) (numeral : List Char), v = -value ∧
        cs.filter (!isGap ·) = '-' :: numeral ∧ Numeral numeral value := by
  have hgaps : ∀ {gap : List Char}, IsGaps gap → gap.filter (!isGap ·) = [] := by
    intro gap hgap
    apply List.filter_eq_nil_iff.mpr
    intro c hc
    simp [isGaps_iff.mp hgap c hc]
  have hkept : ∀ {numeral : List Char} {value : Nat}, Numeral numeral value →
      numeral.filter (!isGap ·) = numeral := by
    intro numeral value hnumeral
    apply List.filter_eq_self.mpr
    intro c hc
    rw [Bool.not_eq_true', Bool.eq_false_iff]
    intro hgap
    have hgaps : IsGaps [c] := isGaps_iff.mpr (List.forall_mem_singleton.mpr hgap)
    have hplain := hnumeral.isPlain c hc
    rw [isPlain_eq_false_of_isGaps hgaps c List.mem_cons_self] at hplain
    cases hplain
  cases h with
  | @positive before numeral after value hbefore hnumeral hafter =>
      left
      refine ⟨value, rfl, ?_⟩
      simpa [hgaps hbefore, hgaps hafter, hkept hnumeral] using hnumeral
  | @negative before between numeral after value hbefore hbetween hnumeral hafter =>
      right
      refine ⟨value, numeral, rfl, ?_, hnumeral⟩
      have hminus : (!isGap '-') = true := rfl
      simp [hgaps hbefore, hgaps hbetween, hgaps hafter, hkept hnumeral, hminus]

/-- A text denotes one number at most. -/
theorem NumberText.unique (h : NumberText cs v) (h' : NumberText cs v') : v = v' := by
  rcases h.filter_gaps with ⟨value, rfl, hvalue⟩ | ⟨value, numeral, rfl, hminus, hvalue⟩
  · rcases h'.filter_gaps with ⟨other, rfl, hother⟩ | ⟨other, numeral', rfl, hminus', -⟩
    · rw [hvalue.unique hother]
    · rw [hminus'] at hvalue
      exact absurd hvalue Numeral.not_cons_minus
  · rcases h'.filter_gaps with ⟨other, rfl, hother⟩ | ⟨other, numeral', rfl, hminus', hother⟩
    · rw [hminus] at hother
      exact absurd hother Numeral.not_cons_minus
    · obtain ⟨-, rfl⟩ := List.cons.inj (hminus.symm.trans hminus')
      rw [hvalue.unique hother]

/-- A number alone is one number token. -/
theorem tokens?_eq_number_iff :
    tokens? cs = some [.number value] ↔
      ∃ before numeral after, cs = before ++ numeral ++ after ∧ IsGaps before ∧
        Numeral numeral value ∧ value < Token.numberBound ∧ IsGaps after := by
  rw [tokens?_eq_some_cons_iff]
  constructor
  · rintro ⟨before, numeral, after, rfl, hbefore, hspelled, -, hafter⟩
    cases hspelled with
    | number hnumeral hlt =>
        exact ⟨before, numeral, after, by simp, hbefore, hnumeral, hlt,
          tokens?_eq_some_nil_iff.mp hafter⟩
  · rintro ⟨before, numeral, after, rfl, hbefore, hnumeral, hlt, hafter⟩
    exact ⟨before, numeral, after, by simp, hbefore, .number hnumeral hlt,
      Token.ends_of_isGaps numeral hafter, tokens?_eq_some_nil_iff.mpr hafter⟩

namespace Operand

variable {o : Operand} {width : Width}

/-- An operand is read as a number when it is one by the grammar, below the bound of number
tokens. -/
theorem literal?_eq_some_iff :
    o.literal? = some v ↔ NumberText o.chars v ∧ v.natAbs < Token.numberBound := by
  obtain ⟨⟨start, cs⟩⟩ := o
  show literal? ⟨⟨start, cs⟩⟩ = some v ↔ NumberText cs v ∧ v.natAbs < Token.numberBound
  constructor
  · intro h
    rw [literal?] at h
    split at h
    · next value htokens =>
        cases h
        obtain ⟨before, numeral, after, heq, hbefore, hnumeral, hlt, hafter⟩ :=
          tokens?_eq_number_iff.mp htokens
        simp only at heq
        rw [heq]
        exact ⟨.positive hbefore hnumeral hafter, hlt⟩
    · next value htokens =>
        cases h
        obtain ⟨before, sign, rest, heq, hbefore, hsign, -, hrest⟩ :=
          tokens?_eq_some_cons_iff.mp htokens
        obtain ⟨between, numeral, after, rfl, hbetween, hnumeral, hlt, hafter⟩ :=
          tokens?_eq_number_iff.mp hrest
        cases hsign
        have htext : cs = before ++ '-' :: between ++ numeral ++ after := by simpa using heq
        rw [htext]
        exact ⟨.negative hbefore hbetween hnumeral hafter, by rwa [Int.natAbs_neg]⟩
    · cases h
  · rintro ⟨htext, hlt⟩
    rw [literal?]
    cases htext with
    | @positive before numeral after value hbefore hnumeral hafter =>
        have htokens := tokens?_eq_number_iff.mpr
          ⟨before, numeral, after, rfl, hbefore, hnumeral, hlt, hafter⟩
        simp only [htokens]
    | @negative before between numeral after value hbefore hbetween hnumeral hafter =>
        rw [Int.natAbs_neg] at hlt
        have hrest := tokens?_eq_number_iff.mpr
          ⟨between, numeral, after, rfl, hbetween, hnumeral, hlt, hafter⟩
        have htokens : tokens? (before ++ '-' :: between ++ numeral ++ after) =
            some [.minus, .number value] := by
          apply tokens?_eq_some_cons_iff.mpr
          refine ⟨before, ['-'], between ++ numeral ++ after, by simp, hbefore, .minus, ?_, hrest⟩
          simp [Token.Ends, Token.goesOn]
        simp only [htokens]

/-- A number of a width is one in the range of the width. -/
theorem bounded_eq_ok_iff :
    o.bounded width = .ok v ↔
      NumberText o.chars v ∧ v.natAbs < Token.numberBound ∧ width.least ≤ v ∧
        v ≤ width.greatest := by
  rw [← and_assoc, ← literal?_eq_some_iff, bounded]
  cases o.literal? with
  | none => simp
  | some found =>
      simp only [Option.some.injEq]
      split
      · next hrange =>
          constructor
          · intro h
            cases h
            exact ⟨rfl, hrange⟩
          · rintro ⟨rfl, -⟩
            rfl
      · next hrange =>
          constructor
          · intro h
            cases h
          · rintro ⟨rfl, hin⟩
            exact absurd hin hrange

end Operand

/-- The word of a number is the only one that is congruent to it. -/
theorem int16_toInt_modEq_iff (word : Int16) (v : Int) :
    word.toInt ≡ v [ZMOD 2 ^ 16] ↔ word = Int16.ofInt v := by
  have hleast := word.le_toInt
  have hgreatest := word.toInt_lt
  rw [eq_comm, Int16.ofInt_eq_iff_bmod_eq_toInt, Int.bmod_def, Int.ModEq]
  omega

/-- The byte of a number is the only one that is congruent to it. -/
theorem uint8_toNat_modEq_iff (byte : UInt8) (v : Int) :
    (byte.toNat : Int) ≡ v [ZMOD 2 ^ 8] ↔ byte = UInt8.ofInt v := by
  have hlt := byte.toNat_lt
  have hvalue : (UInt8.ofInt v).toNat = (v % 2 ^ 8).toNat := by
    rw [UInt8.ofInt, UInt8.toNat_ofNat']
    omega
  rw [← UInt8.toNat_inj, hvalue, Int.ModEq]
  omega

end Numbers

/-! ## References -/

namespace Operand

variable {o : Operand} {label table : String}

/-- An operand is read as a reference when it is one by the grammar. -/
theorem reference?_eq_some_iff :
    o.reference? = some (label, table) ↔
      ReferenceText o.chars label.toList table.toList := by
  obtain ⟨⟨start, cs⟩⟩ := o
  show reference? ⟨⟨start, cs⟩⟩ = some (label, table) ↔
    ReferenceText cs label.toList table.toList
  constructor
  · intro h
    rw [reference?] at h
    split at h
    · next found foundTable htokens =>
        cases h
        obtain ⟨before, name, rest, heq, hbefore, hname, -, hrest⟩ :=
          tokens?_eq_some_cons_iff.mp htokens
        obtain ⟨left, sign, behind, rfl, hleft, hsign, -, hbehind⟩ :=
          tokens?_eq_some_cons_iff.mp hrest
        obtain ⟨right, last, after, rfl, hright, hlast, -, hafter⟩ :=
          tokens?_eq_some_cons_iff.mp hbehind
        cases hname with
        | identifier hlabel =>
            cases hsign
            cases hlast with
            | identifier htable =>
                have htext : cs = before ++ name ++ left ++ '-' :: right ++ last ++ after := by
                  simpa using heq
                rw [htext, String.toList_ofList, String.toList_ofList]
                exact .mk hbefore (isIdentifier_iff.mp hlabel) hleft hright
                  (isIdentifier_iff.mp htable) (tokens?_eq_some_nil_iff.mp hafter)
    · cases h
  · intro htext
    generalize hlabel : label.toList = name at htext
    generalize htable : table.toList = last at htext
    obtain rfl : label = String.ofList name := by rw [← hlabel, String.ofList_toList]
    obtain rfl : table = String.ofList last := by rw [← htable, String.ofList_toList]
    cases htext with
    | @mk before name left right last after hbefore hname hleft hright hlast hafter =>
        have hbehind : tokens? (right ++ (last ++ after)) =
            some [.identifier (String.ofList last)] := by
          apply tokens?_eq_some_cons_iff.mpr
          exact ⟨right, last, after, rfl, hright, .identifier (isIdentifier_iff.mpr hlast),
            Token.ends_of_isGaps last hafter, tokens?_eq_some_nil_iff.mpr hafter⟩
        have hrest : tokens? (left ++ (['-'] ++ (right ++ (last ++ after)))) =
            some [.minus, .identifier (String.ofList last)] := by
          apply tokens?_eq_some_cons_iff.mpr
          refine ⟨left, ['-'], _, rfl, hleft, .minus, ?_, hbehind⟩
          simp [Token.Ends, Token.goesOn]
        have htokens : tokens? (before ++ name ++ left ++ '-' :: right ++ last ++ after) =
            some [.identifier (String.ofList name), .minus, .identifier (String.ofList last)] := by
          apply tokens?_eq_some_cons_iff.mpr
          refine ⟨before, name, left ++ (['-'] ++ (right ++ (last ++ after))), by simp, hbefore,
            .identifier (isIdentifier_iff.mpr hname), ?_, hrest⟩
          exact Token.ends_of_minus name hleft _
        simp only [reference?, htokens]

theorem exists_word_iff : (∃ word, o.word = .ok word) ↔ ∃ v, o.bounded .word = .ok v := by
  simp [word, map_eq_ok_iff]

theorem exists_byte_iff : (∃ byte, o.byte = .ok byte) ↔ ∃ v, o.bounded .byte = .ok v := by
  simp [byte, map_eq_ok_iff]

theorem entry_eq_ok_iff_reference? :
    o.entry = .ok (label, table) ↔ o.reference? = some (label, table) := by
  rw [entry]
  cases o.reference? with
  | none => simp
  | some names => simp

/-- Words, bytes and entries are read by the grammar. An operand is a word or a byte when it is
a number of the range, and then the only word or byte congruent to that number. It is an entry
when it is a reference, of the two identifiers in it. No operand is both a number and an
entry. -/
theorem reads_by_grammar (o : Operand) :
    ((∃ word, o.word = .ok word) ↔
      ∃ v, NumberText o.chars v ∧ v.natAbs < 2 ^ 63 ∧ -32768 ≤ v ∧ v ≤ 65535) ∧
    (∀ word v, o.word = .ok word → NumberText o.chars v →
      ∀ other : Int16, other.toInt ≡ v [ZMOD 2 ^ 16] ↔ other = word) ∧
    ((∃ byte, o.byte = .ok byte) ↔
      ∃ v, NumberText o.chars v ∧ v.natAbs < 2 ^ 63 ∧ -128 ≤ v ∧ v ≤ 255) ∧
    (∀ byte v, o.byte = .ok byte → NumberText o.chars v →
      ∀ other : UInt8, (other.toNat : Int) ≡ v [ZMOD 2 ^ 8] ↔ other = byte) ∧
    (∀ label table, o.entry = .ok (label, table) ↔
      ReferenceText o.chars label.toList table.toList) ∧
    ∀ v names, o.literal? = some v → o.entry ≠ .ok names := by
  refine ⟨?_, ?_, ?_, ?_, ?_, ?_⟩
  · rw [exists_word_iff]
    exact exists_congr fun v => bounded_eq_ok_iff
  · intro word v hword htext other
    obtain ⟨v', hbounded, rfl⟩ := map_eq_ok_iff.mp hword
    obtain rfl := htext.unique (bounded_eq_ok_iff.mp hbounded).1
    exact int16_toInt_modEq_iff other v
  · rw [exists_byte_iff]
    exact exists_congr fun v => bounded_eq_ok_iff
  · intro byte v hbyte htext other
    obtain ⟨v', hbounded, rfl⟩ := map_eq_ok_iff.mp hbyte
    obtain rfl := htext.unique (bounded_eq_ok_iff.mp hbounded).1
    exact uint8_toNat_modEq_iff other v
  · intro label table
    rw [entry_eq_ok_iff_reference?, reference?_eq_some_iff]
  · intro v names hliteral hentry
    have hnone := literal?_eq_none_of_reference? (entry_eq_ok_iff_reference?.mp hentry)
    rw [hliteral] at hnone
    cases hnone

end Operand

end SpriteTables
