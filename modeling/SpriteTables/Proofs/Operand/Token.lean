import SpriteTables.Operand.Token
import SpriteTables.Proofs.Text.Cuts

/-!
# Tokens of written operands

A listing writes identifiers and references of one identifier to another. Read as tokens, each
gives back what it was written from (`first?_identifier`, `tokens?_reference`).
-/

set_option autoImplicit false

namespace SpriteTables

open Text (isPlain)

/-! ## Characters of identifiers -/

/-- The letters are two ranges of codes. -/
theorem isAlpha_iff {c : Char} : c.isAlpha = true ↔
    (0x41 ≤ c.toNat ∧ c.toNat ≤ 0x5A) ∨ (0x61 ≤ c.toNat ∧ c.toNat ≤ 0x7A) := by
  change (decide (c.val ≥ 'A'.val ∧ c.val ≤ 'Z'.val) ||
    (decide (c.val ≥ 'a'.val) && decide (c.val ≤ 'z'.val))) = true ↔ _
  simp only [Bool.or_eq_true, Bool.and_eq_true, decide_eq_true_eq, ge_iff_le,
    UInt32.le_iff_toNat_le]
  rfl

theorem isPlain_of_isIdentifierRest {c : Char} (h : isIdentifierRest c = true) :
    isPlain c = true := by
  have hrange : 0x21 ≤ c.toNat ∧ c.toNat ≤ 0x7E := by
    simp only [isIdentifierRest, isIdentifierStart, Bool.or_eq_true, beq_iff_eq, isAlpha_iff,
      Char.isDigit_iff_toNat, Char.reduceToNat] at h
    rcases h with ((((h | rfl) | rfl) | rfl) | rfl) | h
    · omega
    · decide
    · decide
    · decide
    · decide
    · omega
  -- the three separators are in that range and fail the test one by one
  have hseparator : ∀ d ∈ [',', ';', ':'], c ≠ d := by
    rintro d hd rfl
    simp only [List.mem_cons, List.not_mem_nil, or_false] at hd
    rcases hd with rfl | rfl | rfl <;> exact absurd h (by decide)
  simp only [List.forall_mem_cons] at hseparator
  obtain ⟨hcomma, hsemicolon, hcolon, -⟩ := hseparator
  simp [isPlain, hrange, hcomma, hsemicolon, hcolon]

theorem isDigit_eq_false_of_isIdentifierStart {c : Char} (h : isIdentifierStart c = true) :
    c.isDigit = false := by
  simp only [isIdentifierStart, Bool.or_eq_true, beq_iff_eq, isAlpha_iff] at h
  rw [Bool.eq_false_iff, ne_eq, Char.isDigit_iff_toNat]
  rcases h with (((h | rfl) | rfl) | rfl) | rfl
  · simp only [Char.reduceToNat]
    omega
  · decide
  · decide
  · decide
  · decide

theorem isIdentifierStart_ne {c d : Char} (h : isIdentifierStart c = true)
    (hd : isIdentifierStart d = false) : c ≠ d := by
  rintro rfl
  rw [h] at hd
  cases hd

/-- An identifier is a first character and further ones. -/
theorem isIdentifier_cons_iff {c : Char} {rest : List Char} :
    isIdentifier (c :: rest) = true ↔
      isIdentifierStart c = true ∧ ∀ d ∈ rest, isIdentifierRest d = true := by
  rw [isIdentifier, Bool.and_eq_true, List.all_eq_true]

/-- An identifier begins with a letter or one of four signs and goes on with these
and digits. -/
def Identifier (cs : List Char) : Prop :=
  ∃ c rest, cs = c :: rest ∧ (c.isAlpha = true ∨ c ∈ ['_', '.', '@', '?']) ∧
    ∀ d ∈ rest, d.isAlpha = true ∨ d ∈ ['_', '.', '@', '?'] ∨ d.isDigit = true

/-- The test for identifiers passes what they are. -/
theorem isIdentifier_iff {cs : List Char} : isIdentifier cs = true ↔ Identifier cs := by
  have hstart : ∀ c, isIdentifierStart c = true ↔
      c.isAlpha = true ∨ c ∈ ['_', '.', '@', '?'] := by
    intro c
    simp [isIdentifierStart, or_assoc]
  rw [Identifier]
  cases cs with
  | nil => simp [isIdentifier]
  | cons c rest =>
      simp only [isIdentifier_cons_iff, isIdentifierRest, Bool.or_eq_true, hstart, or_assoc]
      constructor
      · rintro ⟨hc, hrest⟩
        exact ⟨c, rest, rfl, hc, hrest⟩
      · rintro ⟨_, _, heq, hc, hrest⟩
        cases heq
        exact ⟨hc, hrest⟩

theorem ne_nil_of_isIdentifier {cs : List Char} (h : isIdentifier cs = true) : cs ≠ [] := by
  rintro rfl
  cases h

/-- An identifier is plain. -/
theorem isPlain_of_isIdentifier {cs : List Char} (h : isIdentifier cs = true) :
    ∀ c ∈ cs, isPlain c = true := by
  cases cs with
  | nil => cases h
  | cons c rest =>
      obtain ⟨hc, hrest⟩ := isIdentifier_cons_iff.mp h
      have hfirst : isIdentifierRest c = true := by rw [isIdentifierRest, hc, Bool.true_or]
      exact List.forall_mem_cons.mpr ⟨isPlain_of_isIdentifierRest hfirst,
        fun d hd => isPlain_of_isIdentifierRest (hrest d hd)⟩

/-! ## One token at a time -/

/-- A text is at its end when nothing but gap characters is left. -/
theorem tokens?_eq_nil {cs : List Char} (h : cs.dropWhile isGap = []) : tokens? cs = some [] := by
  rw [tokens?]
  split
  · rfl
  · next hgap =>
      rw [h] at hgap
      cases hgap

/-- The first token after a gap is followed by the tokens of the rest. -/
theorem tokens?_eq_of_first? {cs after : List Char} {token : Token}
    (h : Token.first? (cs.dropWhile isGap) = some (token, after)) :
    tokens? cs = (tokens? after).map (token :: ·) := by
  rw [tokens?]
  split
  · next hgap =>
      rw [hgap] at h
      cases h
  · next c rest hgap =>
      rw [hgap] at h
      split
      · next hfirst =>
          rw [h] at hfirst
          cases hfirst
      · next hfirst =>
          rw [h] at hfirst
          cases hfirst
          rfl

/-! ## References -/

/-- An identifier is the first token of a text in which it does not go on. -/
theorem first?_identifier {name rest : List Char} (h : isIdentifier name = true)
    (hrest : ∀ c ∈ rest.head?, isIdentifierRest c = false) :
    Token.first? (name ++ rest) = some (.identifier (String.ofList name), rest) := by
  cases name with
  | nil => cases h
  | cons c more =>
      obtain ⟨hc, hmore⟩ := isIdentifier_cons_iff.mp h
      obtain ⟨htake, hdrop⟩ := Text.span_append hmore hrest
      rw [List.cons_append, Token.first?, if_neg (isIdentifierStart_ne hc rfl),
        if_neg (isIdentifierStart_ne hc rfl), isDigit_eq_false_of_isIdentifierStart hc, if_pos hc,
        htake, hdrop]
      rfl

/-- A text that begins with a plain character has no gap in front. -/
theorem dropWhile_isGap_of_isPlain {c : Char} {rest : List Char} (h : isPlain c = true) :
    (c :: rest).dropWhile isGap = c :: rest := by
  have hne : ∀ d ∈ [' ', '\t', '\r', '\x0c'], c ≠ d := by
    rintro d hd rfl
    simp only [List.mem_cons, List.not_mem_nil, or_false] at hd
    rcases hd with rfl | rfl | rfl | rfl <;> exact absurd h (by decide)
  simp only [List.forall_mem_cons] at hne
  obtain ⟨hspace, htab, hreturn, hfeed, -⟩ := hne
  rw [List.dropWhile_cons, if_neg]
  simp [isGap, hspace, htab, hreturn, hfeed]

/-- A text that begins with an identifier has no gap in front. -/
theorem dropWhile_isGap_of_isIdentifier {name rest : List Char} (h : isIdentifier name = true) :
    (name ++ rest).dropWhile isGap = name ++ rest := by
  cases name with
  | nil => cases h
  | cons c more => exact dropWhile_isGap_of_isPlain (isPlain_of_isIdentifier h c List.mem_cons_self)

/-- A label less a table is read as these two identifiers. -/
theorem tokens?_reference {label table : List Char} (hlabel : isIdentifier label = true)
    (htable : isIdentifier table = true) :
    tokens? (label ++ '-' :: table) =
      some [.identifier (String.ofList label), .minus, .identifier (String.ofList table)] := by
  have hfirst : tokens? (label ++ '-' :: table) =
      (tokens? ('-' :: table)).map (.identifier (String.ofList label) :: ·) := by
    refine tokens?_eq_of_first? ?_
    rw [dropWhile_isGap_of_isIdentifier hlabel]
    exact first?_identifier hlabel fun c hc => by obtain rfl := Option.mem_some.mp hc; rfl
  have hminus : tokens? ('-' :: table) = (tokens? table).map (.minus :: ·) :=
    tokens?_eq_of_first? rfl
  have hlast : tokens? table = (tokens? []).map (.identifier (String.ofList table) :: ·) := by
    refine tokens?_eq_of_first? ?_
    have hgap : (table ++ []).dropWhile isGap = table ++ [] :=
      dropWhile_isGap_of_isIdentifier htable
    have hname : Token.first? (table ++ []) =
        some (.identifier (String.ofList table), []) :=
      first?_identifier htable fun c hc => by cases hc
    rw [List.append_nil] at hgap hname
    rw [hgap, hname]
  rw [hfirst, hminus, hlast, tokens?_eq_nil rfl]
  rfl

end SpriteTables
