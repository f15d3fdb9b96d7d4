import Mathlib.Data.List.Forall2
import Mathlib.Data.Nat.Digits.Defs
import SpriteTables.Proofs.Operand.Token
import SpriteTables.Proofs.Text.Trims

/-!
# Spellings of tokens

Each token has spellings: a minus sign, the numerals of a number, an identifier (`Token.Spelled`).
The tokens of a text are taken from left to right, each time the longest one there. So a text has
certain tokens when it is put together from spellings of them, with gaps in between and no
spelling going on into the next one (`tokens?_eq_some_cons_iff`). Gaps and minus signs end every
token.
-/

set_option autoImplicit false

namespace SpriteTables

open Text (isHexDigit digitValue digitsValue head?_dropWhile_eq_false span_append)

/-! ## Digits and gaps -/

/-- The digits of both notations, with their values. -/
def digitTable : List (Char × Nat) :=
  [('0', 0), ('1', 1), ('2', 2), ('3', 3), ('4', 4), ('5', 5), ('6', 6), ('7', 7), ('8', 8),
   ('9', 9), ('a', 10), ('b', 11), ('c', 12), ('d', 13), ('e', 14), ('f', 15), ('A', 10),
   ('B', 11), ('C', 12), ('D', 13), ('E', 14), ('F', 15)]

/-- A character is the digit of a value in a base. -/
def IsDigit (base : Nat) (c : Char) (value : Nat) : Prop :=
  (c, value) ∈ digitTable ∧ value < base

/-- Decimal digits, or a dollar sign and hexadecimal digits, and the number they denote. -/
inductive Numeral : List Char → Nat → Prop where
  | decimal {digits : List Char} {values : List Nat} (hne : digits ≠ [])
      (h : List.Forall₂ (IsDigit 10) digits values) :
      Numeral digits (Nat.ofDigits 10 values.reverse)
  | hexadecimal {digits : List Char} {values : List Nat} (hne : digits ≠ [])
      (h : List.Forall₂ (IsDigit 16) digits values) :
      Numeral ('$' :: digits) (Nat.ofDigits 16 values.reverse)

/-- A text of nothing but spaces, tabs, carriage returns and form feeds. -/
def IsGaps (cs : List Char) : Prop :=
  ∀ c ∈ cs, c ∈ [' ', '\t', '\r', '\x0c']

section Characters

variable {c : Char} {value : Nat} {cs : List Char}

theorem isGaps_iff : IsGaps cs ↔ ∀ c ∈ cs, isGap c = true := by
  simp [IsGaps, isGap, or_assoc]

/-- The letters among the hexadecimal digits are two ranges of codes. -/
theorem isHexDigit_iff : isHexDigit c = true ↔
    c.isDigit = true ∨ (0x61 ≤ c.toNat ∧ c.toNat ≤ 0x66) ∨ (0x41 ≤ c.toNat ∧ c.toNat ≤ 0x46) := by
  simp only [isHexDigit, Bool.or_eq_true, Bool.and_eq_true, decide_eq_true_eq, Char.le_def,
    UInt32.le_iff_toNat_le, or_assoc]
  rfl

/-- The table holds the hexadecimal digits and their values. -/
theorem mem_digitTable_iff :
    (c, value) ∈ digitTable ↔ isHexDigit c = true ∧ digitValue c = value := by
  constructor
  · intro h
    have hall : ∀ p ∈ digitTable, isHexDigit p.1 = true ∧ digitValue p.1 = p.2 := by decide
    exact hall _ h
  · rintro ⟨hdigit, rfl⟩
    have hlt : c.toNat < 0x67 := by
      rcases isHexDigit_iff.mp hdigit with h | h | h
      · have hnine := (Char.isDigit_iff_toNat.mp h).2
        simp only [Char.reduceToNat] at hnine
        omega
      · omega
      · omega
    have hall : ∀ code < 0x67, isHexDigit (Char.ofNat code) = true →
        (Char.ofNat code, digitValue (Char.ofNat code)) ∈ digitTable := by decide
    have hc := hall c.toNat hlt
    rw [Char.ofNat_toNat] at hc
    exact hc hdigit

theorem isDigit_sixteen_iff :
    IsDigit 16 c value ↔ isHexDigit c = true ∧ digitValue c = value := by
  rw [IsDigit, mem_digitTable_iff, and_iff_left_iff_imp]
  rintro h
  have hall : ∀ p ∈ digitTable, p.2 < 16 := by decide
  exact hall _ (mem_digitTable_iff.mpr h)

theorem isDigit_ten_iff : IsDigit 10 c value ↔ c.isDigit = true ∧ digitValue c = value := by
  rw [IsDigit]
  constructor
  · rintro ⟨hmem, hlt⟩
    refine ⟨?_, (mem_digitTable_iff.mp hmem).2⟩
    have hall : ∀ p ∈ digitTable, p.2 < 10 → p.1.isDigit = true := by decide
    exact hall _ hmem hlt
  · rintro ⟨hdigit, hvalue⟩
    have hmem : (c, value) ∈ digitTable := by
      apply mem_digitTable_iff.mpr
      exact ⟨isHexDigit_iff.mpr (Or.inl hdigit), hvalue⟩
    have hall : ∀ p ∈ digitTable, p.1.isDigit = true → p.2 < 10 := by decide
    exact ⟨hmem, hall _ hmem hdigit⟩

/-- Digits one by one are characters that pass a test, with their values. -/
theorem forall₂_isDigit_iff {base : Nat} {test : Char → Bool} {values : List Nat}
    (h : ∀ c value, IsDigit base c value ↔ test c = true ∧ digitValue c = value) :
    List.Forall₂ (IsDigit base) cs values ↔
      (∀ c ∈ cs, test c = true) ∧ cs.map digitValue = values := by
  induction cs generalizing values with
  | nil =>
      rw [List.forall₂_nil_left_iff, List.map_nil]
      simp only [List.not_mem_nil, false_imp_iff, implies_true, true_and]
      exact eq_comm
  | cons c cs ih =>
      simp only [List.forall₂_cons_left_iff, h, ih, List.forall_mem_cons, List.map_cons]
      constructor
      · rintro ⟨value, rest, ⟨hc, rfl⟩, ⟨hcs, rfl⟩, rfl⟩
        exact ⟨⟨hc, hcs⟩, rfl⟩
      · rintro ⟨⟨hc, hcs⟩, rfl⟩
        exact ⟨_, _, ⟨hc, rfl⟩, ⟨hcs, rfl⟩, rfl⟩

/-- The value of digits, the most significant one first. -/
theorem digitsValue_eq_ofDigits (base : Nat) (digits : List Char) :
    digitsValue base digits = Nat.ofDigits base (digits.map digitValue).reverse := by
  rw [Nat.ofDigits_eq_foldr, List.foldr_reverse, List.foldl_map, digitsValue]
  congr 1
  funext value c
  simp [Nat.mul_comm, Nat.add_comm]

/-- A numeral is what the tests for digits pass. -/
theorem numeral_iff :
    Numeral cs value ↔
      (cs ≠ [] ∧ (∀ c ∈ cs, c.isDigit = true) ∧ digitsValue 10 cs = value) ∨
        ∃ digits, cs = '$' :: digits ∧ digits ≠ [] ∧ (∀ c ∈ digits, isHexDigit c = true) ∧
          digitsValue 16 digits = value := by
  simp only [digitsValue_eq_ofDigits]
  constructor
  · intro h
    cases h with
    | decimal hne hdigits =>
        obtain ⟨htest, rfl⟩ := (forall₂_isDigit_iff fun _ _ => isDigit_ten_iff).mp hdigits
        exact Or.inl ⟨hne, htest, rfl⟩
    | hexadecimal hne hdigits =>
        obtain ⟨htest, rfl⟩ := (forall₂_isDigit_iff fun _ _ => isDigit_sixteen_iff).mp hdigits
        exact Or.inr ⟨_, rfl, hne, htest, rfl⟩
  · rintro (⟨hne, htest, rfl⟩ | ⟨digits, rfl, hne, htest, rfl⟩)
    · apply Numeral.decimal hne
      exact (forall₂_isDigit_iff fun _ _ => isDigit_ten_iff).mpr ⟨htest, rfl⟩
    · apply Numeral.hexadecimal hne
      exact (forall₂_isDigit_iff fun _ _ => isDigit_sixteen_iff).mpr ⟨htest, rfl⟩

/-- A gap character is none of a token. -/
theorem isPlain_eq_false_of_isGaps (h : IsGaps cs) : ∀ c ∈ cs, Text.isPlain c = false := by
  intro c hc
  have hall : [' ', '\t', '\r', '\x0c'].all (!Text.isPlain ·) = true := by decide
  have hc := List.all_eq_true.mp hall c (h c hc)
  rwa [Bool.not_eq_true'] at hc

theorem isPlain_of_isHexDigit (h : isHexDigit c = true) : Text.isPlain c = true := by
  have hall : ∀ p ∈ digitTable, Text.isPlain p.1 = true := by decide
  exact hall _ (mem_digitTable_iff.mpr ⟨h, rfl⟩)

theorem isPlain_of_isDigit (h : c.isDigit = true) : Text.isPlain c = true :=
  isPlain_of_isHexDigit (isHexDigit_iff.mpr (Or.inl h))

/-- A numeral is plain. -/
theorem Numeral.isPlain (h : Numeral cs value) : ∀ c ∈ cs, Text.isPlain c = true := by
  intro c hc
  rcases numeral_iff.mp h with ⟨-, hdigits, -⟩ | ⟨digits, rfl, -, hdigits, -⟩
  · exact isPlain_of_isDigit (hdigits c hc)
  · rcases List.mem_cons.mp hc with rfl | hc
    · decide
    · exact isPlain_of_isHexDigit (hdigits c hc)

end Characters

/-! ## Spellings -/

namespace Token

/-- The spellings of a token: a minus sign, a numeral below the bound, an identifier. -/
inductive Spelled : Token → List Char → Prop where
  | minus : Spelled .minus ['-']
  | number {cs : List Char} {value : Nat} (h : Numeral cs value) (hlt : value < numberBound) :
      Spelled (.number value) cs
  | identifier {cs : List Char} (h : isIdentifier cs = true) :
      Spelled (.identifier (String.ofList cs)) cs

/-- The characters with which a token goes on, told by its first one. -/
def goesOn (first next : Char) : Bool :=
  if first = '-' then false
  else if first = '$' then isHexDigit next
  else if first.isDigit then next.isDigit
  else isIdentifierRest next

/-- A token ends where its spelling does not go on. -/
def Ends (lexeme rest : List Char) : Prop :=
  ∀ first ∈ lexeme.head?, ∀ next ∈ rest.head?, goesOn first next = false

end Token

/-! ## The longest token -/

section Longest

variable {c : Char} {cs rest lexeme after gap : List Char} {token : Token} {tokens : List Token}

namespace Token

/-- A number token is below the bound. -/
theorem number?_eq_some_iff {base : Nat} {digits : List Char} :
    number? base digits = some token ↔
      token = .number (digitsValue base digits) ∧ digitsValue base digits < numberBound := by
  rw [number?]
  split
  · next hlt =>
      constructor
      · intro h
        cases h
        exact ⟨rfl, hlt⟩
      · rintro ⟨rfl, -⟩
        rfl
  · next hge =>
      constructor
      · intro h
        cases h
      · rintro ⟨-, hlt⟩
        exact absurd hlt hge

/-- A number at the front of a text is the value of its digits. -/
theorem number?_map_eq_some_iff {base : Nat} {digits : List Char} :
    (number? base digits).map (·, rest) = some (token, after) ↔
      token = .number (digitsValue base digits) ∧ digitsValue base digits < numberBound ∧
        rest = after := by
  simp only [Option.map_eq_some_iff, number?_eq_some_iff, Prod.mk.injEq]
  constructor
  · rintro ⟨_, ⟨rfl, hlt⟩, rfl, rfl⟩
    exact ⟨rfl, hlt, rfl⟩
  · rintro ⟨rfl, hlt, rfl⟩
    exact ⟨_, ⟨rfl, hlt⟩, rfl, rfl⟩

theorem ne_of_isDigit {sign : Char} (h : c.isDigit = true) (hsign : sign.isDigit = false) :
    c ≠ sign := by
  rintro rfl
  rw [h] at hsign
  cases hsign

/-- A digit goes on with digits. -/
theorem goesOn_of_isDigit (h : c.isDigit = true) : goesOn c = Char.isDigit := by
  funext next
  rw [goesOn, if_neg (ne_of_isDigit h rfl), if_neg (ne_of_isDigit h rfl), if_pos h]

/-- The first character of an identifier goes on with the further ones. -/
theorem goesOn_of_isIdentifierStart (h : isIdentifierStart c = true) :
    goesOn c = isIdentifierRest := by
  have hdigit := isDigit_eq_false_of_isIdentifierStart h
  funext next
  rw [goesOn, if_neg (isIdentifierStart_ne h rfl), if_neg (isIdentifierStart_ne h rfl), hdigit]
  rfl

/-- A token ends where the characters end that it may go on with. -/
theorem ends_dropWhile {more : List Char} {test : Char → Bool} (h : goesOn c = test) :
    Ends (c :: more.takeWhile test) (more.dropWhile test) := by
  intro first hfirst next hnext
  obtain rfl := Option.mem_some.mp hfirst
  rw [h]
  exact head?_dropWhile_eq_false test more next hnext

/-- The first token of a text is spelled by the longest beginning that can spell one. -/
theorem exists_spelled_of_first? (h : first? cs = some (token, rest)) :
    ∃ lexeme, cs = lexeme ++ rest ∧ token.Spelled lexeme ∧ Ends lexeme rest := by
  cases cs with
  | nil => cases h
  | cons c more =>
      have hsplit : ∀ test, c :: more = c :: more.takeWhile test ++ more.dropWhile test := by
        simp
      rw [first?] at h
      split at h
      · next hminus =>
          cases h
          refine ⟨[c], rfl, hminus ▸ .minus, ?_⟩
          simp [Ends, goesOn, hminus]
      · split at h
        · next hdollar =>
            split at h
            · cases h
            · next hne =>
                obtain ⟨rfl, hlt, rfl⟩ := number?_map_eq_some_iff.mp h
                refine ⟨c :: more.takeWhile isHexDigit, hsplit _, ?_, ends_dropWhile ?_⟩
                · have hdigits : ∀ d ∈ more.takeWhile isHexDigit, isHexDigit d = true :=
                    fun d hd => List.mem_takeWhile_imp hd
                  rw [hdollar]
                  exact .number (numeral_iff.mpr (Or.inr ⟨_, rfl, hne, hdigits, rfl⟩)) hlt
                · rw [hdollar]
                  rfl
        · split at h
          · next hdigit =>
              obtain ⟨rfl, hlt, rfl⟩ := number?_map_eq_some_iff.mp h
              refine ⟨c :: more.takeWhile Char.isDigit, hsplit _, ?_,
                ends_dropWhile (goesOn_of_isDigit hdigit)⟩
              have hdigits : ∀ d ∈ c :: more.takeWhile Char.isDigit, d.isDigit = true :=
                List.forall_mem_cons.mpr ⟨hdigit, fun d hd => List.mem_takeWhile_imp hd⟩
              exact .number (numeral_iff.mpr (Or.inl ⟨List.cons_ne_nil _ _, hdigits, rfl⟩)) hlt
          · split at h
            · next hstart =>
                cases h
                refine ⟨c :: more.takeWhile isIdentifierRest, hsplit _, .identifier ?_,
                  ends_dropWhile (goesOn_of_isIdentifierStart hstart)⟩
                apply isIdentifier_cons_iff.mpr
                exact ⟨hstart, fun d hd => List.mem_takeWhile_imp hd⟩
            · cases h

/-- A spelling of a token that does not go on is the first token. -/
theorem first?_of_spelled (h : token.Spelled lexeme) (hends : Ends lexeme rest) :
    first? (lexeme ++ rest) = some (token, rest) := by
  cases h with
  | minus => rfl
  | number hnumeral hlt =>
      rcases numeral_iff.mp hnumeral with ⟨hne, hdigits, rfl⟩ | ⟨digits, rfl, hne, hdigits, rfl⟩
      · obtain ⟨c, more, rfl⟩ := List.exists_cons_of_ne_nil hne
        obtain ⟨hc, hmore⟩ := List.forall_mem_cons.mp hdigits
        have hstop := hends c rfl
        rw [goesOn_of_isDigit hc] at hstop
        obtain ⟨htake, hdrop⟩ := span_append hmore hstop
        rw [List.cons_append, first?, if_neg (ne_of_isDigit hc rfl), if_neg (ne_of_isDigit hc rfl),
          if_pos hc, htake, hdrop]
        exact number?_map_eq_some_iff.mpr ⟨rfl, hlt, rfl⟩
      · obtain ⟨htake, hdrop⟩ := span_append hdigits (hends '$' rfl)
        rw [List.cons_append, first?, if_neg (by decide), if_pos rfl, htake, hdrop, if_neg hne]
        exact number?_map_eq_some_iff.mpr ⟨rfl, hlt, rfl⟩
  | identifier hname =>
      apply first?_identifier hname
      obtain ⟨c, more, rfl⟩ := List.exists_cons_of_ne_nil (ne_nil_of_isIdentifier hname)
      obtain ⟨hc, -⟩ := isIdentifier_cons_iff.mp hname
      have hstop := hends c rfl
      rwa [goesOn_of_isIdentifierStart hc] at hstop

/-- The first token of a text is the longest one. -/
theorem first?_eq_some_iff :
    first? cs = some (token, rest) ↔
      ∃ lexeme, cs = lexeme ++ rest ∧ token.Spelled lexeme ∧ Ends lexeme rest := by
  constructor
  · exact exists_spelled_of_first?
  · rintro ⟨lexeme, rfl, hspelled, hends⟩
    exact first?_of_spelled hspelled hends

/-- A spelling is plain, so that it neither begins nor ends with a gap. -/
theorem Spelled.isPlain (h : token.Spelled lexeme) : ∀ c ∈ lexeme, Text.isPlain c = true := by
  cases h with
  | minus => exact List.forall_mem_singleton.mpr rfl
  | number hnumeral hlt => exact hnumeral.isPlain
  | identifier hname => exact isPlain_of_isIdentifier hname

theorem Spelled.ne_nil (h : token.Spelled lexeme) : lexeme ≠ [] := by
  cases h with
  | minus => exact List.cons_ne_nil _ _
  | number hnumeral hlt =>
      cases hnumeral with
      | decimal hne hdigits => exact hne
      | hexadecimal hne hdigits => exact List.cons_ne_nil _ _
  | identifier hname => exact ne_nil_of_isIdentifier hname

/-- No token goes on with a character that is not plain. -/
theorem goesOn_eq_false {next : Char} (first : Char) (h : Text.isPlain next = false) :
    goesOn first next = false := by
  rw [Bool.eq_false_iff]
  intro hgoes
  rw [goesOn] at hgoes
  have hplain : Text.isPlain next = true := by
    split at hgoes
    · cases hgoes
    · split at hgoes
      · exact isPlain_of_isHexDigit hgoes
      · split at hgoes
        · exact isPlain_of_isDigit hgoes
        · exact isPlain_of_isIdentifierRest hgoes
  rw [h] at hplain
  cases hplain

end Token

/-! ## Texts put together from tokens -/

/-- A text of gaps alone has no tokens. -/
theorem tokens?_eq_some_nil_iff : tokens? cs = some [] ↔ IsGaps cs := by
  rw [isGaps_iff]
  constructor
  · intro h
    rw [tokens?] at h
    split at h
    · next hgap => exact List.dropWhile_eq_nil_iff.mp hgap
    · split at h
      · cases h
      · simp at h
  · intro h
    exact tokens?_eq_nil (List.dropWhile_eq_nil_iff.mpr h)

/-- The tokens of a text are the longest one behind the gap in front and those of the rest. -/
theorem tokens?_eq_some_cons_iff :
    tokens? cs = some (token :: tokens) ↔
      ∃ gap lexeme rest, cs = gap ++ (lexeme ++ rest) ∧ IsGaps gap ∧ token.Spelled lexeme ∧
        Token.Ends lexeme rest ∧ tokens? rest = some tokens := by
  constructor
  · intro h
    rw [tokens?] at h
    split at h
    · cases h
    · next c more hgap =>
        split at h
        · cases h
        · next found after hfirst =>
            obtain ⟨others, hothers, hcons⟩ := Option.map_eq_some_iff.mp h
            cases hcons
            obtain ⟨lexeme, hsplit, hspelled, hends⟩ := Token.first?_eq_some_iff.mp hfirst
            refine ⟨cs.takeWhile isGap, lexeme, after, ?_, ?_, hspelled, hends, hothers⟩
            · rw [← hsplit, ← hgap, List.takeWhile_append_dropWhile]
            · apply isGaps_iff.mpr
              intro d hd
              exact List.mem_takeWhile_imp hd
  · rintro ⟨gap, lexeme, rest, rfl, hgap, hspelled, hends, hrest⟩
    obtain ⟨c, more, rfl⟩ := List.exists_cons_of_ne_nil hspelled.ne_nil
    have hdrop : (gap ++ (c :: more ++ rest)).dropWhile isGap = c :: more ++ rest := by
      rw [List.dropWhile_append_of_pos (isGaps_iff.mp hgap)]
      exact dropWhile_isGap_of_isPlain (hspelled.isPlain c List.mem_cons_self)
    have hfirst : Token.first? ((gap ++ (c :: more ++ rest)).dropWhile isGap) =
        some (token, rest) := by
      rw [hdrop]
      exact Token.first?_of_spelled hspelled hends
    rw [tokens?_eq_of_first? hfirst, hrest]
    rfl

/-- Every token of a text is spelled in it. -/
theorem exists_spelled_of_mem_tokens? (h : tokens? cs = some tokens) (hmem : token ∈ tokens) :
    ∃ lexeme, token.Spelled lexeme := by
  induction tokens generalizing cs with
  | nil => cases hmem
  | cons first others ih =>
      obtain ⟨gap, lexeme, rest, -, -, hspelled, -, hrest⟩ := tokens?_eq_some_cons_iff.mp h
      rcases List.mem_cons.mp hmem with rfl | hmem
      · exact ⟨lexeme, hspelled⟩
      · exact ih hrest hmem

/-- Every identifier token of a text is an identifier. -/
theorem isIdentifier_of_mem_tokens? {name : String} (h : tokens? cs = some tokens)
    (hmem : Token.identifier name ∈ tokens) : isIdentifier name.toList = true := by
  obtain ⟨lexeme, hspelled⟩ := exists_spelled_of_mem_tokens? h hmem
  cases hspelled with
  | identifier hname => rwa [String.toList_ofList]

/-- Every number token of a text is below the bound. -/
theorem value_lt_of_mem_tokens? {value : Nat} (h : tokens? cs = some tokens)
    (hmem : Token.number value ∈ tokens) : value < Token.numberBound := by
  obtain ⟨lexeme, hspelled⟩ := exists_spelled_of_mem_tokens? h hmem
  cases hspelled with
  | number hnumeral hlt => exact hlt

/-- A token ends in front of gaps. -/
theorem Token.ends_of_isGaps (lexeme : List Char) (h : IsGaps rest) : Ends lexeme rest := by
  intro first _ d hd
  apply goesOn_eq_false
  exact isPlain_eq_false_of_isGaps h d (List.mem_of_mem_head? hd)

/-- A token ends in front of a minus sign, with or without gaps before it. -/
theorem Token.ends_of_minus (lexeme : List Char) (h : IsGaps gap) (more : List Char) :
    Ends lexeme (gap ++ '-' :: more) := by
  intro first _ d hd
  cases gap with
  | nil =>
      obtain rfl := Option.mem_some.mp hd
      rw [goesOn]
      split
      · rfl
      · split
        · decide
        · split <;> decide
  | cons c gap =>
      obtain rfl := Option.mem_some.mp hd
      apply goesOn_eq_false
      exact isPlain_eq_false_of_isGaps h c List.mem_cons_self

end Longest

end SpriteTables
