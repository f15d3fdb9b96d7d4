import Mathlib.Data.List.Basic
import Mathlib.Data.List.Induction
import SpriteTables.Proofs.Record.Alike
import SpriteTables.Proofs.Record.Length

/-!
# What operands spell

A reading takes operands one at a time, with half a word waiting in between. What it comes to can
be said of the operands alone (`spell?`): a word operand spells a word, and two byte operands in a
row spell one together, the high byte first. How many words there must be can be said of the words
alone, since the first one tells (`announced`, `Lacks`).
-/

set_option autoImplicit false

namespace SpriteTables

/-! ## Spelling -/

/-- The words that some operands spell, and the high byte that waits after them. -/
structure Spelling where
  words : List Int16
  waiting : Option HighByte := none
deriving DecidableEq, Repr

/-- What operands spell, each with the width of its directive. A byte is the high one of a
word or, after such a byte, the low one; no word comes between the two. The value of a pair is
that of `Reading.toNat_wordOfBytes`. -/
def spell? : List (Width × Operand) → Option Spelling
  | [] => some ⟨[], none⟩
  | (.word, o) :: rest =>
      o.word.toOption.bind fun word =>
        (spell? rest).map fun s => { s with words := word :: s.words }
  | [(.byte, o)] => o.byte.toOption.map fun byte => ⟨[], some ⟨byte, o.span⟩⟩
  | (.byte, o) :: (.byte, o') :: rest =>
      o.byte.toOption.bind fun high => o'.byte.toOption.bind fun low =>
        (spell? rest).map fun s => { s with words := Reading.wordOfBytes high low :: s.words }
  | (.byte, _) :: (.word, _) :: _ => none

/-- What is spelled with one more operand. -/
def Spelling.add? : Spelling → Width → Operand → Option Spelling
  | ⟨words, none⟩, .word, o => o.word.toOption.map fun word => ⟨words ++ [word], none⟩
  | ⟨_, some _⟩, .word, _ => none
  | ⟨words, none⟩, .byte, o => o.byte.toOption.map fun byte => ⟨words, some ⟨byte, o.span⟩⟩
  | ⟨words, some high⟩, .byte, o =>
      o.byte.toOption.map fun low => ⟨words ++ [Reading.wordOfBytes high.value low], none⟩

section Spelling

variable {width : Width} {o : Operand} {front more : List (Width × Operand)} {s : Spelling}

/-- A word in front changes nothing about what can be added. -/
theorem Spelling.add?_cons (s : Spelling) (word : Int16) (width : Width) (o : Operand) :
    Spelling.add? { s with words := word :: s.words } width o =
      (s.add? width o).map fun s => { s with words := word :: s.words } := by
  obtain ⟨words, waiting⟩ := s
  cases width with
  | word =>
      cases waiting with
      | none => cases h : o.word.toOption <;> simp [add?, h]
      | some high => rfl
  | byte =>
      cases waiting with
      | none => cases h : o.byte.toOption <;> simp [add?, h]
      | some high => cases h : o.byte.toOption <;> simp [add?, h]

/-- One more operand at the end. -/
theorem spell?_concat (front : List (Width × Operand)) (width : Width) (o : Operand) :
    spell? (front ++ [(width, o)]) = (spell? front).bind fun s => s.add? width o := by
  induction front using spell?.induct with
  | case1 =>
      cases width with
      | word => cases h : o.word.toOption <;> simp [spell?, Spelling.add?, h]
      | byte => rfl
  | case2 first rest ih =>
      rw [List.cons_append, spell?, spell?, ih]
      cases first.word.toOption with
      | none => rfl
      | some word => cases spell? rest <;> simp [Spelling.add?_cons]
  | case3 first =>
      cases width with
      | word => cases h : first.byte.toOption <;> simp [spell?, Spelling.add?, h]
      | byte =>
          cases h : first.byte.toOption <;> cases h' : o.byte.toOption <;>
            simp [spell?, Spelling.add?, h, h']
  | case4 first second rest ih =>
      rw [List.cons_append, List.cons_append, spell?, spell?, ih]
      cases first.byte.toOption with
      | none => rfl
      | some high =>
          cases second.byte.toOption with
          | none => rfl
          | some low => cases spell? rest <;> simp [Spelling.add?_cons]
  | case5 first second rest =>
      rw [List.cons_append, List.cons_append, spell?, spell?]
      rfl

/-- One more operand adds to the words or waits. -/
theorem Spelling.words_prefix_of_add? {s' : Spelling} (h : s.add? width o = some s') :
    s.words <+: s'.words := by
  obtain ⟨words, waiting⟩ := s
  cases width with
  | word =>
      cases waiting with
      | none =>
          obtain ⟨word, -, rfl⟩ := Option.map_eq_some_iff.mp h
          exact List.prefix_append _ _
      | some high => cases h
  | byte =>
      cases waiting with
      | none =>
          obtain ⟨byte, -, rfl⟩ := Option.map_eq_some_iff.mp h
          exact List.prefix_refl _
      | some high =>
          obtain ⟨low, -, rfl⟩ := Option.map_eq_some_iff.mp h
          exact List.prefix_append _ _

/-- An operand after which no byte waits completes a word. -/
theorem Spelling.exists_word_of_add? {words : List Int16}
    (h : s.add? width o = some ⟨words, none⟩) : ∃ word, words = s.words ++ [word] := by
  obtain ⟨words', waiting⟩ := s
  cases width with
  | word =>
      cases waiting with
      | none =>
          obtain ⟨word, -, heq⟩ := Option.map_eq_some_iff.mp h
          cases heq
          exact ⟨word, rfl⟩
      | some high => cases h
  | byte =>
      cases waiting with
      | none =>
          obtain ⟨byte, -, heq⟩ := Option.map_eq_some_iff.mp h
          cases heq
      | some high =>
          obtain ⟨low, -, heq⟩ := Option.map_eq_some_iff.mp h
          cases heq
          exact ⟨_, rfl⟩

/-- The operands in front of others spell the words in front. -/
theorem exists_spell?_of_append (h : spell? (front ++ more) = some s) :
    ∃ s', spell? front = some s' ∧ s'.words <+: s.words := by
  induction more using List.reverseRecOn generalizing s with
  | nil =>
      rw [List.append_nil] at h
      exact ⟨s, h, List.prefix_refl _⟩
  | append_singleton more last ih =>
      obtain ⟨width, o⟩ := last
      rw [← List.append_assoc, spell?_concat] at h
      obtain ⟨s₁, hfront, hadd⟩ := Option.bind_eq_some_iff.mp h
      obtain ⟨s₂, hspell, hpart⟩ := ih hfront
      exact ⟨s₂, hspell, hpart.trans (Spelling.words_prefix_of_add? hadd)⟩

end Spelling

/-! ## Operands with the same characters -/

/-- The words of a spelling and the value that waits, wherever it stands. -/
def Spelling.values (s : Spelling) : List Int16 × Option UInt8 :=
  (s.words, s.waiting.map (·.value))

section Alike

variable {front front' : List (Width × Operand)}

theorem toOption_eq_of_alike {α : Type} {x y : Except Diagnostic α} (h : Alike (· = ·) x y) :
    x.toOption = y.toOption := by
  cases h with
  | ok hab => exact congrArg some hab
  | error hcause => rfl

/-- Operands of the same widths and with the same characters spell the same. -/
theorem spell?_alike
    (h : front.map (fun p => (p.1, p.2.chars)) = front'.map fun p => (p.1, p.2.chars)) :
    (spell? front).map Spelling.values = (spell? front').map Spelling.values := by
  have hcons : ∀ (word : Int16) (x y : Option Spelling),
      x.map Spelling.values = y.map Spelling.values →
      (x.map fun s => { s with words := word :: s.words }).map Spelling.values =
        (y.map fun s => { s with words := word :: s.words }).map Spelling.values := by
    intro word x y hsame
    rcases none_or_some_of_map_eq hsame with ⟨rfl, rfl⟩ | ⟨s, s', rfl, rfl, hvalues⟩
    · rfl
    · obtain ⟨hwords, hwaiting⟩ := Prod.mk.inj hvalues
      simp [Spelling.values, hwords, hwaiting]
  induction front using spell?.induct generalizing front' with
  | case1 => rw [List.map_eq_nil_iff.mp h.symm]
  | case2 o rest ih =>
      obtain ⟨⟨_, o'⟩, rest', rfl, heq, hrest⟩ := List.map_eq_cons_iff.mp h.symm
      obtain ⟨rfl, ho⟩ := Prod.mk.inj heq
      rw [spell?, spell?, toOption_eq_of_alike (word_alike ho)]
      cases o.word.toOption with
      | none => rfl
      | some word => exact hcons word _ _ (ih hrest.symm)
  | case3 o =>
      obtain ⟨⟨_, o'⟩, rest', rfl, heq, hrest⟩ := List.map_eq_cons_iff.mp h.symm
      obtain ⟨rfl, ho⟩ := Prod.mk.inj heq
      rw [List.map_eq_nil_iff.mp hrest, spell?, spell?, toOption_eq_of_alike (byte_alike ho)]
      cases o.byte.toOption <;> rfl
  | case4 o p rest ih =>
      obtain ⟨⟨_, o'⟩, others, rfl, heq, hothers⟩ := List.map_eq_cons_iff.mp h.symm
      obtain ⟨rfl, ho⟩ := Prod.mk.inj heq
      obtain ⟨⟨_, p'⟩, rest', rfl, heq, hrest⟩ := List.map_eq_cons_iff.mp hothers
      obtain ⟨rfl, hp⟩ := Prod.mk.inj heq
      rw [spell?, spell?, toOption_eq_of_alike (byte_alike ho),
        toOption_eq_of_alike (byte_alike hp)]
      cases o.byte.toOption with
      | none => rfl
      | some high =>
          cases p.byte.toOption with
          | none => rfl
          | some low => exact hcons _ _ _ (ih hrest.symm)
  | case5 o p rest =>
      obtain ⟨⟨_, o'⟩, others, rfl, heq, hothers⟩ := List.map_eq_cons_iff.mp h.symm
      obtain ⟨rfl, -⟩ := Prod.mk.inj heq
      obtain ⟨⟨_, p'⟩, rest', rfl, heq, -⟩ := List.map_eq_cons_iff.mp hothers
      obtain ⟨rfl, -⟩ := Prod.mk.inj heq
      rfl

/-- Operands with the same characters spell the same words when no byte waits. -/
theorem spell?_eq_iff_of_alike {words : List Int16}
    (h : front.map (fun p => (p.1, p.2.chars)) = front'.map fun p => (p.1, p.2.chars)) :
    spell? front = some ⟨words, none⟩ ↔ spell? front' = some ⟨words, none⟩ := by
  have hvalues : ∀ x : Option Spelling,
      x = some ⟨words, none⟩ ↔ x.map Spelling.values = some (words, none) := by
    intro x
    rcases x with _ | ⟨words', _ | high⟩ <;> simp [Spelling.values]
  rw [hvalues, hvalues, spell?_alike h]

end Alike

/-! ## Complete and incomplete records -/

/-- How many words there must be: one, until the first one tells. -/
def announced (entrySize : Nat) : List Int16 → Nat
  | [] => 1
  | header :: _ => 1 + header.toNatClampNeg * entrySize

/-- The first word, if there is one, is a count whose record fits 64 bits. -/
def Counted (entrySize : Nat) (words : List Int16) : Prop :=
  ∀ header, words.head? = some header →
    0 ≤ header ∧ 1 + header.toNatClampNeg * entrySize < sizeBound

/-- Words are missing: the first one is yet to come, or it announces more. -/
structure Lacks (entrySize : Nat) (words : List Int16) : Prop where
  counted : Counted entrySize words
  length_lt : words.length < announced entrySize words

section Complete

variable {entrySize : Nat} {words words' : List Int16}

/-- Words are missing when there are none. -/
theorem Lacks.nil : Lacks entrySize [] where
  counted _ h := by cases h
  length_lt := Nat.zero_lt_one

/-- Words are missing from the words in front, too. -/
theorem Lacks.of_prefix (h : Lacks entrySize words) (hpart : words' <+: words) :
    Lacks entrySize words' := by
  obtain ⟨more, rfl⟩ := hpart
  cases words' with
  | nil => exact .nil
  | cons header rest =>
      refine ⟨h.counted, Nat.lt_of_le_of_lt ?_ h.length_lt⟩
      rw [List.length_append]
      exact Nat.le_add_right _ _

/-- A record fits when its count is one and announces as many words as there are. -/
theorem fits_iff {record : Record} :
    record.Fits entrySize ↔
      Counted entrySize record.words ∧ record.words.length = announced entrySize record.words := by
  constructor
  · intro h
    refine ⟨?_, h.length_eq⟩
    rintro _ ⟨⟩
    exact ⟨h.header_nonneg, h.length_eq ▸ h.length_lt⟩
  · rintro ⟨hcounted, hlength⟩
    obtain ⟨hnonneg, hlt⟩ := hcounted record.header rfl
    exact ⟨hnonneg, hlength, hlength ▸ hlt⟩

/-- Words are missing from a record without its last one. -/
theorem lacks_of_fits {record : Record} {last : Int16} (h : record.Fits entrySize)
    (hwords : record.words = words ++ [last]) : Lacks entrySize words := by
  obtain ⟨hcounted, hlength⟩ := fits_iff.mp h
  rw [hwords] at hcounted hlength
  cases words with
  | nil => exact .nil
  | cons header rest =>
      refine ⟨hcounted, ?_⟩
      rw [List.length_append] at hlength
      exact Nat.lt_of_succ_le (Nat.le_of_eq hlength)

/-- Words are missing until the last operand of a record is read. -/
theorem exists_lacks_of_concat {front : List (Width × Operand)} {width : Width} {o : Operand}
    {record : Record} (hspell : spell? (front ++ [(width, o)]) = some ⟨record.words, none⟩)
    (hfits : record.Fits entrySize) : ∃ s, spell? front = some s ∧ Lacks entrySize s.words := by
  rw [spell?_concat] at hspell
  obtain ⟨s, hfront, hadd⟩ := Option.bind_eq_some_iff.mp hspell
  obtain ⟨word, hwords⟩ := Spelling.exists_word_of_add? hadd
  exact ⟨s, hfront, lacks_of_fits hfits hwords⟩

/-- Words are missing before the operands that complete a record. -/
theorem exists_lacks_of_complete {front now : List (Width × Operand)} {record : Record}
    (hne : now ≠ []) (hspell : spell? (front ++ now) = some ⟨record.words, none⟩)
    (hfits : record.Fits entrySize) : ∃ s, spell? front = some s ∧ Lacks entrySize s.words := by
  obtain ⟨init, ⟨width, o⟩, rfl⟩ := (List.eq_nil_or_concat' now).resolve_left hne
  rw [← List.append_assoc] at hspell
  obtain ⟨s, hinit, hlacks⟩ := exists_lacks_of_concat hspell hfits
  obtain ⟨s', hfront, hpart⟩ := exists_spell?_of_append hinit
  exact ⟨s', hfront, hlacks.of_prefix hpart⟩

end Complete

end SpriteTables
