import Mathlib.Data.List.FinRange
import Mathlib.Data.List.Perm.Basic
import SpriteTables.Record

/-!
# What a fingerprint tells apart

Every word of a record adds something to its fingerprint by exclusive or: the word itself,
extended by its sign, on an even position, and the same sixteen bits higher on an odd one
(`summand`, `foldWords_eq`). Order does not matter to exclusive or. So a fingerprint depends on
the words at the even positions and on those at the odd ones, but not on their order among
themselves. One word alone is told from any other, and so is a word that moves to a position of
the other parity (`fingerprint_tells_changes`).
-/

set_option autoImplicit false

namespace SpriteTables.Record

/-! ## Summands -/

/-- What a word adds to a summary: the word, or the word shifted by sixteen bits. -/
def summand (high : Bool) (word : Int16) : Int32 :=
  if high then word.toInt32 <<< 16 else word.toInt32

/-- A word stands high after an even number of others when the first one does, and after an
odd number when the first one does not. -/
def standsHigh (high : Bool) (position : Nat) : Bool :=
  high ^^ decide (position % 2 = 1)

/-- What the words of a list add, in their order. -/
def summands (high : Bool) (words : List Int16) : List Int32 :=
  words.mapIdx fun position word => summand (standsHigh high position) word

/-- The exclusive or of some summands. -/
def xorAll (parts : List Int32) : Int32 :=
  parts.foldr (· ^^^ ·) 0

section Summands

variable {high : Bool} {word other : Int16} {words : List Int16} {position i j : Nat}

@[simp] theorem xorAll_nil : xorAll [] = 0 :=
  rfl

@[simp] theorem xorAll_cons (part : Int32) (parts : List Int32) :
    xorAll (part :: parts) = part ^^^ xorAll parts :=
  rfl

theorem standsHigh_zero (high : Bool) : standsHigh high 0 = high :=
  Bool.xor_false high

/-- One word further on, high and low are exchanged. -/
theorem standsHigh_succ (high : Bool) (position : Nat) :
    standsHigh high (position + 1) = standsHigh (!high) position := by
  rw [standsHigh, standsHigh]
  rcases Nat.mod_two_eq_zero_or_one position with heven | hodd
  · simp [Nat.add_mod, heven]
  · simp [Nat.add_mod, hodd]

/-- Where a word stands depends on the parity of its position only. -/
theorem standsHigh_eq_iff :
    standsHigh high i = standsHigh high j ↔ i % 2 = j % 2 := by
  rw [standsHigh, standsHigh, Bool.xor_right_inj, decide_eq_decide]
  omega

theorem summands_cons (high : Bool) (word : Int16) (words : List Int16) :
    summands high (word :: words) = summand high word :: summands (!high) words := by
  rw [summands, List.mapIdx_cons, standsHigh_zero, summands]
  simp only [standsHigh_succ]

/-- Joining words to a summary adds the exclusive or of what they add. -/
theorem foldWords_eq (high : Bool) (summary : Int32) (words : List Int16) :
    foldWords high summary words = summary ^^^ xorAll (summands high words) := by
  induction words generalizing high summary with
  | nil => rw [foldWords, summands, List.mapIdx_nil, xorAll_nil, Int32.xor_zero]
  | cons word rest ih =>
      rw [foldWords, ih, summands_cons, xorAll_cons, ← Int32.xor_assoc]
      rfl

/-! ## A word from what it adds -/

/-- A word that stands high leaves the low half clear and fills the high one. -/
theorem getLsbD_summand_high (word : Int16) {bit : Nat} (hbit : bit < 16) :
    (summand true word).toBitVec.getLsbD bit = false ∧
      (summand true word).toBitVec.getLsbD (16 + bit) = word.toBitVec.getLsbD bit := by
  have hbits : (summand true word).toBitVec = word.toBitVec.signExtend 32 <<< 16 := by
    simp [summand]
  have hinside : 16 + bit < 32 ∧ bit < 32 := by omega
  rw [hbits, BitVec.getLsbD_shiftLeft, BitVec.getLsbD_shiftLeft]
  constructor
  · simp [hbit]
  · rw [Nat.add_sub_cancel_left, BitVec.getLsbD_signExtend]
    simp [hbit, hinside]

/-- The low half of a summand is the word if that stands low, and clear if it stands high. -/
theorem toInt16_summand (high : Bool) (word : Int16) :
    (summand high word).toInt16 = if high then 0 else word := by
  cases high with
  | false => simp [summand]
  | true =>
      apply Int16.toBitVec_inj.mp
      apply BitVec.eq_of_getLsbD_eq
      intro bit hbit
      obtain ⟨hclear, -⟩ := getLsbD_summand_high word hbit
      rw [Int32.toBitVec_toInt16, BitVec.signExtend_eq_setWidth_of_le _ (by decide),
        BitVec.getLsbD_setWidth, hclear]
      simp

/-- A word is known from what it adds. -/
theorem summand_inj (h : summand high word = summand high other) : word = other := by
  cases high with
  | false =>
      have hlow := congrArg Int32.toInt16 h
      rwa [toInt16_summand, toInt16_summand] at hlow
  | true =>
      apply Int16.toBitVec_inj.mp
      apply BitVec.eq_of_getLsbD_eq
      intro bit hbit
      rw [← (getLsbD_summand_high word hbit).2, ← (getLsbD_summand_high other hbit).2, h]

/-- A word is known from what it adds on an even and on an odd position together. -/
theorem eq_of_summands_eq
    (h : summand high word ^^^ summand (!high) word =
      summand high other ^^^ summand (!high) other) :
    word = other := by
  -- on one of the two positions the word leaves the low half clear
  have hlow := congrArg Int32.toInt16 h
  simp only [Int32.toInt16_xor, toInt16_summand] at hlow
  cases high with
  | false => simpa using hlow
  | true => simpa using hlow

end Summands

/-! ## Changed lists -/

section Changes

variable {high : Bool} {words : List Int16} {parts parts' : List Int32} {i j : Nat}

/-- The order of summands does not matter. -/
theorem xorAll_perm (h : parts.Perm parts') : xorAll parts = xorAll parts' := by
  have : LeftCommutative fun a b : Int32 => a ^^^ b := ⟨by intro a b c; ac_rfl⟩
  exact h.foldr_eq 0

/-- Two parts make no difference together exactly when they are the same. -/
theorem xor_xor_eq_self_iff {sum part part' : Int32} :
    sum ^^^ (part ^^^ part') = sum ↔ part = part' := by
  have hzero := Int32.xor_right_inj (a := part ^^^ part') (b := 0) sum
  rwa [Int32.xor_zero, Int32.xor_eq_zero_iff] at hzero

/-- A summand in the place of another one. -/
theorem xorAll_set (hi : i < parts.length) (part : Int32) :
    xorAll (parts.set i part) = xorAll parts ^^^ (parts[i] ^^^ part) := by
  induction parts generalizing i with
  | nil => cases hi
  | cons first rest ih =>
      cases i with
      | zero =>
          -- the first summand occurs twice on the right
          have hcancel : first ^^^ xorAll rest ^^^ (first ^^^ part) =
              (first ^^^ first) ^^^ (part ^^^ xorAll rest) := by ac_rfl
          simp [hcancel]
      | succ i =>
          have hrest : i < rest.length := Nat.lt_of_succ_lt_succ hi
          simp [ih hrest, Int32.xor_assoc]

/-- A word in the place of another one, and what it adds in the place of what that one
added. -/
theorem xorAll_summands_set (hi : i < words.length) (word : Int16) :
    xorAll (summands high (words.set i word)) = xorAll (summands high words) ^^^
      (summand (standsHigh high i) words[i] ^^^ summand (standsHigh high i) word) := by
  have hset : summands high (words.set i word) =
      (summands high words).set i (summand (standsHigh high i) word) := by
    rw [summands, summands, List.mapIdx_set]
  have hlength : i < (summands high words).length := by
    rw [summands, List.length_mapIdx]
    exact hi
  rw [hset, xorAll_set hlength]
  simp [summands]

/-- The words of a list with those at two positions exchanged. -/
def exchange (words : List Int16) (i j : Fin words.length) : List Int16 :=
  (words.set i words[j]).set j words[i]

/-- Exchanging two words exchanges what they add. -/
theorem xorAll_summands_exchange (high : Bool) {i j : Fin words.length} (hne : i ≠ j) :
    xorAll (summands high (exchange words i j)) = xorAll (summands high words) ^^^
      ((summand (standsHigh high i) words[i] ^^^ summand (standsHigh high j) words[i]) ^^^
        (summand (standsHigh high i) words[j] ^^^ summand (standsHigh high j) words[j])) := by
  have hj : (j : Nat) < (words.set i words[j]).length := by
    rw [List.length_set]
    exact j.isLt
  have hother : (words.set i words[j])[(j : Nat)] = words[j] := by
    apply List.getElem_set_of_ne
    exact fun hij => hne (Fin.ext hij)
  rw [exchange, xorAll_summands_set hj, xorAll_summands_set i.isLt, hother]
  simp only [Fin.getElem_fin]
  ac_rfl

/-- The words of a list in another order. -/
def rearrange (words : List Int16) (order : Equiv.Perm (Fin words.length)) : List Int16 :=
  List.ofFn fun i => words[order i]

/-- An order that takes every word from a position of the same parity rearranges what the
words add. -/
theorem summands_rearrange_perm (high : Bool) {order : Equiv.Perm (Fin words.length)}
    (hparity : ∀ i, (order i : Nat) % 2 = i % 2) :
    (summands high (rearrange words order)).Perm (summands high words) := by
  let added : Fin words.length → Int32 := fun i => summand (standsHigh high i) words[i]
  have hbefore : summands high words = List.ofFn added := by
    apply List.ext_getElem
    · simp [summands]
    · intro i hi hi'
      simp [summands, added]
  have hafter : summands high (rearrange words order) = List.ofFn (added ∘ order) := by
    apply List.ext_getElem
    · simp [summands, rearrange]
    · intro i hi hi'
      have hi : i < words.length := by simpa using hi'
      have hstands : standsHigh high (order ⟨i, hi⟩) = standsHigh high i :=
        standsHigh_eq_iff.mpr (hparity ⟨i, hi⟩)
      simp [summands, rearrange, added, hstands]
  rw [hbefore, hafter]
  exact order.ofFn_comp_perm added

/-- To exchange two words is one of these orders. -/
theorem rearrange_swap (words : List Int16) (i j : Fin words.length) :
    rearrange words (Equiv.swap i j) = exchange words i j := by
  apply List.ext_getElem
  · simp [rearrange, exchange]
  · intro k hk hk'
    have hk : k < words.length := by simpa [rearrange] using hk
    simp only [rearrange, exchange, List.getElem_ofFn, List.getElem_set, Equiv.swap_apply_def,
      Fin.ext_iff, Fin.getElem_fin]
    grind

end Changes

/-! ## Fingerprints -/

/-- Two records have one fingerprint when their words add the same. -/
theorem fingerprint_eq_iff {record other : Record} : other.fingerprint = record.fingerprint ↔
    xorAll (summands false other.words) = xorAll (summands false record.words) := by
  rw [fingerprint, fingerprint, foldWords_eq, foldWords_eq, Int32.zero_xor, Int32.zero_xor]
  constructor
  · intro h
    exact Int32.toBitVec_inj.mp (congrArg UInt32.toBitVec h)
  · intro h
    rw [h]

/-- A list of as many words as a record has is one, too, and its fingerprint is the same when
its words add the same. -/
theorem exists_ofWords? (record : Record) {words : List Int16}
    (hlength : words.length = record.words.length) :
    ∃ other, ofWords? words = some other ∧ (other.fingerprint = record.fingerprint ↔
      xorAll (summands false words) = xorAll (summands false record.words)) := by
  cases words with
  | nil => cases hlength
  | cons header payload => exact ⟨⟨header, payload⟩, rfl, fingerprint_eq_iff⟩

/-- A fingerprint tells one word from another in its place, and a record from the same one
with two different words exchanged between an even and an odd position. It does not tell an
order of the words from another one when every word stays on a position of the same parity. -/
theorem fingerprint_tells_changes (record : Record) :
    (∀ (i : Fin record.words.length) (word : Int16), word ≠ record.words[i] →
      ∃ other, ofWords? (record.words.set i word) = some other ∧
        other.fingerprint ≠ record.fingerprint) ∧
    (∀ i j : Fin record.words.length, (i : Nat) % 2 ≠ j % 2 →
      record.words[i] ≠ record.words[j] →
      ∃ other, ofWords? (exchange record.words i j) = some other ∧
        other.fingerprint ≠ record.fingerprint) ∧
    (∀ order : Equiv.Perm (Fin record.words.length), (∀ i, (order i : Nat) % 2 = i % 2) →
      ∃ other, ofWords? (rearrange record.words order) = some other ∧
        other.fingerprint = record.fingerprint) ∧
    ∀ i j : Fin record.words.length, (i : Nat) % 2 = j % 2 →
      ∃ other, ofWords? (exchange record.words i j) = some other ∧
        other.fingerprint = record.fingerprint := by
  have hkept : ∀ order : Equiv.Perm (Fin record.words.length),
      (∀ i, (order i : Nat) % 2 = i % 2) →
      ∃ other, ofWords? (rearrange record.words order) = some other ∧
        other.fingerprint = record.fingerprint := by
    intro order hparity
    have hlength : (rearrange record.words order).length = record.words.length := by
      simp [rearrange]
    obtain ⟨other, hother, hiff⟩ := exists_ofWords? record hlength
    exact ⟨other, hother, hiff.mpr (xorAll_perm (summands_rearrange_perm false hparity))⟩
  refine ⟨?_, ?_, hkept, ?_⟩
  · intro i word hword
    obtain ⟨other, hother, hiff⟩ := exists_ofWords? record List.length_set
    refine ⟨other, hother, ?_⟩
    rw [ne_eq, hiff, xorAll_summands_set i.isLt, xor_xor_eq_self_iff]
    intro hsame
    exact hword (summand_inj hsame).symm
  · intro i j hparity hwords
    have hlength : (exchange record.words i j).length = record.words.length := by
      simp [exchange]
    obtain ⟨other, hother, hiff⟩ := exists_ofWords? record hlength
    refine ⟨other, hother, ?_⟩
    have hne : i ≠ j := fun hij => hparity (by rw [hij])
    -- one of the two positions stands high and the other one low
    have hstands : standsHigh false j = !standsHigh false i := by
      apply Bool.eq_not_of_ne
      exact fun hsame => hparity (standsHigh_eq_iff.mp hsame).symm
    rw [ne_eq, hiff, xorAll_summands_exchange false hne, xor_xor_eq_self_iff, hstands]
    intro hsame
    exact hwords (eq_of_summands_eq hsame)
  · intro i j hparity
    rw [← rearrange_swap]
    apply hkept
    intro k
    rw [Equiv.swap_apply_def]
    split
    · next hk => rw [hk, hparity]
    · split
      · next hk => rw [hk, hparity]
      · rfl

/-- A negative word is told from the greatest one also where it stands high. -/
example : (⟨0, [-1]⟩ : Record).fingerprint ≠ (⟨0, [0x7FFF]⟩ : Record).fingerprint := by
  decide

end SpriteTables.Record
