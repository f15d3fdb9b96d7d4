import SpriteTables.Proofs.Steps
import SpriteTables.Record.Reading

/-!
# The length of a record that was read

The first word of a record says how many words there must be, and a reading stops with exactly
that many (`fits_of_record?`). The invariant of a reading is `Reading.Sound`: it never has more
words than expected, and expects what its first word announces. A reading begins sound and stays
so, operand by operand and line by line (`sound_begin`, `sound_take`, `sound_feed`,
`sound_resume`).
-/

set_option autoImplicit false

namespace SpriteTables

/-! ## Records of the announced length -/

theorem Record.expectedLength?_eq_some_iff {count entrySize length : Nat} :
    Record.expectedLength? count entrySize = some length ↔
      length = 1 + count * entrySize ∧ length < sizeBound := by
  rw [Record.expectedLength?]
  split
  · next hlt =>
      constructor
      · intro h
        cases h
        exact ⟨rfl, hlt⟩
      · rintro ⟨rfl, -⟩
        rfl
  · next hge =>
      constructor
      · intro h
        cases h
      · rintro ⟨rfl, hlt⟩
        exact absurd hlt hge

/-- A record's count is not negative and announces as many words as there are, which fits 64 bits.
-/
structure Record.Fits (entrySize : Nat) (record : Record) : Prop where
  header_nonneg : 0 ≤ record.header
  length_eq : record.words.length = 1 + record.header.toNatClampNeg * entrySize
  length_lt : record.words.length < sizeBound

/-- The count of a fitting record announces its length. -/
theorem Record.Fits.expectedLength? {entrySize : Nat} {record : Record}
    (h : record.Fits entrySize) :
    Record.expectedLength? record.header.toNatClampNeg entrySize = some record.words.length :=
  Record.expectedLength?_eq_some_iff.mpr ⟨h.length_eq, h.length_lt⟩

/-! ## Readings -/

namespace Reading

/-- A reading has at most the expected words. It expects one word until there is a first one,
which then announces how many there are. -/
structure Sound (entrySize : Nat) (r : Reading) : Prop where
  count_le : r.count ≤ r.expected
  payload_eq : r.header = none → r.payload = #[]
  expected_of_none : r.header = none → r.expected = 1
  expected_of_some : ∀ header, r.header = some header → 0 ≤ header ∧
    Record.expectedLength? header.toNatClampNeg entrySize = some r.expected

section Sound

variable {entrySize : Nat} {r next : Reading} {width : Width}

theorem count_of_header {header : Int16} (h : r.header = some header) :
    r.count = 1 + r.payload.size := by
  rw [count, h]

/-- A reading begins sound. -/
theorem sound_begin (directive : Directive) : Sound entrySize (begin directive) where
  count_le := Nat.zero_le 1
  payload_eq _ := rfl
  expected_of_none _ := rfl
  expected_of_some _ h := by cases h

/-- A reading that is not complete lacks a word. -/
theorem count_lt_of_record?_eq_none (h : r.Sound entrySize) (hrecord : r.record? = none) :
    r.count < r.expected := by
  cases hheader : r.header with
  | none =>
      rw [count, hheader, h.expected_of_none hheader]
      exact Nat.zero_lt_one
  | some header =>
      rw [record?, hheader] at hrecord
      rw [count, hheader]
      simpa using hrecord

/-- A word that is missing may be added. -/
theorem sound_push (h : r.Sound entrySize) (hlt : r.count < r.expected) {word : Int16}
    (hpush : push entrySize r word = .ok next) : next.Sound entrySize := by
  cases hheader : r.header with
  | some header =>
      have hknown := h.expected_of_some header hheader
      rw [push, hheader] at hpush
      cases hpush
      refine ⟨?_, fun hnone => ?_, fun hnone => ?_, fun _ hsome => ?_⟩
      · rw [count_of_header hheader] at hlt
        rw [count_of_header rfl, Array.size_push]
        exact hlt
      · cases hnone
      · cases hnone
      · cases hsome
        exact hknown
  | none =>
      rw [push, hheader] at hpush
      simp only at hpush
      split at hpush
      · cases hpush
      · next hnonneg =>
          split at hpush
          · cases hpush
          · next expected hexpected =>
              cases hpush
              refine ⟨?_, fun hnone => ?_, fun hnone => ?_, fun _ hsome => ?_⟩
              · obtain ⟨rfl, -⟩ := Record.expectedLength?_eq_some_iff.mp hexpected
                rw [count_of_header rfl, h.payload_eq hheader]
                exact Nat.le_add_right 1 _
              · cases hnone
              · cases hnone
              · cases hsome
                exact ⟨Int16.not_lt.mp hnonneg, hexpected⟩

/-- An operand keeps a reading sound that is not complete. -/
theorem sound_take (h : r.Sound entrySize) (hrecord : r.record? = none) {o : Operand}
    (htake : r.take entrySize width o = .ok next) : next.Sound entrySize := by
  have hlt := count_lt_of_record?_eq_none h hrecord
  -- neither the waiting byte nor the last span takes part in the invariant
  have hmoved : ∀ half last, Sound entrySize { r with half, last } := fun _ _ =>
    ⟨h.count_le, h.payload_eq, h.expected_of_none, h.expected_of_some⟩
  have hpushed : ∀ half last word,
      push entrySize { r with half, last } word = .ok next → next.Sound entrySize :=
    fun half last _ hpush => sound_push (hmoved half last) hlt hpush
  obtain ⟨last, half, header, payload, expected⟩ := r
  cases half with
  | none =>
      cases width with
      | byte =>
          obtain ⟨high, -, hnext⟩ := bind_eq_ok_iff.mp htake
          cases hnext
          exact hmoved _ _
      | word =>
          obtain ⟨word, -, hpush⟩ := bind_eq_ok_iff.mp htake
          exact hpushed _ _ word hpush
  | some high =>
      cases width with
      | byte =>
          obtain ⟨low, -, hpush⟩ := bind_eq_ok_iff.mp htake
          exact hpushed _ _ _ hpush
      | word => cases htake

/-- The record of a sound reading fits. -/
theorem fits_of_record? (h : r.Sound entrySize) {record : Record}
    (hrecord : r.record? = some record) : record.Fits entrySize := by
  cases hheader : r.header with
  | none =>
      rw [record?, hheader] at hrecord
      cases hrecord
  | some header =>
      rw [record?, hheader] at hrecord
      simp only at hrecord
      split at hrecord
      · next hdone =>
          cases hrecord
          obtain ⟨hnonneg, hexpected⟩ := h.expected_of_some header hheader
          -- at least the expected words were read, and never more
          have hlength : r.expected = (Record.words ⟨header, r.payload.toList⟩).length := by
            have hle := h.count_le
            rw [count_of_header hheader] at hle
            rw [Record.words, List.length_cons, Array.length_toList, Nat.add_comm]
            exact Nat.le_antisymm hdone hle
          rw [hlength] at hexpected
          obtain ⟨heq, hlt⟩ := Record.expectedLength?_eq_some_iff.mp hexpected
          exact ⟨hnonneg, heq, hlt⟩
      · cases hrecord

end Sound

end Reading

/-! ## Lines -/

/-- What a line has come to is sound: a reading that goes on, or a fitting record. -/
def Progress.Sound (entrySize : Nat) : Progress → Prop
  | .underway reading => reading.Sound entrySize
  | .complete record => record.Fits entrySize

namespace Reading

section Lines

variable {entrySize : Nat} {r : Reading} {progress : Progress}

/-- The operands of a line keep a reading sound. -/
theorem sound_feed {width : Width} {operands : List Operand} (h : r.Sound entrySize)
    (hfeed : r.feed entrySize width operands = .ok progress) : progress.Sound entrySize := by
  induction operands generalizing r with
  | nil =>
      rw [feed] at hfeed
      split at hfeed
      · next record hrecord =>
          cases hfeed
          exact fits_of_record? h hrecord
      · cases hfeed
        exact h
  | cons o rest ih =>
      rw [feed] at hfeed
      split at hfeed
      · cases hfeed
      · next hrecord =>
          split at hfeed
          · cases hfeed
          · next htake => exact ih (sound_take h hrecord htake) hfeed

/-- A line keeps a reading sound. -/
theorem sound_resume {s : Statement} (h : r.Sound entrySize)
    (hresume : r.resume entrySize s = .ok progress) : progress.Sound entrySize := by
  rw [resume] at hresume
  split at hresume
  · cases hresume
    exact h
  · exact sound_feed h hresume
  · cases hresume

end Lines

end Reading

end SpriteTables
