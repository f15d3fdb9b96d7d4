import SpriteTables.Proofs.Statement.Alike
import SpriteTables.Record.Reading

/-!
# Readings that hold the same words

Two readings of a record that have come to the same words, and wait for a partner of the same byte
(`Reading.Alike`), go on alike with operands that have the same characters. They complete the same
record, or fail for the same cause (`feed_alike`, `resume_alike`).
-/

set_option autoImplicit false

namespace SpriteTables

/-! ## Operands -/

section Operands

variable {o o' : Operand}

theorem bounded_alike (h : o.chars = o'.chars) (width : Width) :
    Alike (· = ·) (o.bounded width) (o'.bounded width) := by
  have hliteral : o.literal? = o'.literal? := by rw [Operand.literal?, Operand.literal?, h]
  have hcause : o.malformedLiteral.cause = o'.malformedLiteral.cause :=
    congrArg Cause.malformedLiteral (congrArg String.ofList h)
  rw [Operand.bounded, Operand.bounded, hliteral]
  cases o'.literal? with
  | none => exact .error hcause
  | some value =>
      simp only
      split
      · exact .ok rfl
      · exact .error hcause

theorem byte_alike (h : o.chars = o'.chars) : Alike (· = ·) o.byte o'.byte := by
  apply (bounded_alike h .byte).map
  intro value value' hvalue
  exact congrArg UInt8.ofInt hvalue

theorem word_alike (h : o.chars = o'.chars) : Alike (· = ·) o.word o'.word := by
  apply (bounded_alike h .word).map
  intro value value' hvalue
  exact congrArg Int16.ofInt hvalue

end Operands

/-! ## Readings -/

/-- Two readings have come to the same words, and to the same byte that waits for its partner. -/
structure Reading.Alike (r r' : Reading) : Prop where
  half_eq : r.half.map (·.value) = r'.half.map (·.value)
  header_eq : r.header = r'.header
  payload_eq : r.payload = r'.payload
  expected_eq : r.expected = r'.expected

/-- After a line two readings both need more words and have come to the same, or both have
completed one record. -/
inductive Progress.Alike : Progress → Progress → Prop where
  | underway {r r' : Reading} (h : r.Alike r') : Alike (.underway r) (.underway r')
  | complete (record : Record) : Alike (.complete record) (.complete record)

section Readings

variable {entrySize : Nat} {width : Width} {r r' : Reading} {o o' : Operand}
  {rest rest' : List Operand} {s s' : Statement}

theorem Reading.begin_alike (directive directive' : Directive) :
    (Reading.begin directive).Alike (Reading.begin directive') :=
  ⟨rfl, rfl, rfl, rfl⟩

/-- Readings that are alike have read the same number of words. -/
theorem Reading.Alike.count_eq (h : r.Alike r') : r.count = r'.count := by
  rw [count, count, h.header_eq, h.payload_eq]

/-- Readings that are alike are complete together, with the same record. -/
theorem Reading.Alike.record?_eq (h : r.Alike r') : r.record? = r'.record? := by
  rw [record?, record?, h.header_eq, h.payload_eq, h.expected_eq]

/-- A byte waits in neither of two readings that are alike, or the same one in both. -/
theorem Reading.Alike.half_cases (h : r.Alike r') :
    (r.half = none ∧ r'.half = none) ∨
    ∃ high high', r.half = some high ∧ r'.half = some high' ∧ high.value = high'.value :=
  none_or_some_of_map_eq h.half_eq

theorem Reading.Alike.cause_truncated_eq (h : r.Alike r') :
    r.truncated.cause = r'.truncated.cause := by
  show Cause.truncatedRecord _ _ = Cause.truncatedRecord _ _
  rw [h.expected_eq, h.count_eq]

/-- Readings that are alike are cut off for the same cause. -/
theorem Reading.Alike.cause_cutOff_eq (h : r.Alike r') : r.cutOff.cause = r'.cutOff.cause := by
  rcases h.half_cases with ⟨hr, hr'⟩ | ⟨high, high', hr, hr', -⟩
  · rw [cutOff, cutOff, hr, hr']
    exact h.cause_truncated_eq
  · rw [cutOff, cutOff, hr, hr']
    rfl

/-- Readings that are alike are interrupted for the same cause. -/
theorem Reading.Alike.cause_interrupted_eq (h : r.Alike r') (line line' : Text.Span) :
    (r.interrupted line).cause = (r'.interrupted line').cause := by
  rcases h.half_cases with ⟨hr, hr'⟩ | ⟨high, high', hr, hr', -⟩
  · rw [interrupted, interrupted, hr, hr']
    exact h.cause_truncated_eq
  · rw [interrupted, interrupted, hr, hr']
    rfl

theorem push_alike (h : r.Alike r') (word : Int16) :
    Alike Reading.Alike (r.push entrySize word) (r'.push entrySize word) := by
  rw [Reading.push, Reading.push, h.header_eq]
  cases r'.header with
  | some header =>
      apply Alike.ok
      exact ⟨h.half_eq, rfl, congrArg (·.push word) h.payload_eq, h.expected_eq⟩
  | none =>
      simp only
      split
      · exact .error rfl
      · cases Record.expectedLength? word.toNatClampNeg entrySize with
        | none => exact .error rfl
        | some expected => exact .ok ⟨h.half_eq, rfl, h.payload_eq, rfl⟩

/-- Readings that are alike take operands with the same characters alike. -/
theorem take_alike (h : r.Alike r') (ho : o.chars = o'.chars) :
    Alike Reading.Alike (r.take entrySize width o) (r'.take entrySize width o') := by
  rcases h.half_cases with ⟨hr, hr'⟩ | ⟨high, high', hr, hr', hvalue⟩
  · cases width with
    | byte =>
        simp only [Reading.take, hr, hr']
        apply (byte_alike ho).bind
        rintro byte - rfl
        exact .ok ⟨rfl, h.header_eq, h.payload_eq, h.expected_eq⟩
    | word =>
        simp only [Reading.take, hr, hr']
        apply (word_alike ho).bind
        rintro word - rfl
        apply push_alike
        exact ⟨rfl, h.header_eq, h.payload_eq, h.expected_eq⟩
  · cases width with
    | byte =>
        simp only [Reading.take, hr, hr', hvalue]
        apply (byte_alike ho).bind
        rintro byte - rfl
        apply push_alike
        exact ⟨rfl, h.header_eq, h.payload_eq, h.expected_eq⟩
    | word =>
        simp only [Reading.take, hr, hr']
        exact .error rfl

/-- Readings that are alike go on alike with the operands of a line. -/
theorem feed_alike (h : r.Alike r') (hrest : rest.map (·.chars) = rest'.map (·.chars)) :
    Alike Progress.Alike (r.feed entrySize width rest) (r'.feed entrySize width rest') := by
  induction rest generalizing r r' rest' with
  | nil =>
      obtain rfl := List.map_eq_nil_iff.mp hrest.symm
      rw [Reading.feed, Reading.feed, h.record?_eq]
      cases r'.record? with
      | none => exact .ok (.underway h)
      | some record => exact .ok (.complete record)
  | cons o rest ih =>
      obtain ⟨o', rest', rfl, ho, hothers⟩ := List.map_eq_cons_iff.mp hrest.symm
      rw [Reading.feed, Reading.feed, h.record?_eq]
      cases r'.record? with
      | some record =>
          have hlength : rest'.length = rest.length := by simpa using congrArg List.length hothers
          apply Alike.error
          show Cause.trailingOperands _ = Cause.trailingOperands _
          rw [hlength]
      | none =>
          have htaken : Alike Reading.Alike (r.take entrySize width o)
              (r'.take entrySize width o') := take_alike h ho.symm
          rcases htaken.outcomes with
            ⟨next, next', hnext, hnext', hsame⟩ | ⟨e, e', he, he', hcause⟩
          · simp only [hnext, hnext']
            exact ih hsame hothers.symm
          · simp only [he, he']
            exact .error hcause

/-- Readings that are alike go on alike with lines that say the same. -/
theorem resume_alike (h : r.Alike r') (hs : s.Alike s') :
    Alike Progress.Alike (r.resume entrySize s) (r'.resume entrySize s') := by
  have hinterrupted : Alike Progress.Alike (.error (r.interrupted s.line.span))
      (.error (r'.interrupted s'.line.span)) :=
    .error (h.cause_interrupted_eq _ _)
  obtain ⟨line, label, body⟩ := s
  obtain ⟨line', label', body'⟩ := s'
  obtain ⟨hlabel, hbody⟩ := hs
  rcases none_or_some_of_map_eq hlabel with ⟨rfl, rfl⟩ | ⟨name, name', rfl, rfl, -⟩
  · cases hbody with
    | empty => exact .ok (.underway h)
    | sentinel => exact hinterrupted
    | @directive directive directive' hwidth hoperands =>
        simp only [Reading.resume, hwidth]
        exact feed_alike h hoperands
  · exact hinterrupted

end Readings

end SpriteTables
