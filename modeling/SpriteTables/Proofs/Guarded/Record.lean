import SpriteTables.Proofs.Guarded.Statement
import SpriteTables.Proofs.Operand.Spelling
import SpriteTables.Proofs.Record.Length

/-!
# Records, with their words in one list

A record is read into one list of words, of which the first is looked up to learn how many there
must be, and a record is made of the list at the end. This module reads records that way, with a
checked look-up, a checked negation of literals and a check that there is a word at all. No
operands make a sound reading fault (`feed_eq`, `resume_eq`).
-/

set_option autoImplicit false

namespace SpriteTables.Guarded

open Token (numberBound)

/-! ## Numbers -/

/-- The number that an operand denotes, negated after a minus sign. -/
def literal? (o : Operand) : Checked (Option Int) :=
  match tokens? o.chars with
  | some [.minus, .number value] => do
      let negative ← negate value
      return some negative
  | _ => .ok o.literal?

/-- The number that an operand denotes, within the range of a width. -/
def bounded (width : Width) (o : Operand) : Step Int := do
  match ← literal? o with
  | none => throwThe Diagnostic o.malformedLiteral
  | some value =>
      if width.least ≤ value ∧ value ≤ width.greatest then return value
      else throwThe Diagnostic (o.malformedLiteral.advise (.operandRange width))

/-- The operand as a byte. -/
def byte (o : Operand) : Step UInt8 := do
  let value ← bounded .byte o
  return UInt8.ofInt value

/-- The operand as a word. -/
def word (o : Operand) : Step Int16 := do
  let value ← bounded .word o
  return Int16.ofInt value

section Numbers

/-- No literal is too great to be negated. -/
theorem literal?_eq (o : Operand) : literal? o = .ok o.literal? := by
  rw [literal?]
  split
  · next value htokens =>
      have hlt : value < numberBound := value_lt_of_mem_tokens? htokens (by simp)
      rw [Operand.literal?, htokens, negate_eq hlt]
      rfl
  · rfl

theorem bounded_eq (width : Width) (o : Operand) :
    (bounded width o).run = .ok (o.bounded width) := by
  rw [bounded, run_lift_bind_eq (literal?_eq o), Operand.bounded]
  cases o.literal? with
  | none => rfl
  | some value =>
      simp only
      split <;> rfl

theorem byte_eq (o : Operand) : (byte o).run = .ok o.byte :=
  run_map_eq UInt8.ofInt (bounded_eq .byte o)

theorem word_eq (o : Operand) : (word o).run = .ok o.word :=
  run_map_eq Int16.ofInt (bounded_eq .word o)

end Numbers

/-! ## Words -/

/-- All words read so far. -/
def wordsOf (r : Reading) : List Int16 :=
  r.header.toList ++ r.payload.toList

/-- Adds a word. When there was none the first of all words is the count. -/
def push (entrySize : Nat) (r : Reading) (word : Int16) : Step Reading :=
  match r.header with
  | some _ => return { r with payload := r.payload.push word }
  | none => do
      let count ← (index (wordsOf r ++ [word]) 0 : Checked Int16)
      ofResult (r.push entrySize count)

/-- The record of all words, once there are enough of them. -/
def record? (r : Reading) : Checked (Option Record) :=
  if (wordsOf r).length < r.expected then .ok none
  else
    match Record.ofWords? (wordsOf r) with
    | some record => .ok (some record)
    | none => .error .noHeader

/-- Reads one operand of a directive. -/
def take (entrySize : Nat) (width : Width) (r : Reading) (o : Operand) : Step Reading :=
  match width, r.half with
  | .byte, none => do
      let high ← byte o
      return { r with half := some ⟨high, o.span⟩, last := o.span }
  | .byte, some high => do
      let low ← byte o
      push entrySize { r with half := none, last := o.span } (Reading.wordOfBytes high.value low)
  | .word, some high =>
      throwThe Diagnostic
        (((Reading.unbalanced high).relate o.span .wordOperand).advise .wordCompletesNoPair)
  | .word, none => do
      let value ← word o
      push entrySize { r with last := o.span } value

/-- Reads the operands of one line. -/
def feed (entrySize : Nat) (width : Width) : Reading → List Operand → Step Progress
  | r, [] => do
      match ← record? r with
      | some record => return .complete record
      | none => return .underway r
  | r, o :: rest => do
      match ← record? r with
      | some _ => throwThe Diagnostic (r.leftOver o rest)
      | none => do
          let next ← take entrySize width r o
          feed entrySize width next rest

/-- Goes on with the next line. -/
def resume (entrySize : Nat) (r : Reading) (s : Statement) : Step Progress :=
  match s.label, s.body with
  | none, .empty => return .underway r
  | none, .directive directive => feed entrySize directive.width r directive.operands
  | _, _ => throwThe Diagnostic (r.interrupted s.line.span)

section Words

variable {entrySize : Nat} {width : Width} {r : Reading}

/-- The first of all words is the one that was added when there was none. -/
theorem push_eq (h : r.header = none → r.payload = #[]) (word : Int16) :
    (push entrySize r word).run = .ok (r.push entrySize word) := by
  cases hheader : r.header with
  | some header =>
      simp only [push, Reading.push, hheader]
      rfl
  | none =>
      have hfirst : (wordsOf r ++ [word])[0]? = some word := by
        simp [wordsOf, hheader, h hheader]
      simp only [push, hheader]
      rw [run_lift_bind_eq (index_eq hfirst)]
      rfl

/-- Once there are enough words there is a first one. -/
theorem record?_eq (h : r.Sound entrySize) : record? r = .ok r.record? := by
  rw [record?, Reading.record?]
  cases hheader : r.header with
  | none =>
      have hwords : wordsOf r = [] := by simp [wordsOf, hheader, h.payload_eq hheader]
      rw [hwords, h.expected_of_none hheader]
      rfl
  | some header =>
      have hwords : wordsOf r = header :: r.payload.toList := by simp [wordsOf, hheader]
      have hlength : (wordsOf r).length = 1 + r.payload.size := by
        rw [hwords, List.length_cons, Array.length_toList, Nat.add_comm]
      simp only [hlength]
      split
      · next hlt => rw [if_neg (Nat.not_le.mpr hlt)]
      · next hge =>
          rw [if_pos (Nat.not_lt.mp hge), hwords]
          rfl

theorem take_eq (h : r.Sound entrySize) (o : Operand) :
    (take entrySize width r o).run = .ok (r.take entrySize width o) := by
  have hpushed : ∀ half last word, (push entrySize { r with half, last } word).run =
      .ok (Reading.push entrySize { r with half, last } word) := by
    intro half last word
    apply push_eq
    exact h.payload_eq
  obtain ⟨last, half, header, payload, expected⟩ := r
  cases half with
  | none =>
      cases width with
      | byte => exact run_bind_eq (byte_eq o) fun high _ => rfl
      | word => exact run_bind_eq (word_eq o) fun value _ => hpushed _ _ value
  | some high =>
      cases width with
      | byte => exact run_bind_eq (byte_eq o) fun low _ => hpushed _ _ _
      | word => rfl

/-- No operands make a sound reading fault. -/
theorem feed_eq (h : r.Sound entrySize) (operands : List Operand) :
    (feed entrySize width r operands).run = .ok (r.feed entrySize width operands) := by
  induction operands generalizing r with
  | nil =>
      rw [feed, run_lift_bind_eq (record?_eq h), Reading.feed]
      cases r.record? <;> rfl
  | cons o rest ih =>
      rw [feed, run_lift_bind_eq (record?_eq h), Reading.feed]
      cases hrecord : r.record? with
      | some record => rfl
      | none =>
          refine (run_bind_eq (take_eq h o) fun next htake =>
            ih (Reading.sound_take h hrecord htake)).trans ?_
          cases r.take entrySize width o <;> rfl

/-- No line makes a sound reading fault. -/
theorem resume_eq (h : r.Sound entrySize) (s : Statement) :
    (resume entrySize r s).run = .ok (r.resume entrySize s) := by
  obtain ⟨line, label, body⟩ := s
  cases label with
  | some label => rfl
  | none =>
      cases body with
      | empty => rfl
      | sentinel => rfl
      | directive directive => exact feed_eq h directive.operands

end Words

end SpriteTables.Guarded
