import SpriteTables.Proofs.Guarded.Record
import SpriteTables.Proofs.Record.Spelling

/-!
# Operands one after the other

A reading that has read some operands holds what they spell. The next operand is read or
refused, and what happens is determined by the operands alone; so it is on a whole line, whose
operands are read, complete the record, or break it off at one of them.

## What this module delivers

- `wordsOf` and soundness: a sound reading is incomplete while words are missing.
- `Reading.Spells`: a reading has come to what some operands spell.
- `Refuses`, `takes_take`: one operand is read or refused. `exists_take_of_spell?` and
  `exists_take_of_refuses` say from the operands alone which.
- `Reading.feedSized`: the operands of a line, each with its width.
- `Breaks`, `feeds_feedSized`: what becomes of them. `exists_feedSized_append`,
  `feedSized_of_complete` and `exists_feedSized_of_breaks` say from the operands alone which.
-/

set_option autoImplicit false

namespace SpriteTables

open Text (Span)
open Guarded (wordsOf)

/-! ## Readings -/

section Readings

variable {entrySize : Nat} {r next : Reading} {word : Int16}

theorem wordsOf_of_none (h : r.Sound entrySize) (hheader : r.header = none) : wordsOf r = [] := by
  rw [wordsOf, hheader, h.payload_eq hheader]
  rfl

theorem wordsOf_of_some {header : Int16} (hheader : r.header = some header) :
    wordsOf r = header :: r.payload.toList := by
  rw [wordsOf, hheader]
  rfl

theorem length_wordsOf (h : r.Sound entrySize) : (wordsOf r).length = r.count := by
  cases hheader : r.header with
  | none => rw [wordsOf_of_none h hheader, Reading.count, hheader, List.length_nil]
  | some header =>
      rw [wordsOf_of_some hheader, Reading.count_of_header hheader, List.length_cons,
        Array.length_toList, Nat.add_comm]

/-- The first word of a sound reading is a count. -/
theorem counted_wordsOf (h : r.Sound entrySize) : Counted entrySize (wordsOf r) := by
  intro header hhead
  cases hheader : r.header with
  | none =>
      rw [wordsOf_of_none h hheader] at hhead
      cases hhead
  | some first =>
      rw [wordsOf_of_some hheader] at hhead
      cases hhead
      obtain ⟨hnonneg, hexpected⟩ := h.expected_of_some _ hheader
      obtain ⟨heq, hlt⟩ := Record.expectedLength?_eq_some_iff.mp hexpected
      exact ⟨hnonneg, heq ▸ hlt⟩

/-- A sound reading expects what its words announce. -/
theorem expected_eq_announced (h : r.Sound entrySize) :
    r.expected = announced entrySize (wordsOf r) := by
  cases hheader : r.header with
  | none =>
      rw [wordsOf_of_none h hheader, h.expected_of_none hheader]
      rfl
  | some header =>
      rw [wordsOf_of_some hheader]
      exact (Record.expectedLength?_eq_some_iff.mp (h.expected_of_some _ hheader).2).1

/-- A sound reading is incomplete while words are missing. -/
theorem record?_eq_none_iff (h : r.Sound entrySize) :
    r.record? = none ↔ Lacks entrySize (wordsOf r) := by
  constructor
  · intro hrecord
    refine ⟨counted_wordsOf h, ?_⟩
    rw [length_wordsOf h, ← expected_eq_announced h]
    exact Reading.count_lt_of_record?_eq_none h hrecord
  · intro hlacks
    have hlt := hlacks.length_lt
    rw [length_wordsOf h, ← expected_eq_announced h] at hlt
    cases hheader : r.header with
    | none => rw [Reading.record?, hheader]
    | some header =>
        rw [Reading.count_of_header hheader] at hlt
        rw [Reading.record?, hheader]
        exact if_neg (Nat.not_le.mpr hlt)

theorem words_of_record? {record : Record} (h : r.record? = some record) :
    record.words = wordsOf r := by
  rw [Reading.record?] at h
  split at h
  · cases h
  · next hheader =>
      split at h
      · cases h
        exact (wordsOf_of_some hheader).symm
      · cases h

/-- A word is added, unless it is the first one and no count. -/
theorem push_outcome (h : r.Sound entrySize) (word : Int16) :
    (∃ next, r.push entrySize word = .ok next ∧ wordsOf next = wordsOf r ++ [word] ∧
      next.half = r.half ∧ next.last = r.last) ∨
    ∃ d, r.push entrySize word = .error d ∧ wordsOf r = [] ∧ ¬ Counted entrySize [word] ∧
      d.cause = .invalidRecordCount word ∧ d.primary = r.last := by
  cases hheader : r.header with
  | some header =>
      refine Or.inl ⟨{ r with payload := r.payload.push word }, ?_, ?_, rfl, rfl⟩
      · rw [Reading.push, hheader]
      · rw [wordsOf, wordsOf, Array.toList_push, List.append_assoc]
  | none =>
      have hnil := wordsOf_of_none h hheader
      rw [Reading.push, hheader]
      simp only
      split
      · next hneg =>
          refine Or.inr ⟨_, rfl, hnil, fun hcounted => ?_, rfl, rfl⟩
          exact absurd (hcounted word rfl).1 (Int16.not_le.mpr hneg)
      · next hnonneg =>
          split
          · next hexpected =>
              refine Or.inr ⟨_, rfl, hnil, fun hcounted => ?_, rfl, rfl⟩
              have hfits := Record.expectedLength?_eq_some_iff.mpr ⟨rfl, (hcounted word rfl).2⟩
              rw [hexpected] at hfits
              cases hfits
          · next expected hexpected =>
              refine Or.inl ⟨_, rfl, ?_, rfl, rfl⟩
              rw [hnil, wordsOf, h.payload_eq hheader]
              rfl

end Readings

/-- A reading has read some operands of a record that began at a place: it is sound, it holds what
they spell, it is at the last of them, and a byte waits only while words are missing. -/
structure Reading.Spells (entrySize : Nat) (begun : Span) (front : List (Width × Operand))
    (r : Reading) : Prop where
  sound : r.Sound entrySize
  spell?_eq : spell? front = some ⟨wordsOf r, r.half⟩
  last_eq : r.last = (front.getLast?.map (·.2.span)).getD begun
  incomplete : ∀ high, r.half = some high → r.record? = none

/-- After some operands of an incomplete record one more is refused, for a cause and at a place: a
word comes where a byte waits for its partner, the operand is no number of its width, or it
completes a first word that is no count. -/
inductive Refuses (entrySize : Nat) (front : List (Width × Operand)) :
    Width → Operand → Cause × Span → Prop where
  | unbalanced {o : Operand} {words : List Int16} {high : HighByte}
      (hspell : spell? front = some ⟨words, some high⟩) :
      Refuses entrySize front .word o (.unbalancedByteOperands, high.span)
  | byte {o : Operand} {d : Diagnostic} (hbyte : o.byte = .error d) :
      Refuses entrySize front .byte o (d.cause, d.primary)
  | word {o : Operand} {words : List Int16} {d : Diagnostic}
      (hspell : spell? front = some ⟨words, none⟩) (hword : o.word = .error d) :
      Refuses entrySize front .word o (d.cause, d.primary)
  | count {width : Width} {o : Operand} {header : Int16}
      (hspell : spell? (front ++ [(width, o)]) = some ⟨[header], none⟩)
      (hcount : ¬ Counted entrySize [header]) :
      Refuses entrySize front width o (.invalidRecordCount header, o.span)

/-- What one more operand can do to a reading that has read some. -/
def Reading.Takes (entrySize : Nat) (begun : Span) (front : List (Width × Operand))
    (width : Width) (o : Operand) : Except Diagnostic Reading → Prop
  | .ok next => next.Spells entrySize begun (front ++ [(width, o)])
  | .error d => Refuses entrySize front width o (d.cause, d.primary)

section Operands

variable {entrySize : Nat} {begun : Span} {front : List (Width × Operand)} {r next : Reading}
  {width : Width} {o : Operand} {fault fault' : Cause × Span}

/-- A directive begins a reading that has read nothing. -/
theorem spells_begin (directive : Directive) :
    (Reading.begin directive).Spells entrySize directive.span [] :=
  ⟨Reading.sound_begin directive, rfl, rfl, fun _ h => by cases h⟩

theorem getLast?_concat_span (front : List (Width × Operand)) (width : Width) (o : Operand)
    (begun : Span) :
    o.span = ((front ++ [(width, o)]).getLast?.map (·.2.span)).getD begun := by
  rw [List.getLast?_concat]
  rfl

theorem take_word_of_waiting {high : HighByte} (hhalf : r.half = some high) :
    r.take entrySize .word o = .error (((Reading.unbalanced high).relate o.span
      .wordOperand).advise .wordCompletesNoPair) := by
  simp only [Reading.take, hhalf]

theorem take_word_of_error {d : Diagnostic} (hhalf : r.half = none) (hword : o.word = .error d) :
    r.take entrySize .word o = .error d := by
  simp only [Reading.take, hhalf, hword]
  rfl

theorem take_byte_of_error {d : Diagnostic} (hbyte : o.byte = .error d) :
    r.take entrySize .byte o = .error d := by
  cases hhalf : r.half <;> simp only [Reading.take, hhalf, hbyte] <;> rfl

/-- An operand that completes a word adds it, or the word is no count. -/
theorem takes_push (h : r.Spells entrySize begun front) (hrecord : r.record? = none)
    (word : Int16)
    (hspell : spell? (front ++ [(width, o)]) = some ⟨wordsOf r ++ [word], none⟩)
    (htake : r.take entrySize width o =
      Reading.push entrySize { r with half := none, last := o.span } word) :
    Reading.Takes entrySize begun front width o (r.take entrySize width o) := by
  have hmoved : Reading.Sound entrySize { r with half := none, last := o.span } :=
    ⟨h.sound.count_le, h.sound.payload_eq, h.sound.expected_of_none, h.sound.expected_of_some⟩
  rcases push_outcome hmoved word with
    ⟨next, hpush, hwords, hhalf, hlast⟩ | ⟨d, hpush, hnil, hcount, hcause, hprimary⟩
  · have hnext := htake.trans hpush
    rw [hnext]
    refine ⟨Reading.sound_take h.sound hrecord hnext, ?_, ?_, ?_⟩
    · rw [hspell, hwords, hhalf]
      rfl
    · rw [hlast]
      exact getLast?_concat_span front width o begun
    · intro high hhigh
      rw [hhalf] at hhigh
      cases hhigh
  · rw [htake.trans hpush]
    show Refuses entrySize front width o (d.cause, d.primary)
    have hfirst : wordsOf r = [] := hnil
    rw [hfirst] at hspell
    rw [hcause, hprimary]
    exact .count hspell hcount

/-- Of an incomplete record one more operand is read, or refused. -/
theorem takes_take (h : r.Spells entrySize begun front) (hrecord : r.record? = none)
    (width : Width) (o : Operand) :
    Reading.Takes entrySize begun front width o (r.take entrySize width o) := by
  have hspell := h.spell?_eq
  have hconcat := spell?_concat front width o
  rw [hspell, Option.bind_some] at hconcat
  cases width with
  | word =>
      cases hhalf : r.half with
      | some high =>
          rw [hhalf] at hspell
          rw [take_word_of_waiting hhalf]
          exact Refuses.unbalanced hspell
      | none =>
          rw [hhalf] at hspell hconcat
          cases hword : o.word with
          | error d =>
              rw [take_word_of_error hhalf hword]
              exact Refuses.word hspell hword
          | ok word =>
              apply takes_push h hrecord word
              · rw [hconcat, Spelling.add?, hword]
                rfl
              · simp only [Reading.take, hhalf, hword]
                rfl
  | byte =>
      cases hbyte : o.byte with
      | error d =>
          rw [take_byte_of_error hbyte]
          exact Refuses.byte hbyte
      | ok byte =>
          cases hhalf : r.half with
          | none =>
              rw [hhalf] at hconcat
              have htake : r.take entrySize .byte o =
                  .ok { r with half := some ⟨byte, o.span⟩, last := o.span } := by
                simp only [Reading.take, hhalf, hbyte]
                rfl
              rw [htake]
              refine ⟨Reading.sound_take h.sound hrecord htake, ?_, ?_, fun _ _ => hrecord⟩
              · rw [hconcat, Spelling.add?, hbyte]
                rfl
              · exact getLast?_concat_span front .byte o begun
          | some high =>
              rw [hhalf] at hconcat
              apply takes_push h hrecord (Reading.wordOfBytes high.value byte)
              · rw [hconcat, Spelling.add?, hbyte]
                rfl
              · simp only [Reading.take, hhalf, hbyte]
                rfl

/-- An operand that is refused spells nothing with those before it, or a first word that is no
count. -/
theorem Refuses.spell?_eq (h : Refuses entrySize front width o fault) :
    spell? (front ++ [(width, o)]) = none ∨
    ∃ header, spell? (front ++ [(width, o)]) = some ⟨[header], none⟩ ∧
      ¬ Counted entrySize [header] ∧ fault = (.invalidRecordCount header, o.span) := by
  cases h with
  | count hfirst hcount => exact Or.inr ⟨_, hfirst, hcount, rfl⟩
  | unbalanced hfront =>
      rw [spell?_concat, hfront]
      exact Or.inl rfl
  | word hfront hword =>
      rw [spell?_concat, hfront, Option.bind_some, Spelling.add?, hword]
      exact Or.inl rfl
  | byte hbyte =>
      rw [spell?_concat]
      rcases spell? front with _ | ⟨words, _ | high⟩
      · exact Or.inl rfl
      · rw [Option.bind_some, Spelling.add?, hbyte]
        exact Or.inl rfl
      · rw [Option.bind_some, Spelling.add?, hbyte]
        exact Or.inl rfl

/-- An operand is read when it spells something with those before it, if the first word is a
count. -/
theorem exists_take_of_spell? (h : r.Spells entrySize begun front) (hrecord : r.record? = none)
    {s : Spelling} (hspell : spell? (front ++ [(width, o)]) = some s)
    (hcounted : Counted entrySize s.words) :
    ∃ next, r.take entrySize width o = .ok next ∧
      next.Spells entrySize begun (front ++ [(width, o)]) := by
  have htakes := takes_take h hrecord width o
  cases htake : r.take entrySize width o with
  | ok next =>
      rw [htake] at htakes
      exact ⟨next, rfl, htakes⟩
  | error d =>
      rw [htake] at htakes
      rcases Refuses.spell?_eq htakes with hnone | ⟨header, hsome, hcount, -⟩
      · rw [hnone] at hspell
        cases hspell
      · rw [hsome] at hspell
        cases hspell
        exact absurd hcounted hcount

/-- An operand that is refused stops the reading, for that cause and at that place. -/
theorem exists_take_of_refuses (h : r.Spells entrySize begun front) (hrecord : r.record? = none)
    (hrefuses : Refuses entrySize front width o fault) :
    ∃ d, r.take entrySize width o = .error d ∧ fault = (d.cause, d.primary) := by
  have htakes := takes_take h hrecord width o
  cases hrefuses with
  | unbalanced hfront =>
      rw [h.spell?_eq] at hfront
      cases hhalf : r.half with
      | none =>
          rw [hhalf] at hfront
          cases hfront
      | some high =>
          rw [hhalf] at hfront
          cases hfront
          exact ⟨_, take_word_of_waiting hhalf, rfl⟩
  | byte hbyte => exact ⟨_, take_byte_of_error hbyte, rfl⟩
  | word hfront hword =>
      rw [h.spell?_eq] at hfront
      cases hhalf : r.half with
      | none => exact ⟨_, take_word_of_error hhalf hword, rfl⟩
      | some high =>
          rw [hhalf] at hfront
          cases hfront
  | count hfirst hcount =>
      cases htake : r.take entrySize width o with
      | ok next =>
          rw [htake] at htakes
          have hspells : next.Spells entrySize begun (front ++ [(width, o)]) := htakes
          have hspell := hspells.spell?_eq
          rw [hfirst] at hspell
          have hwords : _ = wordsOf next := congrArg Spelling.words (Option.some.inj hspell)
          have hcounted := counted_wordsOf hspells.sound
          rw [← hwords] at hcounted
          exact absurd hcounted hcount
      | error d =>
          rw [htake] at htakes
          rcases Refuses.spell?_eq htakes with hnone | ⟨header, hsome, -, hfault⟩
          · rw [hnone] at hfirst
            cases hfirst
          · rw [hfirst] at hsome
            cases hsome
            exact ⟨d, rfl, hfault.symm⟩

end Operands

/-! ## Operands of one line -/

/-- Reads the operands of one line, each with its width. -/
def Reading.feedSized (entrySize : Nat) :
    Reading → List (Width × Operand) → Except Diagnostic Progress
  | r, [] =>
      match r.record? with
      | some record => .ok (.complete record)
      | none => .ok (.underway r)
  | r, (width, o) :: rest =>
      match r.record? with
      | some _ => .error (r.leftOver o (rest.map (·.2)))
      | none =>
          match r.take entrySize width o with
          | .error d => .error d
          | .ok next => feedSized entrySize next rest

/-- The operands of a directive all have its width. -/
theorem feed_eq_feedSized (entrySize : Nat) (width : Width) (r : Reading)
    (operands : List Operand) :
    r.feed entrySize width operands =
      r.feedSized entrySize (operands.map fun o => (width, o)) := by
  induction operands generalizing r with
  | nil => rfl
  | cons o rest ih =>
      have hback : (rest.map fun o => (width, o)).map (·.2) = rest := by
        rw [List.map_map]
        exact List.map_id _
      rw [List.map_cons, Reading.feed, Reading.feedSized, hback]
      cases r.record? with
      | some record => rfl
      | none =>
          cases r.take entrySize width o with
          | error d => rfl
          | ok next => exact ih next

/-- The place from the first to the last of some operands. -/
def spanFrom (o : Operand) (more : List (Width × Operand)) : Span :=
  ⟨o.span.start, ((more.getLast?.map (·.2)).getD o).span.stop⟩

theorem leftOver_facts (r : Reading) (o : Operand) (more : List (Width × Operand)) :
    (r.leftOver o (more.map (·.2))).cause = .trailingOperands (more.length + 1) ∧
      (r.leftOver o (more.map (·.2))).primary = spanFrom o more := by
  constructor
  · show Cause.trailingOperands ((more.map (·.2)).length + 1) = _
    rw [List.length_map]
  · show Span.mk _ ((o :: more.map (·.2)).getLast _).span.stop = _
    rw [List.getLast_eq_getLastD, List.getLastD_eq_getLast?, List.getLast?_map]
    rfl

/-- Some operands were read of a record. On the line of others it is broken off, for a cause and
at a place: one of these is refused, or the record ends before it. -/
inductive Breaks (entrySize : Nat) (front : List (Width × Operand)) :
    List (Width × Operand) → Cause × Span → Prop where
  | refused {done more : List (Width × Operand)} {width : Width} {o : Operand} {s : Spelling}
      {fault : Cause × Span} (hspell : spell? (front ++ done) = some s)
      (hlacks : Lacks entrySize s.words)
      (hrefuses : Refuses entrySize (front ++ done) width o fault) :
      Breaks entrySize front (done ++ (width, o) :: more) fault
  | leftOver {done more : List (Width × Operand)} {width : Width} {o : Operand} {record : Record}
      (hdone : done ≠ []) (hspell : spell? (front ++ done) = some ⟨record.words, none⟩)
      (hfits : record.Fits entrySize) :
      Breaks entrySize front (done ++ (width, o) :: more)
        (.trailingOperands (more.length + 1), spanFrom o more)

/-- What the operands of a line can do to a reading that has read some. -/
def Reading.Feeds (entrySize : Nat) (begun : Span) (front now : List (Width × Operand)) :
    Except Diagnostic Progress → Prop
  | .ok (.underway next) => next.Spells entrySize begun (front ++ now) ∧ next.record? = none
  | .ok (.complete record) => now ≠ [] ∧
      spell? (front ++ now) = some ⟨record.words, none⟩ ∧ record.Fits entrySize
  | .error d => Breaks entrySize front now (d.cause, d.primary)

section Lines

variable {entrySize : Nat} {begun : Span} {front now done more : List (Width × Operand)}
  {r next : Reading} {width : Width} {o : Operand} {s : Spelling} {fault : Cause × Span}
  {record : Record}

/-- A reading that completes a record holds its words, and no byte waits. -/
theorem Reading.Spells.of_record? (h : r.Spells entrySize begun front)
    (hrecord : r.record? = some record) :
    spell? front = some ⟨record.words, none⟩ ∧ record.Fits entrySize := by
  refine ⟨?_, Reading.fits_of_record? h.sound hrecord⟩
  have hhalf : r.half = none := by
    cases hhalf : r.half with
    | none => rfl
    | some high =>
        rw [h.incomplete high hhalf] at hrecord
        cases hrecord
  rw [h.spell?_eq, words_of_record? hrecord, hhalf]

/-- Words are missing from a reading when they are missing from what its operands spell. -/
theorem Reading.Spells.record?_eq_none (h : r.Spells entrySize begun front)
    (hspell : spell? front = some s) (hlacks : Lacks entrySize s.words) : r.record? = none := by
  rw [h.spell?_eq] at hspell
  cases hspell
  exact (record?_eq_none_iff h.sound).mpr hlacks

/-- A reading that holds a fitting record completes it. -/
theorem Reading.Spells.record?_eq_some (h : r.Spells entrySize begun front)
    (hspell : spell? front = some ⟨record.words, none⟩) (hfits : record.Fits entrySize) :
    r.record? = some record := by
  rw [h.spell?_eq] at hspell
  have hwords : wordsOf r = record.words := congrArg Spelling.words (Option.some.inj hspell)
  cases hrecord : r.record? with
  | none =>
      have hlt := ((record?_eq_none_iff h.sound).mp hrecord).length_lt
      rw [hwords, ← (fits_iff.mp hfits).2] at hlt
      exact absurd hlt (Nat.lt_irrefl _)
  | some found =>
      obtain ⟨header, payload⟩ := record
      obtain ⟨header', payload'⟩ := found
      cases (words_of_record? hrecord).trans hwords
      rfl

theorem Breaks.cons (h : Breaks entrySize (front ++ [(width, o)]) now fault) :
    Breaks entrySize front ((width, o) :: now) fault := by
  cases h with
  | refused hspell hlacks hrefuses =>
      rw [List.append_assoc] at hspell hrefuses
      rw [← List.cons_append]
      exact .refused hspell hlacks hrefuses
  | leftOver hdone hspell hfits =>
      rw [List.append_assoc] at hspell
      rw [← List.cons_append]
      exact .leftOver (List.cons_ne_nil _ _) hspell hfits

/-- The operands of a line are read, complete the record or break it off. -/
theorem feeds_feedSized (h : r.Spells entrySize begun front) (hrecord : r.record? = none)
    (now : List (Width × Operand)) :
    Reading.Feeds entrySize begun front now (r.feedSized entrySize now) := by
  induction now generalizing r front with
  | nil =>
      rw [Reading.feedSized, hrecord]
      refine ⟨?_, hrecord⟩
      rw [List.append_nil]
      exact h
  | cons first rest ih =>
      obtain ⟨width, o⟩ := first
      have htakes := takes_take h hrecord width o
      rw [Reading.feedSized, hrecord]
      simp only
      cases htake : r.take entrySize width o with
      | error d =>
          rw [htake] at htakes
          have hlacks := (record?_eq_none_iff h.sound).mp hrecord
          have hspell := h.spell?_eq
          have hrefuses : Refuses entrySize front width o (d.cause, d.primary) := htakes
          rw [← List.append_nil front] at hspell hrefuses
          exact Breaks.refused hspell hlacks hrefuses
      | ok next =>
          rw [htake] at htakes
          have hnext : next.Spells entrySize begun (front ++ [(width, o)]) := htakes
          simp only
          cases hdone : next.record? with
          | none =>
              have hrest := ih hnext hdone
              rcases hfeed : next.feedSized entrySize rest with d | reading | record
              · rw [hfeed] at hrest
                exact Breaks.cons hrest
              · rw [hfeed, Reading.Feeds, List.append_assoc] at hrest
                exact hrest
              · rw [hfeed, Reading.Feeds, List.append_assoc] at hrest
                exact ⟨List.cons_ne_nil _ _, hrest.2⟩
          | some record =>
              obtain ⟨hspell, hfits⟩ := hnext.of_record? hdone
              cases rest with
              | nil =>
                  rw [Reading.feedSized, hdone]
                  exact ⟨List.cons_ne_nil _ _, hspell, hfits⟩
              | cons second others =>
                  obtain ⟨width', o'⟩ := second
                  rw [Reading.feedSized, hdone]
                  obtain ⟨hcause, hprimary⟩ := leftOver_facts next o' others
                  show Breaks _ _ _ ((next.leftOver o' (others.map (·.2))).cause,
                    (next.leftOver o' (others.map (·.2))).primary)
                  rw [hcause, hprimary]
                  exact Breaks.leftOver (List.cons_ne_nil (width, o) []) hspell hfits

/-- Operands that leave words missing are read, whatever follows them on their line. -/
theorem exists_feedSized_append (h : r.Spells entrySize begun front)
    (hspell : spell? (front ++ now) = some s) (hlacks : Lacks entrySize s.words) :
    ∃ next : Reading, next.Spells entrySize begun (front ++ now) ∧ next.record? = none ∧
      ∀ more, r.feedSized entrySize (now ++ more) = next.feedSized entrySize more := by
  induction now generalizing r front with
  | nil =>
      rw [List.append_nil] at hspell ⊢
      exact ⟨r, h, h.record?_eq_none hspell hlacks, fun _ => rfl⟩
  | cons first rest ih =>
      obtain ⟨width, o⟩ := first
      obtain ⟨s₀, hfront, hpart₀⟩ := exists_spell?_of_append hspell
      have hrecord := h.record?_eq_none hfront (hlacks.of_prefix hpart₀)
      rw [List.append_cons] at hspell ⊢
      obtain ⟨s₁, hspell₁, hpart₁⟩ := exists_spell?_of_append hspell
      obtain ⟨next, htake, hnext⟩ :=
        exists_take_of_spell? h hrecord hspell₁ (hlacks.of_prefix hpart₁).counted
      obtain ⟨last, hlast, hnone, hrest⟩ := ih hnext hspell
      refine ⟨last, hlast, hnone, fun more => ?_⟩
      rw [List.cons_append, Reading.feedSized, hrecord]
      simp only [htake]
      exact hrest more

/-- Operands that complete a record are read up to the last one. -/
theorem exists_feedSized_complete (h : r.Spells entrySize begun front) (hdone : done ≠ [])
    (hspell : spell? (front ++ done) = some ⟨record.words, none⟩) (hfits : record.Fits entrySize) :
    ∃ next : Reading, next.record? = some record ∧
      ∀ more, r.feedSized entrySize (done ++ more) = next.feedSized entrySize more := by
  obtain ⟨init, ⟨width, o⟩, rfl⟩ := (List.eq_nil_or_concat' done).resolve_left hdone
  rw [← List.append_assoc] at hspell
  obtain ⟨s, hinit, hlacks⟩ := exists_lacks_of_concat hspell hfits
  obtain ⟨before, hbefore, hnone, hfeed⟩ := exists_feedSized_append h hinit hlacks
  obtain ⟨next, htake, hnext⟩ :=
    exists_take_of_spell? hbefore hnone hspell (fits_iff.mp hfits).1
  refine ⟨next, hnext.record?_eq_some hspell hfits, fun more => ?_⟩
  rw [List.append_assoc, hfeed, List.singleton_append, Reading.feedSized, hnone]
  simp only [htake]

/-- The operands of a line complete a record that ends with them. -/
theorem feedSized_of_complete (h : r.Spells entrySize begun front) (hnow : now ≠ [])
    (hspell : spell? (front ++ now) = some ⟨record.words, none⟩) (hfits : record.Fits entrySize) :
    r.feedSized entrySize now = .ok (.complete record) := by
  obtain ⟨next, hrecord, hfeed⟩ := exists_feedSized_complete h hnow hspell hfits
  have hnil := hfeed []
  rw [List.append_nil] at hnil
  rw [hnil, Reading.feedSized, hrecord]

/-- A line on which a record is broken off stops the reading, for that cause and at that
place. -/
theorem exists_feedSized_of_breaks (h : r.Spells entrySize begun front)
    (hbreaks : Breaks entrySize front now fault) :
    ∃ d, r.feedSized entrySize now = .error d ∧ fault = (d.cause, d.primary) := by
  cases hbreaks with
  | refused hspell hlacks hrefuses =>
      obtain ⟨next, hnext, hnone, hfeed⟩ := exists_feedSized_append h hspell hlacks
      obtain ⟨d, htake, hfault⟩ := exists_take_of_refuses hnext hnone hrefuses
      refine ⟨d, ?_, hfault⟩
      rw [hfeed, Reading.feedSized, hnone]
      simp only [htake]
  | @leftOver done more width o record hdone hspell hfits =>
      obtain ⟨next, hrecord, hfeed⟩ := exists_feedSized_complete h hdone hspell hfits
      obtain ⟨hcause, hprimary⟩ := leftOver_facts next o more
      refine ⟨next.leftOver o (more.map (·.2)), ?_, by rw [hcause, hprimary]⟩
      rw [hfeed, Reading.feedSized, hrecord]

end Lines

end SpriteTables
