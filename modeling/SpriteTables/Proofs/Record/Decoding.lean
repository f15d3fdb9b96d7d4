import SpriteTables.Proofs.Artifact.Stepwise
import SpriteTables.Proofs.Record.Operands

/-!
# Records and the operands they are read from

A record begins at a directive and goes on over the lines below it. Reading it goes through the
lines and their operands together; what it comes to can be said without the reader. The
operands are collected in order from the directive and from the lines below that hold operands
or nothing, and the words that they spell are the record, provided that the last of these
operands completes it and is the last one on its line.

## What this module delivers

- `readRecord`: the record that begins at a directive, and the lines below it.
- `sizedOn?`, `sizedOver?`, `onLast`: the operands of a line and of several, and those on the
  last line.
- `StopsAt`: what ends a record early.
- `Ends`, `faultOf_readRecord_eq_iff`: every way in which a record can end, from the lines
  alone.
- `conclude_run_of_record`: reading an artifact reads its records this way.
- `readRecord_decodes`: the records that are read, and that it does not matter how their
  operands are broken over lines.
-/

set_option autoImplicit false

namespace SpriteTables

open Text (Span Line linesOf)
open Guarded (wordsOf)

/-! ## Reading a record to its end -/

/-- Goes on with a record over the lines below, and gives the lines after it. -/
def Progress.finish (entrySize : Nat) :
    Progress → List Line → Except Diagnostic (Record × List Line)
  | .complete record, lines => .ok (record, lines)
  | .underway r, [] => .error r.cutOff
  | .underway r, line :: rest =>
      match Statement.ofLine line with
      | .error d => .error d
      | .ok s =>
          match r.resume entrySize s with
          | .error d => .error d
          | .ok progress => progress.finish entrySize rest

/-- Reads the record that begins at a directive, and gives the lines after it. -/
def readRecord (entrySize : Nat) (directive : Directive) (lines : List Line) :
    Except Diagnostic (Record × List Line) :=
  match (Reading.begin directive).feed entrySize directive.width directive.operands with
  | .error d => .error d
  | .ok progress => progress.finish entrySize lines

/-! ## Operands over lines -/

/-- The operands of a directive, each with the directive's width. -/
def Directive.sized (directive : Directive) : List (Width × Operand) :=
  directive.operands.map fun o => (directive.width, o)

/-- The operands of a line on which a record can go on: one with neither a label nor a body,
or one with a directive and no label. -/
def sizedOn? (line : Line) : Option (List (Width × Operand)) :=
  match Statement.ofLine line with
  | .error _ => none
  | .ok s =>
      match s.label, s.body with
      | none, .empty => some []
      | none, .directive directive => some directive.sized
      | _, _ => none

/-- The operands of several lines over which a record can go on, in order. -/
def sizedOver? : List Line → Option (List (Width × Operand))
  | [] => some []
  | line :: rest => (sizedOn? line).bind fun now => (sizedOver? rest).map fun more => now ++ more

/-- The operands on the last of some lines below a directive, or those of the directive. -/
def onLast (now : List (Width × Operand)) (lines : List Line) : List (Width × Operand) :=
  match lines.getLast? with
  | none => now
  | some line => (sizedOn? line).getD []

/-- A record cannot go on: the text ends, a label stands on the next line, or it is the line
that ends the artifact. -/
def StopsAt (lines : List Line) : Prop :=
  lines = [] ∨ ∃ line rest s, lines = line :: rest ∧ Statement.ofLine line = .ok s ∧
    (s.label ≠ none ∨ s.body = .sentinel)

section Lines

variable {line : Line} {lines taken rest : List Line} {s : Statement}
  {now now' sized : List (Width × Operand)}

theorem sizedOver?_cons_iff :
    sizedOver? (line :: rest) = some sized ↔
      ∃ now more, sizedOn? line = some now ∧ sizedOver? rest = some more ∧ sized = now ++ more := by
  rw [sizedOver?, Option.bind_eq_some_iff]
  simp only [Option.map_eq_some_iff]
  constructor
  · rintro ⟨now, hnow, more, hmore, rfl⟩
    exact ⟨now, more, hnow, hmore, rfl⟩
  · rintro ⟨now, more, hnow, hmore, rfl⟩
    exact ⟨now, hnow, more, hmore, rfl⟩

theorem sizedOver?_concat_iff :
    sizedOver? (taken ++ [line]) = some sized ↔
      ∃ more now, sizedOver? taken = some more ∧ sizedOn? line = some now ∧
        sized = more ++ now := by
  induction taken generalizing sized with
  | nil =>
      rw [List.nil_append, sizedOver?_cons_iff]
      constructor
      · rintro ⟨now, more, hnow, hmore, rfl⟩
        cases hmore
        exact ⟨[], now, rfl, hnow, List.append_nil _⟩
      · rintro ⟨more, now, hmore, hnow, rfl⟩
        cases hmore
        exact ⟨now, [], hnow, rfl, (List.append_nil _).symm⟩
  | cons first rest ih =>
      rw [List.cons_append, sizedOver?_cons_iff]
      simp only [ih, sizedOver?_cons_iff]
      constructor
      · rintro ⟨first, _, hfirst, ⟨more, now, hmore, hnow, rfl⟩, rfl⟩
        exact ⟨first ++ more, now, ⟨first, more, hfirst, hmore, rfl⟩, hnow,
          (List.append_assoc _ _ _).symm⟩
      · rintro ⟨_, now, ⟨first, more, hfirst, hmore, rfl⟩, hnow, rfl⟩
        exact ⟨first, more ++ now, hfirst, ⟨more, now, hmore, hnow, rfl⟩, List.append_assoc _ _ _⟩

theorem onLast_nil (now : List (Width × Operand)) : onLast now [] = now :=
  rfl

theorem onLast_concat (now : List (Width × Operand)) (hline : sizedOn? line = some now') :
    onLast now (taken ++ [line]) = now' := by
  rw [onLast, List.getLast?_concat]
  simp only [hline, Option.getD_some]

/-- The last line below one more line is the last one below, or this line. -/
theorem onLast_cons (now : List (Width × Operand)) (hline : sizedOn? line = some now')
    (lines : List Line) : onLast now (line :: lines) = onLast now' lines := by
  rcases List.eq_nil_or_concat' lines with rfl | ⟨init, last, rfl⟩
  · rw [onLast, List.getLast?_singleton, onLast_nil]
    simp only [hline, Option.getD_some]
  · rw [onLast, onLast, ← List.cons_append, List.getLast?_concat, List.getLast?_concat]

/-- The operands on the last line come last. -/
theorem exists_eq_append_onLast (front now : List (Width × Operand))
    (h : sizedOver? taken = some sized) :
    ∃ before, front ++ now ++ sized = before ++ onLast now taken := by
  rcases List.eq_nil_or_concat' taken with rfl | ⟨init, last, rfl⟩
  · cases h
    exact ⟨front, List.append_nil _⟩
  · obtain ⟨more, now', hmore, hnow, rfl⟩ := sizedOver?_concat_iff.mp h
    rw [onLast_concat now hnow]
    exact ⟨front ++ now ++ more, (List.append_assoc _ _ _).symm⟩

/-- A record cannot go on with a line that is read but holds no operands for it. -/
theorem stopsAt_of_sizedOn?_eq_none (hstatement : Statement.ofLine line = .ok s)
    (h : sizedOn? line = none) : StopsAt (line :: rest) := by
  refine Or.inr ⟨line, rest, s, rfl, hstatement, ?_⟩
  rw [sizedOn?, hstatement] at h
  simp only at h
  split at h
  · cases h
  · cases h
  · next hother hdirective =>
      cases hlabel : s.label with
      | some label => exact Or.inl (by simp)
      | none =>
          cases hbody : s.body with
          | empty => exact absurd hbody (hother hlabel)
          | sentinel => exact Or.inr rfl
          | directive directive => exact absurd hbody (hdirective directive hlabel)

end Lines

/-! ## The reader over lines -/

/-- Reads the operands of a line and goes on over the lines below. -/
def Reading.goOn (entrySize : Nat) (r : Reading) (now : List (Width × Operand))
    (lines : List Line) : Except Diagnostic (Record × List Line) :=
  match r.feedSized entrySize now with
  | .error d => .error d
  | .ok progress => progress.finish entrySize lines

theorem readRecord_eq (entrySize : Nat) (directive : Directive) (lines : List Line) :
    readRecord entrySize directive lines =
      (Reading.begin directive).goOn entrySize directive.sized lines := by
  rw [readRecord, Reading.goOn, feed_eq_feedSized]
  rfl

/-- The cause and the place of a failure. -/
def faultOf {α : Type} (outcome : Except Diagnostic α) : Except (Cause × Span) α :=
  outcome.mapError fun d => (d.cause, d.primary)

/-- What is wrong when a record cannot go on after some operands. -/
def stopFault (entrySize : Nat) (begun : Span) (operands : List (Width × Operand)) (s : Spelling) :
    Cause × Span :=
  match s.waiting with
  | some high => (.unbalancedByteOperands, high.span)
  | none =>
      (.truncatedRecord (announced entrySize s.words) s.words.length,
        (operands.getLast?.map (·.2.span)).getD begun)

/-- How a record ends that began at a place, after some operands were read, with others on the
line read now and lines below. The operands of some lines below `complete` it, the last one at the
end of its line; or it is `broken` off on the last of these lines; or words are missing after them
and it cannot go on, or the next line cannot be read. -/
inductive Ends (entrySize : Nat) (begun : Span) (front now : List (Width × Operand))
    (lines : List Line) : Except (Cause × Span) (Record × List Line) → Prop where
  | complete {taken rest : List Line} {sized : List (Width × Operand)} {record : Record}
      (hlines : lines = taken ++ rest) (hsized : sizedOver? taken = some sized)
      (hlast : onLast now taken ≠ [])
      (hspell : spell? (front ++ now ++ sized) = some ⟨record.words, none⟩)
      (hfits : record.Fits entrySize) :
      Ends entrySize begun front now lines (.ok (record, rest))
  | broken {taken rest : List Line} {sized before : List (Width × Operand)} {s : Spelling}
      {fault : Cause × Span} (hlines : lines = taken ++ rest)
      (hsized : sizedOver? taken = some sized)
      (hbefore : front ++ now ++ sized = before ++ onLast now taken)
      (hspell : spell? before = some s) (hlacks : Lacks entrySize s.words)
      (hbreaks : Breaks entrySize before (onLast now taken) fault) :
      Ends entrySize begun front now lines (.error fault)
  | stopped {taken rest : List Line} {sized : List (Width × Operand)} {s : Spelling}
      (hlines : lines = taken ++ rest) (hsized : sizedOver? taken = some sized)
      (hspell : spell? (front ++ now ++ sized) = some s) (hlacks : Lacks entrySize s.words)
      (hstops : StopsAt rest) :
      Ends entrySize begun front now lines
        (.error (stopFault entrySize begun (front ++ now ++ sized) s))
  | unread {taken rest : List Line} {line : Line} {sized : List (Width × Operand)} {s : Spelling}
      {d : Diagnostic} (hlines : lines = taken ++ line :: rest)
      (hsized : sizedOver? taken = some sized)
      (hspell : spell? (front ++ now ++ sized) = some s) (hlacks : Lacks entrySize s.words)
      (hline : Statement.ofLine line = .error d) :
      Ends entrySize begun front now lines (.error (d.cause, d.primary))

section Reader

variable {entrySize : Nat} {begun : Span} {front now now' sized before : List (Width × Operand)}
  {line : Line} {lines taken rest : List Line} {r : Reading} {s : Statement}
  {outcome : Except (Cause × Span) (Record × List Line)}

theorem resume_of_sized (hstatement : Statement.ofLine line = .ok s) (hrecord : r.record? = none)
    (h : sizedOn? line = some now) : r.resume entrySize s = r.feedSized entrySize now := by
  rw [sizedOn?, hstatement] at h
  obtain ⟨line, label, body⟩ := s
  cases label with
  | some label => cases h
  | none =>
      cases body with
      | sentinel => cases h
      | empty =>
          cases h
          rw [Reading.feedSized, hrecord]
          rfl
      | directive directive =>
          cases h
          exact feed_eq_feedSized entrySize directive.width r directive.operands

/-- A line on which a record can go on is read for its operands. -/
theorem finish_cons_of_sized (hrecord : r.record? = none) (h : sizedOn? line = some now)
    (rest : List Line) :
    (Progress.underway r).finish entrySize (line :: rest) = r.goOn entrySize now rest := by
  cases hstatement : Statement.ofLine line with
  | error d =>
      rw [sizedOn?, hstatement] at h
      cases h
  | ok s =>
      rw [Progress.finish, hstatement, Reading.goOn]
      simp only [resume_of_sized hstatement hrecord h]

/-- A record that cannot go on fails with half a word, or with the words that are missing. -/
theorem exists_finish_of_stops (h : r.Spells entrySize begun front) (hstops : StopsAt lines) :
    ∃ d, (Progress.underway r).finish entrySize lines = .error d ∧
      (d.cause, d.primary) = stopFault entrySize begun front ⟨wordsOf r, r.half⟩ := by
  have hfault : (r.cutOff.cause, r.cutOff.primary) =
        stopFault entrySize begun front ⟨wordsOf r, r.half⟩ ∧
      ∀ place, ((r.interrupted place).cause, (r.interrupted place).primary) =
        stopFault entrySize begun front ⟨wordsOf r, r.half⟩ := by
    cases hhalf : r.half with
    | some high =>
        constructor
        · rw [Reading.cutOff, hhalf]
          rfl
        · intro place
          rw [Reading.interrupted, hhalf]
          rfl
    | none =>
        have htruncated : (r.truncated.cause, r.truncated.primary) =
            stopFault entrySize begun front ⟨wordsOf r, none⟩ := by
          show (Cause.truncatedRecord r.expected r.count, r.last) = _
          rw [expected_eq_announced h.sound, ← length_wordsOf h.sound, h.last_eq]
          rfl
        constructor
        · rw [Reading.cutOff, hhalf]
          exact htruncated
        · intro place
          rw [Reading.interrupted, hhalf]
          exact htruncated
  rcases hstops with rfl | ⟨line, rest, s, rfl, hstatement, hinterrupts⟩
  · exact ⟨r.cutOff, by rw [Progress.finish], hfault.1⟩
  · refine ⟨r.interrupted s.line.span, ?_, hfault.2 _⟩
    have hresume : r.resume entrySize s = .error (r.interrupted s.line.span) := by
      rw [Reading.resume]
      split
      · next hlabel hbody => simp [hlabel, hbody] at hinterrupts
      · next hlabel hbody => simp [hlabel, hbody] at hinterrupts
      · rfl
    rw [Progress.finish, hstatement]
    simp only [hresume]

/-! ### What the reader does is an end -/

/-- A record ends below one more line as it ends below the lines after that one. -/
theorem Ends.below (hline : sizedOn? line = some now')
    (h : Ends entrySize begun (front ++ now) now' rest outcome) :
    Ends entrySize begun front now (line :: rest) outcome := by
  have hover : ∀ {taken sized}, sizedOver? taken = some sized →
      sizedOver? (line :: taken) = some (now' ++ sized) := fun h =>
    sizedOver?_cons_iff.mpr ⟨now', _, hline, h, rfl⟩
  have hall : ∀ sized, front ++ now ++ now' ++ sized = front ++ now ++ (now' ++ sized) := fun _ =>
    List.append_assoc _ _ _
  have hlast := onLast_cons now hline
  cases h with
  | complete hlines hsized hne hspell hfits =>
      rw [hall] at hspell
      exact .complete (congrArg _ hlines) (hover hsized) (by rwa [hlast]) hspell hfits
  | broken hlines hsized hbefore hspell hlacks hbreaks =>
      rw [hall, ← hlast] at hbefore
      rw [← hlast] at hbreaks
      exact .broken (congrArg _ hlines) (hover hsized) hbefore hspell hlacks hbreaks
  | stopped hlines hsized hspell hlacks hstops =>
      rw [hall] at hspell ⊢
      exact .stopped (congrArg _ hlines) (hover hsized) hspell hlacks hstops
  | unread hlines hsized hspell hlacks hunread =>
      rw [hall] at hspell
      exact .unread (congrArg _ hlines) (hover hsized) hspell hlacks hunread

/-- A record that cannot go on ends there. -/
theorem ends_of_stops (h : r.Spells entrySize begun (front ++ now)) (hrecord : r.record? = none)
    (hstops : StopsAt lines) :
    Ends entrySize begun front now lines
      (faultOf ((Progress.underway r).finish entrySize lines)) := by
  obtain ⟨d, hfinish, hfault⟩ := exists_finish_of_stops h hstops
  have hlacks := (record?_eq_none_iff h.sound).mp hrecord
  have hspell := h.spell?_eq
  rw [← List.append_nil (front ++ now)] at hspell hfault
  rw [hfinish]
  show Ends entrySize begun front now lines (.error (d.cause, d.primary))
  rw [hfault]
  exact .stopped (List.nil_append _).symm rfl hspell hlacks hstops

/-- A record ends on the line read now, or as it goes on from there. -/
theorem ends_of_feeds (h : r.Spells entrySize begun front) (hrecord : r.record? = none)
    (hnext : ∀ next : Reading, next.Spells entrySize begun (front ++ now) →
      next.record? = none → Ends entrySize begun front now lines
        (faultOf ((Progress.underway next).finish entrySize lines))) :
    Ends entrySize begun front now lines (faultOf (r.goOn entrySize now lines)) := by
  have hfeeds := feeds_feedSized h hrecord now
  rw [Reading.goOn]
  rcases hfeed : r.feedSized entrySize now with d | next | record
  · rw [hfeed] at hfeeds
    exact .broken (List.nil_append _).symm rfl (List.append_nil _) h.spell?_eq
      ((record?_eq_none_iff h.sound).mp hrecord) hfeeds
  · rw [hfeed] at hfeeds
    obtain ⟨hspells, hnone⟩ := hfeeds
    exact hnext next hspells hnone
  · rw [hfeed] at hfeeds
    obtain ⟨hne, hspell, hfits⟩ := hfeeds
    rw [← List.append_nil (front ++ now)] at hspell
    simp only [Progress.finish]
    exact .complete (List.nil_append _).symm rfl hne hspell hfits

/-- What the reader comes to is how the record ends. -/
theorem ends_goOn (h : r.Spells entrySize begun front) (hrecord : r.record? = none)
    (now : List (Width × Operand)) (lines : List Line) :
    Ends entrySize begun front now lines (faultOf (r.goOn entrySize now lines)) := by
  induction lines generalizing r front now with
  | nil => exact ends_of_feeds h hrecord fun next hspells hnone =>
      ends_of_stops hspells hnone (Or.inl rfl)
  | cons line rest ih =>
      refine ends_of_feeds h hrecord fun next hspells hnone => ?_
      cases hsized : sizedOn? line with
      | some now' =>
          rw [finish_cons_of_sized hnone hsized]
          exact (ih hspells hnone now').below hsized
      | none =>
          cases hstatement : Statement.ofLine line with
          | ok s =>
              exact ends_of_stops hspells hnone (stopsAt_of_sizedOn?_eq_none hstatement hsized)
          | error d =>
              have hspell := hspells.spell?_eq
              rw [← List.append_nil (front ++ now)] at hspell
              rw [Progress.finish, hstatement]
              exact .unread (List.nil_append _).symm rfl hspell
                ((record?_eq_none_iff hspells.sound).mp hnone) hstatement

/-! ### An end is what the reader does -/

/-- A line that leaves words missing is read, whatever lines follow. -/
theorem exists_goOn_of_line (h : r.Spells entrySize begun front) {s : Spelling}
    (hspell : spell? (front ++ now) = some s) (hlacks : Lacks entrySize s.words) :
    ∃ next : Reading, next.Spells entrySize begun (front ++ now) ∧ next.record? = none ∧
      ∀ lines, r.goOn entrySize now lines =
        (Progress.underway next).finish entrySize lines := by
  obtain ⟨next, hnext, hnone, hfeed⟩ := exists_feedSized_append h hspell hlacks
  refine ⟨next, hnext, hnone, fun lines => ?_⟩
  have hnow := hfeed []
  rw [List.append_nil, Reading.feedSized, hnone] at hnow
  rw [Reading.goOn, hnow]

/-- Lines that leave words missing are read, whatever lines follow. -/
theorem exists_goOn_of_lines (h : r.Spells entrySize begun front)
    (hsized : sizedOver? taken = some sized) {s : Spelling}
    (hspell : spell? (front ++ now ++ sized) = some s) (hlacks : Lacks entrySize s.words) :
    ∃ next : Reading, next.Spells entrySize begun (front ++ now ++ sized) ∧
      next.record? = none ∧ ∀ rest, r.goOn entrySize now (taken ++ rest) =
        (Progress.underway next).finish entrySize rest := by
  induction taken generalizing r front now sized with
  | nil =>
      cases hsized
      rw [List.append_nil] at hspell ⊢
      exact exists_goOn_of_line h hspell hlacks
  | cons line taken ih =>
      obtain ⟨now', more, hline, hmore, rfl⟩ := sizedOver?_cons_iff.mp hsized
      obtain ⟨s₀, hnow, hpart⟩ := exists_spell?_of_append hspell
      obtain ⟨next, hnext, hnone, hgoes⟩ := exists_goOn_of_line h hnow (hlacks.of_prefix hpart)
      rw [← List.append_assoc] at hspell ⊢
      obtain ⟨last, hlast, hnone', hrest⟩ := ih hnext hmore hspell
      refine ⟨last, hlast, hnone', fun rest => ?_⟩
      rw [hgoes, List.cons_append, finish_cons_of_sized hnone hline, hrest]

/-- When words are missing before the last of some lines, it is reached. -/
theorem exists_goOn_of_last (h : r.Spells entrySize begun front)
    (hsized : sizedOver? taken = some sized)
    (hbefore : front ++ now ++ sized = before ++ onLast now taken) {s : Spelling}
    (hspell : spell? before = some s) (hlacks : Lacks entrySize s.words) :
    ∃ next : Reading, next.Spells entrySize begun before ∧
      ∀ rest, r.goOn entrySize now (taken ++ rest) =
        next.goOn entrySize (onLast now taken) rest := by
  rcases List.eq_nil_or_concat' taken with rfl | ⟨init, line, rfl⟩
  · cases hsized
    rw [List.append_nil, onLast_nil] at hbefore
    obtain rfl := List.append_cancel_right hbefore
    exact ⟨r, h, fun _ => rfl⟩
  · obtain ⟨more, now', hmore, hline, rfl⟩ := sizedOver?_concat_iff.mp hsized
    rw [onLast_concat now hline] at hbefore ⊢
    rw [← List.append_assoc] at hbefore
    obtain rfl := List.append_cancel_right hbefore
    obtain ⟨next, hnext, hnone, hgoes⟩ := exists_goOn_of_lines h hmore hspell hlacks
    refine ⟨next, hnext, fun rest => ?_⟩
    rw [List.append_assoc, hgoes, List.singleton_append, finish_cons_of_sized hnone hline]

/-- However a record ends, the reader comes to that. -/
theorem faultOf_goOn_of_ends (h : r.Spells entrySize begun front)
    (hends : Ends entrySize begun front now lines outcome) :
    faultOf (r.goOn entrySize now lines) = outcome := by
  cases hends with
  | @complete taken rest sized record hlines hsized hlast hspell hfits =>
      obtain ⟨before, hbefore⟩ := exists_eq_append_onLast front now hsized
      rw [hbefore] at hspell
      obtain ⟨s, hspell', hlacks⟩ := exists_lacks_of_complete hlast hspell hfits
      obtain ⟨next, hnext, hgoes⟩ := exists_goOn_of_last h hsized hbefore hspell' hlacks
      rw [hlines, hgoes, Reading.goOn, feedSized_of_complete hnext hlast hspell hfits]
      simp only [Progress.finish]
      rfl
  | broken hlines hsized hbefore hspell hlacks hbreaks =>
      obtain ⟨next, hnext, hgoes⟩ := exists_goOn_of_last h hsized hbefore hspell hlacks
      obtain ⟨d, hfeed, hfault⟩ := exists_feedSized_of_breaks hnext hbreaks
      rw [hlines, hgoes, Reading.goOn, hfeed, hfault]
      rfl
  | stopped hlines hsized hspell hlacks hstops =>
      obtain ⟨next, hnext, -, hgoes⟩ := exists_goOn_of_lines h hsized hspell hlacks
      obtain ⟨d, hfinish, hfault⟩ := exists_finish_of_stops hnext hstops
      rw [hnext.spell?_eq] at hspell
      cases hspell
      rw [hlines, hgoes, hfinish, ← hfault]
      rfl
  | unread hlines hsized hspell hlacks hline =>
      obtain ⟨next, -, -, hgoes⟩ := exists_goOn_of_lines h hsized hspell hlacks
      rw [hlines, hgoes, Progress.finish, hline]
      rfl

/-- A record ends in one way, which the lines determine. -/
theorem faultOf_readRecord_eq_iff {directive : Directive} :
    faultOf (readRecord entrySize directive lines) = outcome ↔
      Ends entrySize directive.span [] directive.sized lines outcome := by
  rw [readRecord_eq]
  constructor
  · rintro rfl
    exact ends_goOn (spells_begin directive) rfl directive.sized lines
  · intro hends
    exact faultOf_goOn_of_ends (spells_begin directive) hends

end Reader

/-! ## Records of an artifact -/

namespace Draft

/-- What becomes of an artifact once a record that began at a place has been read: the record
is bound to the labels that wait, and the lines after it are read. -/
def afterRecord (d : Draft) (start : Span) :
    Except Diagnostic (Record × List Line) → Logged (Except Diagnostic Artifact)
  | .error e => ⟨d.log, .error e⟩
  | .ok (record, rest) =>
      match d.bind start record with
      | .error e => ⟨d.log, .error e⟩
      | .ok next => conclude (next.run rest)

variable {d : Draft} {line : Line} {s : Statement} {directive : Directive}

/-- Reads the lines below, unless the reading has ended. -/
def readOn (lines : List Line) : Draft × Verdict → Draft × Verdict
  | (d, .reading) => d.run lines
  | (d, verdict) => (d, verdict)

theorem run_cons (d : Draft) (line : Line) (lines : List Line) :
    d.run (line :: lines) = readOn lines (d.read line) := by
  rw [run]
  obtain ⟨next, verdict⟩ := d.read line
  cases verdict <;> rfl

/-- A complete record is bound, and the lines below are read. -/
theorem conclude_settle_complete (d : Draft) (start : Span) (record : Record)
    (lines : List Line) :
    conclude (readOn lines (d.settle start (.ok (.complete record)))) =
      d.afterRecord start (.ok (record, lines)) := by
  rw [settle, afterRecord]
  cases d.bind start record <;> rfl

/-- While a record is underway, an artifact is read on as the record is. -/
theorem conclude_settle (d : Draft) (start : Span) (outcome : Except Diagnostic Progress)
    (lines : List Line) :
    conclude (readOn lines (d.settle start outcome)) =
      d.afterRecord start (outcome.bind fun progress => progress.finish d.entrySize lines) := by
  induction lines generalizing d outcome with
  | nil =>
      rcases outcome with e | r | record
      · rfl
      · rfl
      · exact conclude_settle_complete d start record []
  | cons line rest ih =>
      rcases outcome with e | r | record
      · rfl
      · have hnext : conclude (Draft.run { d with underway := some (start, r) } (line :: rest)) =
            d.afterRecord start ((Progress.underway r).finish d.entrySize (line :: rest)) := by
          rw [run_cons, Progress.finish]
          cases hstatement : Statement.ofLine line with
          | error e =>
              rw [read, hstatement]
              rfl
          | ok s =>
              rw [read_of_underway rfl hstatement, ih]
              simp only
              cases r.resume d.entrySize s with
              | error e => rfl
              | ok progress => rfl
        exact hnext
      · exact conclude_settle_complete d start record (line :: rest)

/-- Among the records, a line with a directive begins one, which is read to its end before the
lines after it are. -/
theorem conclude_run_of_record (hmode : d.mode = .data) (hunderway : d.underway = none)
    (hstatement : Statement.ofLine line = .ok s) (hbody : s.body = .directive directive)
    (lines : List Line) :
    conclude (d.run (line :: lines)) =
      (d.labelled s.label).afterRecord directive.span
        (readRecord d.entrySize directive lines) := by
  rw [run_cons, read_of_statement hunderway hstatement, readStatement_eq,
    labelled_of_records hmode]
  simp only [hbody, readDirective, hmode]
  rw [conclude_settle, readRecord]
  cases (Reading.begin directive).feed d.entrySize directive.width directive.operands <;> rfl

end Draft

/-! ## The reference decoding -/

theorem faultOf_eq_ok_iff {α : Type} {outcome : Except Diagnostic α} {a : α} :
    faultOf outcome = .ok a ↔ outcome = .ok a := by
  cases outcome <;> simp [faultOf, Except.mapError]

/-- The records that are read, from the operands of the lines. -/
theorem readRecord_eq_ok_iff {entrySize : Nat} {directive : Directive} {lines rest : List Line}
    {record : Record} :
    readRecord entrySize directive lines = .ok (record, rest) ↔
      ∃ taken sized, lines = taken ++ rest ∧ sizedOver? taken = some sized ∧
        onLast directive.sized taken ≠ [] ∧
        spell? (directive.sized ++ sized) = some ⟨record.words, none⟩ ∧
        record.Fits entrySize := by
  rw [← faultOf_eq_ok_iff, faultOf_readRecord_eq_iff]
  constructor
  · intro hends
    cases hends with
    | complete hlines hsized hlast hspell hfits =>
        exact ⟨_, _, hlines, hsized, hlast, hspell, hfits⟩
  · rintro ⟨taken, sized, hlines, hsized, hlast, hspell, hfits⟩
    exact .complete hlines hsized hlast hspell hfits

/-- On lines that hold operands up to the last one, the record is what these spell. -/
theorem readRecord_append_eq_ok_iff {entrySize : Nat} {directive : Directive}
    {taken rest : List Line} {sized : List (Width × Operand)} {record : Record}
    (hsized : sizedOver? taken = some sized) (hlast : onLast directive.sized taken ≠ []) :
    readRecord entrySize directive (taken ++ rest) = .ok (record, rest) ↔
      spell? (directive.sized ++ sized) = some ⟨record.words, none⟩ ∧
        record.Fits entrySize := by
  rw [readRecord_eq_ok_iff]
  constructor
  · rintro ⟨taken', sized', hlines, hsized', -, hspell, hfits⟩
    obtain rfl := List.append_cancel_right hlines
    cases hsized.symm.trans hsized'
    exact ⟨hspell, hfits⟩
  · rintro ⟨hspell, hfits⟩
    exact ⟨taken, sized, rfl, hsized, hlast, hspell, hfits⟩

/-- A record is read from a directive and the lines below it when the operands of some of these
lines, collected in order, spell the words of the record and no byte waits, the count among
them is not negative and announces as many words, which fits 64 bits, and the last operand is
on the last of these lines; what follows that line is left. So the record does not depend on
how its operands are broken over lines. Reading an artifact reads its records in this way. -/
theorem readRecord_decodes (entrySize : Nat) (directive : Directive) (lines : List Line) :
    (∀ record rest, readRecord entrySize directive lines = .ok (record, rest) ↔
      ∃ taken sized, lines = taken ++ rest ∧ sizedOver? taken = some sized ∧
        onLast directive.sized taken ≠ [] ∧
        spell? (directive.sized ++ sized) = some ⟨record.words, none⟩ ∧
        0 ≤ record.header ∧
        record.words.length = 1 + record.header.toNatClampNeg * entrySize ∧
        record.words.length < sizeBound) ∧
    (∀ directive' taken rest sized taken' rest' sized', lines = taken ++ rest →
      sizedOver? taken = some sized → sizedOver? taken' = some sized' →
      onLast directive.sized taken ≠ [] → onLast directive'.sized taken' ≠ [] →
      (directive.sized ++ sized).map (fun p => (p.1, p.2.chars)) =
        (directive'.sized ++ sized').map (fun p => (p.1, p.2.chars)) →
      ∀ record, readRecord entrySize directive lines = .ok (record, rest) ↔
        readRecord entrySize directive' (taken' ++ rest') = .ok (record, rest')) ∧
    ∀ (d : Draft) line s, d.entrySize = entrySize → d.mode = .data → d.underway = none →
      Statement.ofLine line = .ok s → s.body = .directive directive →
      Draft.conclude (d.run (line :: lines)) =
        (d.labelled s.label).afterRecord directive.span
          (readRecord entrySize directive lines) := by
  refine ⟨?decoded, ?broken, ?artifact⟩
  case decoded =>
    intro record rest
    rw [readRecord_eq_ok_iff]
    constructor
    · rintro ⟨taken, sized, hlines, hsized, hlast, hspell, hfits⟩
      exact ⟨taken, sized, hlines, hsized, hlast, hspell, hfits.header_nonneg, hfits.length_eq,
        hfits.length_lt⟩
    · rintro ⟨taken, sized, hlines, hsized, hlast, hspell, hnonneg, hlength, hlt⟩
      exact ⟨taken, sized, hlines, hsized, hlast, hspell, hnonneg, hlength, hlt⟩
  case broken =>
    rintro directive' taken rest sized taken' rest' sized' rfl hsized hsized' hlast hlast' hsame
      record
    rw [readRecord_append_eq_ok_iff hsized hlast, readRecord_append_eq_ok_iff hsized' hlast',
      spell?_eq_iff_of_alike hsame]
  case artifact =>
    rintro d line s rfl hmode hunderway hstatement hbody
    exact Draft.conclude_run_of_record hmode hunderway hstatement hbody lines

/-- A count whose two bytes stand on two lines, with a comment in between. -/
theorem readRecord_decodes_split_count :
    ∃ line lines rest directive,
      linesOf "\tdc.b 0\n; its low byte\n\tdc.b 1,0,5\nB:\n" = line :: lines ∧
      (Statement.ofLine line).map (·.body) = .ok (.directive directive) ∧
      readRecord 1 directive lines = .ok (⟨1, [5]⟩, rest) ∧ rest.map (·.text) = ["B:"] := by
  have hlines : linesOf "\tdc.b 0\n; its low byte\n\tdc.b 1,0,5\nB:\n" =
      ⟨⟨0, "\tdc.b 0".toList⟩, 1⟩ :: ([⟨⟨8, "; its low byte".toList⟩, 2⟩,
        ⟨⟨23, "\tdc.b 1,0,5".toList⟩, 3⟩] ++ [⟨⟨35, "B:".toList⟩, 4⟩]) := by
    decide +kernel
  refine ⟨_, _, [⟨⟨35, "B:".toList⟩, 4⟩], ⟨⟨1, "dc.b 0".toList⟩, .byte, [⟨⟨6, ['0']⟩⟩]⟩, hlines,
    by decide +kernel, ?_, by decide⟩
  apply ((readRecord_decodes 1 _ _).1 _ _).mpr
  -- the comment has no operands, so the low byte begins those of the last line
  have hbelow : sizedOver? [⟨⟨8, "; its low byte".toList⟩, 2⟩, ⟨⟨23, "\tdc.b 1,0,5".toList⟩, 3⟩] =
      some [(.byte, ⟨⟨29, ['1']⟩⟩), (.byte, ⟨⟨31, ['0']⟩⟩), (.byte, ⟨⟨33, ['5']⟩⟩)] := by
    decide +kernel
  refine ⟨_, _, rfl, hbelow, ?_, by decide +kernel, by decide, by decide, by decide⟩
  decide +kernel

end SpriteTables
