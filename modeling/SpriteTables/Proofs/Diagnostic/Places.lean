import SpriteTables.Minify
import SpriteTables.Proofs.Artifact.Places
import SpriteTables.Proofs.Text.Numbered

/-!
# Diagnostics point at the right place

A text that is no artifact is reported by a diagnostic (`places_of_parseNamed`). Its spans cover
characters of the text, the primary one on a single line, whose number the report gives. What the
diagnostic quotes is the text at the primary span, and when it complains of a label that was there
before it shows the first place of that label.
-/

set_option autoImplicit false

namespace SpriteTables

open Text (Span Line Piece NamedText linesOf byteSize)

/-! ## Spans on lines -/

theorem Text.Span.OnLines.exists_covers {span : Span} {text : String}
    (h : span.OnLines (linesOf text)) : ∃ chars, span.Covers text chars := by
  obtain ⟨line, hline, q, hq, rfl⟩ := h
  exact ⟨q.chars, (hq.trans (Text.line_in_whole hline)).covers⟩

/-! ## The line that fails -/

variable {entrySize : Nat} {text : String} {e : Diagnostic}

/-- A text is no artifact when one of its lines cannot be read or the last record is cut
off. -/
theorem Draft.failed_of_parse (h : (Artifact.parse entrySize text).value = .error e) :
    e.PlacedOn (linesOf text) ∨
      ∃ done line back d next, linesOf text = done ++ line :: back ∧
        Reaches entrySize done d .reading ∧ d.read line = (next, .failed e) := by
  rw [Artifact.parse] at h
  generalize hrun : Draft.run { entrySize } (linesOf text) = outcome at h
  obtain ⟨d, verdict⟩ := outcome
  cases verdict with
  | ended => cases h
  | failed e' =>
      cases h
      obtain ⟨front, back, hlines, hreaches, -⟩ := exists_reaches_of_run hrun
      cases hreaches with
      | line hdone hread =>
          rw [List.append_assoc, List.singleton_append] at hlines
          exact Or.inr ⟨_, _, back, _, d, hlines, hdone, hread⟩
  | reading =>
      rw [conclude.eq_def] at h
      cases hunderway : d.underway with
      | none =>
          simp only [hunderway] at h
          cases h
      | some begun =>
          obtain ⟨start, r⟩ := begun
          simp only [hunderway] at h
          cases h
          have hplaced := (reaches_of_run hrun).placed (Text.pairwise_before_linesOf text)
          exact Or.inl (Reading.placedOn_cutOff (hplaced.underway start r hunderway).2)

/-! ## Repeated labels -/

/-- A diagnostic is about a label that was there before. Either it is about an operand among the
tables and shows the operand that declared the label first, or it is about a label among the
records, quotes it, and shows the first line since the switch that declares it. -/
inductive Diagnostic.Repeats (entrySize : Nat) (text : String) (e : Diagnostic) : Prop where
  | entry (label : String) (first : Declaration) :
      e.cause = .duplicateLabel label → e.related = [⟨first.span, .firstDeclared⟩] →
      first.span.stop ≤ e.primary.start →
      (declarationsOf (linesOf text)).find? (·.label = label) = some first →
      (∀ before line after, linesOf text = before ++ line :: after → Switches before line →
        e.primary.stop < line.span.start) →
      Repeats entrySize text e
  | label (label : String) (first : Span) (record : Record) (before : List Line) (line : Line)
      (after : List Line) :
      e.cause = .duplicateLabel label → e.related = [⟨first, .boundElsewhere⟩] →
      first.stop ≤ e.primary.start → e.primary.Covers text label.toList →
      linesOf text = before ++ line :: after → Switches before line →
      firstPlace? entrySize label (line :: after) = some (first, some record) →
      Repeats entrySize text e

namespace Draft

variable {d next : Draft} {done back : List Line} {line : Line}

/-- Lines of a text stand behind those before them. -/
theorem before_of_linesOf (h : linesOf text = done ++ line :: back) :
    (∀ other ∈ done, other.toPiece.Before line.toPiece) ∧
      ∀ other ∈ back, line.toPiece.Before other.toPiece := by
  have hordered := Text.pairwise_before_linesOf text
  rw [h] at hordered
  obtain ⟨-, hback, hfront⟩ := List.pairwise_append.mp hordered
  exact ⟨fun other hother => hfront other hother line (by simp), (List.pairwise_cons.mp hback).1⟩

theorem subset_linesOf (h : linesOf text = done ++ line :: back) :
    done ++ [line] ⊆ linesOf text := by
  rw [h]
  simp

/-- An entry among the tables that repeats a label is shown with the first one. -/
theorem repeats_of_repeatsEntry (hlines : linesOf text = done ++ line :: back)
    (htables : d.InTables entrySize done) (hstay : StayInTables (done ++ [line]))
    (hplaced : d.Placed done) (h : d.RepeatsEntry line e) :
    e.Repeats entrySize text ∧ e.primary.OnLines (linesOf text) ∧
      ∀ r ∈ e.related, r.span.OnLines (linesOf text) := by
  obtain ⟨hbefore, hbehind⟩ := before_of_linesOf hlines
  obtain ⟨label, first, ⟨q, hq, hspan⟩, hfirst, hstop, hcause, hrelated, hfind⟩ :=
    before_of_repeatsEntry hplaced hbefore h
  have hline : line ∈ linesOf text := subset_linesOf hlines (by simp)
  refine ⟨.entry label first hcause hrelated hstop ?_ ?_, ⟨line, hline, q, hq, hspan⟩, ?_⟩
  · -- the entries of the lines read come first among all
    have hall : declarationsOf (linesOf text) =
        d.declared ++ (operandsOn line).filterMap declarationOf? ++ declarationsOf back := by
      rw [hlines, declarationsOf, operandsOf_append, operandsOf_cons, List.filterMap_append,
        List.filterMap_append, filterMap_declarationOf? htables.declared_eq, List.append_assoc]
      rfl
    rw [hall, List.find?_append, hfind, Option.some_or]
  · intro before other after hsplit hswitches
    have hother : other ∈ back := by
      have heq := hsplit.symm.trans hlines
      rw [List.append_cons done] at heq
      rcases List.append_eq_append_iff.mp heq with ⟨more, hdone, hmore⟩ | ⟨more, -, hmore⟩
      · cases more with
        | nil =>
            rw [List.nil_append] at hmore
            simp [← hmore]
        | cons first' more =>
            obtain ⟨rfl, -⟩ := List.cons.inj hmore
            exact absurd hswitches.2 (hstay before other more hdone)
      · rw [hmore]
        simp
    have hlt := hbehind other hother
    rw [← hspan]
    exact Nat.lt_of_le_of_lt hq.stop_le hlt
  · intro r hr
    rw [hrelated, List.mem_singleton] at hr
    rw [hr]
    exact hfirst.mono (subset_linesOf hlines)

/-- A label among the records that repeats is shown with its first line since the switch. -/
theorem repeats_of_repeatsLabel (hlines : linesOf text = done ++ line :: back)
    (hplaced : d.Placed done) {before tail after : List Line} {other : Line}
    (hswitches : Switches before other) (hsplit : done = before ++ tail)
    (htail : tail ++ line :: back = other :: after)
    (hplaces : ∀ name rest, d.placeOf? rest name = firstPlace? entrySize name (tail ++ rest))
    (h : d.RepeatsLabel line e) :
    e.Repeats entrySize text ∧ e.primary.OnLines (linesOf text) ∧
      ∀ r ∈ e.related, r.span.OnLines (linesOf text) := by
  obtain ⟨label, binding, ⟨place, hplace, hin⟩, hprimary, hfirst, hstop, hcause, hrelated,
    hbound⟩ := before_of_repeatsLabel hplaced (before_of_linesOf hlines).1 h
  have hmem := subset_linesOf hlines hplace
  have hcovers := (hin.trans (Text.line_in_whole hmem)).covers
  rw [← hprimary] at hcovers
  refine ⟨.label label.name binding.first binding.record before other after hcause hrelated hstop
    ?_ ?_ hswitches ?_, ?_, ?_⟩
  · rw [Label.name, Piece.text, String.toList_ofList]
    exact hcovers
  · rw [hlines, hsplit, List.append_assoc, htail]
  · rw [← htail, ← hplaces]
    exact placeOf?_of_bound hbound
  · rw [hprimary]
    exact hin.onLines hmem
  · intro r hr
    rw [hrelated, List.mem_singleton] at hr
    rw [hr]
    exact hfirst.mono (subset_linesOf hlines)

/-- The switch forgets the labels that wait, and leaves all other spans. -/
theorem placed_switched (h : d.Placed done) (label : Label) : (d.switched label).Placed done :=
  { h with
    pending := fun _ hlabel => absurd hlabel List.not_mem_nil
    ordered := fun _ _ _ hlabel => absurd hlabel List.not_mem_nil }

/-- A line that fails is reported on the lines read, or for a label that was there before. -/
theorem placedOn_or_repeats_of_read (hlines : linesOf text = done ++ line :: back)
    (hreaches : Reaches entrySize done d .reading) (h : d.read line = (next, .failed e)) :
    e.PlacedOn (linesOf text) ∨
      e.Repeats entrySize text ∧ e.primary.OnLines (linesOf text) ∧
        ∀ r ∈ e.related, r.span.OnLines (linesOf text) := by
  have hordered := Text.pairwise_before_linesOf text
  rw [hlines] at hordered
  have hplaced := hreaches.placed (List.pairwise_append.mp hordered).1
  have hsubset := subset_linesOf hlines
  rcases hreaches.inTables_or_among (by simp) with ⟨hstay, htables⟩ |
    ⟨before, other, after, label, hsplit, hswitches, -, hamong, hplaces⟩
  · by_cases hrefers : RefersBack done line
    · -- the line switches, and fails as the first one among the records
      obtain ⟨label, hlabel, hentry⟩ := hrefers
      obtain ⟨hread, hamong, hplaces⟩ := among_switched htables hlabel hentry
      rw [hread] at h
      have hplaced' := placed_switched hplaced label
      rcases failed_of_records hamong.mode_eq hplaced' h with hon | hrepeats
      · exact Or.inl (hon.mono hsubset)
      · exact Or.inr (repeats_of_repeatsLabel hlines hplaced' ⟨hstay, label, hlabel, hentry⟩
          (List.append_nil done).symm rfl hplaces hrepeats)
    · have hclear : ∀ label, labelOf? line = some label → d.refersTo label.name = false := by
        intro label hlabel
        rw [Bool.eq_false_iff]
        intro htrue
        exact hrefers ⟨label, hlabel, htables.refersTo_iff.mp htrue⟩
      rcases failed_of_tables htables.mode_eq htables.underway_eq hclear h with hon | hrepeats
      · exact Or.inl (hon.mono hsubset)
      · exact Or.inr (repeats_of_repeatsEntry hlines htables
          (stayInTables_concat_iff.mpr ⟨hstay, hrefers⟩) hplaced hrepeats)
  · rcases failed_of_records hamong.mode_eq hplaced h with hon | hrepeats
    · exact Or.inl (hon.mono hsubset)
    · exact Or.inr (repeats_of_repeatsLabel hlines hplaced hswitches hsplit rfl
        (fun name rest => hplaces name rest (Or.inl rfl)) hrepeats)

/-- A text that cannot be read is reported on its lines, or for a label that was there
before. -/
theorem placedOn_or_repeats_of_parse (h : (Artifact.parse entrySize text).value = .error e) :
    e.PlacedOn (linesOf text) ∨
      e.Repeats entrySize text ∧ e.primary.OnLines (linesOf text) ∧
        ∀ r ∈ e.related, r.span.OnLines (linesOf text) := by
  rcases failed_of_parse h with hon | ⟨done, line, back, d, next, hlines, hreaches, hread⟩
  · exact Or.inl hon
  · exact placedOn_or_repeats_of_read hlines hreaches hread

/-- Either way the primary span is that of a stretch of a line. -/
theorem primary_onLines_of_parse (h : (Artifact.parse entrySize text).value = .error e) :
    e.primary.OnLines (linesOf text) := by
  rcases placedOn_or_repeats_of_parse h with hon | ⟨-, hprimary, -⟩
  · obtain ⟨line, hline, -, q, hq, hspan, -⟩ := hon.found
    exact ⟨line, hline, q, hq, hspan⟩
  · exact hprimary

end Draft

/-! ## All diagnostics -/

/-- A text that cannot be read is reported with one diagnostic. All of its spans cover
characters of the text, and the primary one covers what the diagnostic quotes. The primary
span lies on one line, whose number is reported. A repeated label is shown with its first
place. -/
theorem places_of_parseNamed {artifact : NamedText} {failure : Failure}
    (h : (parseNamed entrySize artifact).value = .error failure) :
    ∃ d : Diagnostic, failure = .parse ⟨artifact, d⟩ ∧
      (∃ chars, d.primary.Covers artifact.text chars ∧
        ∀ quoted, d.cause.quoted? = some quoted → chars = quoted.toList) ∧
      (∀ r ∈ d.related, ∃ chars, r.span.Covers artifact.text chars) ∧
      (∃ line ∈ linesOf artifact.text, line.span.start ≤ d.primary.start ∧
        d.primary.stop ≤ line.span.stop ∧ ParseFailure.line ⟨artifact, d⟩ = line.number) ∧
      (∀ label, d.cause = .duplicateLabel label → d.Repeats entrySize artifact.text) := by
  obtain ⟨d, hparse, rfl⟩ := Logged.mapError_eq_error_iff.mp h
  refine ⟨d, rfl, ?_⟩
  -- the number of the line is that of the offset at which the span begins
  have hline : ∀ {line : Line} {q : Piece}, line ∈ linesOf artifact.text → q.In line.toPiece →
      q.span = d.primary → line.span.start ≤ d.primary.start ∧
        d.primary.stop ≤ line.span.stop ∧ ParseFailure.line ⟨artifact, d⟩ = line.number := by
    intro line q hmem hq hspan
    rw [← hspan]
    refine ⟨hq.start_le, hq.stop_le, ?_⟩
    rw [ParseFailure.line, ← hspan]
    exact Text.line_positionAt hmem hq.start_le (Nat.le_trans q.start_le_stop hq.stop_le)
  rcases Draft.placedOn_or_repeats_of_parse hparse with hon |
    ⟨hrepeats, ⟨line, hmem, q, hq, hspan⟩, hrelated⟩
  · obtain ⟨line, hmem, hfresh, q, hq, hspan, hquoted⟩ := hon.found
    have hcovers := (hq.trans (Text.line_in_whole hmem)).covers
    rw [hspan] at hcovers
    refine ⟨⟨q.chars, hcovers, ?_⟩, fun r hr => (hon.related r hr).exists_covers,
      ⟨line, hmem, hline hmem hq hspan⟩, ?_⟩
    · intro quoted hcause
      rw [← hquoted quoted hcause, Piece.text, String.toList_ofList]
    · intro label hcause
      rw [hcause] at hfresh
      cases hfresh
  · have hcovers := (hq.trans (Text.line_in_whole hmem)).covers
    rw [hspan] at hcovers
    refine ⟨⟨q.chars, hcovers, ?_⟩, fun r hr => (hrelated r hr).exists_covers,
      ⟨line, hmem, hline hmem hq hspan⟩, fun _ _ => hrepeats⟩
    intro quoted hquoted
    cases hrepeats with
    | entry label first hcause =>
        rw [hcause] at hquoted
        cases hquoted
    | label label first record before other after hcause =>
        rw [hcause] at hquoted
        cases hquoted

/-- A label is bound to the same record twice and then, on a last line without a terminator,
to another one. A character of two bytes stands before it. -/
theorem places_of_repeated_label :
    ∃ d : Diagnostic,
      (parseNamed 1 ⟨"source",
        "\tdc.w A-T\r\nA:\r\n\tdc.w 0 ; \u00e9\r\nA:\tdc.b 0,0\r\nA: dc.w 1,5"⟩).value =
        .error (.parse ⟨⟨"source",
          "\tdc.w A-T\r\nA:\r\n\tdc.w 0 ; \u00e9\r\nA:\tdc.b 0,0\r\nA: dc.w 1,5"⟩, d⟩) ∧
      d.primary = ⟨42, 43⟩ ∧ d.related = [⟨⟨11, 12⟩, .boundElsewhere⟩] ∧
      d.Repeats 1 "\tdc.w A-T\r\nA:\r\n\tdc.w 0 ; \u00e9\r\nA:\tdc.b 0,0\r\nA: dc.w 1,5" := by
  have h : (parseNamed 1 ⟨"source",
      "\tdc.w A-T\r\nA:\r\n\tdc.w 0 ; \u00e9\r\nA:\tdc.b 0,0\r\nA: dc.w 1,5"⟩).value =
      .error (.parse ⟨⟨"source",
        "\tdc.w A-T\r\nA:\r\n\tdc.w 0 ; \u00e9\r\nA:\tdc.b 0,0\r\nA: dc.w 1,5"⟩,
        ⟨.duplicateLabel "A", ⟨42, 43⟩, [⟨⟨11, 12⟩, .boundElsewhere⟩], []⟩⟩) := by
    decide +kernel
  obtain ⟨d, hfailure, -, -, -, hrepeats⟩ := places_of_parseNamed h
  cases hfailure
  exact ⟨_, h, rfl, rfl, hrepeats "A" rfl⟩

end SpriteTables
