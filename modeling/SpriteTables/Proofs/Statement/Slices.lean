import SpriteTables.Proofs.Statement.Grammar
import SpriteTables.Proofs.Text.Numbered

/-!
# Spans slice back

The parts of a statement keep the spans at which they were read. Cut out of the whole text again,
each span gives the part that it belongs to, whatever was trimmed or cut off around it and
wherever the line stands in the text (`Statement.sliced_of_ofLine`).
-/

set_option autoImplicit false

namespace SpriteTables

open Text (Piece Line Span Blanks linesOf)

namespace Statement

variable {text : String} {line : Line} {s : Statement} {label : Label} {d : Directive}

/-! ## The places of the parts -/

/-- A statement has neither label nor directive, or it is a body at its place behind a label or
an indentation. -/
theorem cases_of_ofLine (h : ofLine line = .ok s) :
    s.line = line ∧
      ((s.label = none ∧ ∀ d, s.body ≠ .directive d) ∨
        ∃ lead body name, contentChars line.chars = lead ++ body ∧ Lead lead name ∧
          s.label = name.map (fun name => ⟨⟨line.start, name⟩⟩) ∧
          ofBody ⟨line.start + Text.byteSize lead, body⟩ = .ok s.body) := by
  obtain ⟨hline, -⟩ := parts_of_ofLine h
  refine ⟨hline, ?_⟩
  have hsays := exists_ofLine_iff.mp ⟨s, h, rfl, rfl⟩
  generalize hcontent : contentChars line.chars = content at hsays
  generalize hlabel : s.label.map (·.chars) = name at hsays
  generalize hsaid : s.body.said = said at hsays
  cases hsays with
  | nothing =>
      left
      rw [Body.said_eq_nothing_iff.mp hsaid]
      exact ⟨Option.map_eq_none_iff.mp hlabel, fun d hd => by cases hd⟩
  | sentinel =>
      left
      rw [Body.said_eq_sentinel_iff.mp hsaid]
      exact ⟨Option.map_eq_none_iff.mp hlabel, fun d hd => by cases hd⟩
  | @led lead body name said hlead hbody =>
      right
      rw [ofLine_of_lead hlead hbody.head? hcontent] at h
      obtain ⟨found, hfound, heq⟩ := bind_eq_ok_iff.mp h
      cases heq
      exact ⟨lead, body, name, rfl, hlead, rfl, hfound⟩

/-- A label begins where its line begins. -/
theorem start_of_label (h : ofLine line = .ok s) (hlabel : s.label = some label) :
    label.start = line.start := by
  obtain ⟨-, ⟨hnone, -⟩ | ⟨lead, body, name, -, -, hname, -⟩⟩ := cases_of_ofLine h
  · rw [hnone] at hlabel
    cases hlabel
  · rw [hname] at hlabel
    obtain ⟨chars, -, rfl⟩ := Option.map_eq_some_iff.mp hlabel
    rfl

/-- A directive stands behind a label or an indentation and goes on to the end of the content of
its line. -/
theorem lead_of_directive (h : ofLine line = .ok s) (hbody : s.body = .directive d) :
    ∃ lead, contentChars line.chars = lead ++ d.chars ∧ Lead lead (s.label.map (·.chars)) ∧
      d.start = line.start + Text.byteSize lead := by
  obtain ⟨-, ⟨-, hnone⟩ | ⟨lead, body, name, hcontent, hlead, hname, hread⟩⟩ := cases_of_ofLine h
  · exact absurd hbody (hnone d)
  · rw [hbody] at hread
    obtain ⟨hpiece, -⟩ := Directive.text_of_ofPiece (ofBody_eq_directive hread)
    refine ⟨lead, ?_, ?_, ?_⟩
    · rw [hpiece]
      exact hcontent
    · rw [hname]
      cases name with
      | none => exact hlead
      | some chars => exact hlead
    · rw [hpiece]

/-- A label ends before the directive behind it. -/
theorem label_before_directive (h : ofLine line = .ok s) (hlabel : s.label = some label)
    (hbody : s.body = .directive d) : label.toPiece.Before d.toPiece := by
  obtain ⟨lead, -, hlead, hstart⟩ := lead_of_directive h hbody
  rw [hlabel, Option.map_some] at hlead
  generalize hname : label.chars = name at hlead
  cases hlead with
  | labelled hidentifier hblanks hgap =>
      have hcolon : 0 < ':'.utf8Size := Char.utf8Size_pos ':'
      show label.start + Text.byteSize label.chars < d.start
      rw [start_of_label h hlabel, hstart, hname]
      simp only [Text.byteSize_append, Text.byteSize_cons]
      omega

/-! ## Slices of a text -/

/-- The spans of a statement give its parts when they are cut out of a text. The label stands
where the line begins, and the directive behind it is all that the line says. The operands stand
inside the directive in order, and between two of them in a row there are a comma and nothing else
but blanks. -/
structure Sliced (text : String) (s : Statement) : Prop where
  label : ∀ label, s.label = some label → label.span.Covers text label.name.toList ∧
    label.span.start = s.line.span.start ∧ label.span.Inside s.line.span
  directive : ∀ d, s.body = .directive d → d.span.Covers text d.chars ∧
    d.span.Inside s.line.span
  said : ∀ d, s.body = .directive d → (∃ lead, contentChars s.line.chars = lead ++ d.chars ∧
    Lead lead (s.label.map (·.chars))) ∧
      DirectiveText d.chars d.width (d.operands.map (·.chars))
  apart : ∀ label d, s.label = some label → s.body = .directive d →
    label.span.stop < d.span.start
  operand : ∀ d, s.body = .directive d → ∀ o ∈ d.operands, o.span.Covers text o.chars ∧
    o.span.Inside d.span
  ordered : ∀ d, s.body = .directive d →
    d.operands.Pairwise fun a b => a.span.stop < b.span.start
  comma : ∀ d, s.body = .directive d → ∀ front a b back, d.operands = front ++ a :: b :: back →
    ∃ before after, Blanks before ∧ Blanks after ∧
      Span.Covers ⟨a.span.stop, b.span.start⟩ text (before ++ ',' :: after)

/-- The spans of every statement on the lines of a text give its parts. -/
theorem sliced_of_ofLine (hline : line ∈ linesOf text) (h : ofLine line = .ok s) :
    s.line = line ∧ line.span.Covers text line.chars ∧ s.Sliced text := by
  have hwhole := Text.line_in_whole hline
  obtain ⟨rfl, -⟩ := parts_of_ofLine h
  refine ⟨rfl, hwhole.covers, ?_⟩
  constructor
  case label =>
    intro label hlabel
    have hin := label_in h hlabel
    have hcovers := (hin.trans hwhole).covers
    rw [Label.name, Piece.text, String.toList_ofList]
    exact ⟨hcovers, start_of_label h hlabel, hin.inside⟩
  case directive =>
    intro d hbody
    obtain ⟨hin, -⟩ := directive_in h hbody
    exact ⟨(hin.trans hwhole).covers, hin.inside⟩
  case said =>
    intro d hbody
    obtain ⟨lead, hcontent, hlead, -⟩ := lead_of_directive h hbody
    obtain ⟨-, hread⟩ := ofPiece_of_directive h hbody
    exact ⟨⟨lead, hcontent, hlead⟩, (Directive.text_of_ofPiece hread).2⟩
  case apart =>
    intro label d hlabel hbody
    exact label_before_directive h hlabel hbody
  case operand =>
    intro d hbody o ho
    obtain ⟨hin, hread⟩ := ofPiece_of_directive h hbody
    obtain ⟨-, hoperands, -⟩ := Directive.parts_of_ofPiece hread
    exact ⟨((hoperands o ho).trans (hin.trans hwhole)).covers, (hoperands o ho).inside⟩
  case ordered =>
    intro d hbody
    exact (directive_in h hbody).2.2
  case comma =>
    intro d hbody front a b back hrow
    obtain ⟨hin, hread⟩ := ofPiece_of_directive h hbody
    obtain ⟨before, after, hbefore, hafter, gap, hgap, hchars, hspan⟩ :=
      Directive.exists_gap_of_ofPiece hread hrow
    refine ⟨before, after, hbefore, hafter, ?_⟩
    rw [← hspan, ← hchars]
    exact (hgap.trans (hin.trans hwhole)).covers

/-- On the second line of a text with blanks of two and three bytes, the second operand of three
is empty and a comment stands behind the last one. -/
theorem sliced_of_wide_blanks :
    ∃ (label : Label) (d : Directive),
      let text := "\u3000; \u00e9\r\nA\u2003:\u00a0dc.b\u30001,\u3000,\u00e9;x\r\n"
      let line : Line := ⟨⟨9, "A\u2003:\u00a0dc.b\u30001,\u3000,\u00e9;x".toList⟩, 2⟩
      line ∈ linesOf text ∧
        ofLine line = .ok { line, label := some label, body := .directive d } ∧
        label.span = ⟨9, 10⟩ ∧ d.span = ⟨16, 31⟩ ∧
        d.operands.map (·.span) = [⟨23, 24⟩, ⟨25, 25⟩, ⟨29, 31⟩] ∧
        Sliced text { line, label := some label, body := .directive d } := by
  have hline : (⟨⟨9, "A\u2003:\u00a0dc.b\u30001,\u3000,\u00e9;x".toList⟩, 2⟩ : Line) ∈
      linesOf "\u3000; \u00e9\r\nA\u2003:\u00a0dc.b\u30001,\u3000,\u00e9;x\r\n" := by
    have hlines : linesOf "\u3000; \u00e9\r\nA\u2003:\u00a0dc.b\u30001,\u3000,\u00e9;x\r\n" =
        [⟨⟨0, "\u3000; \u00e9".toList⟩, 1⟩,
          ⟨⟨9, "A\u2003:\u00a0dc.b\u30001,\u3000,\u00e9;x".toList⟩, 2⟩] := by
      decide +kernel
    simp [hlines]
  have h : ofLine ⟨⟨9, "A\u2003:\u00a0dc.b\u30001,\u3000,\u00e9;x".toList⟩, 2⟩ =
      .ok ⟨⟨⟨9, "A\u2003:\u00a0dc.b\u30001,\u3000,\u00e9;x".toList⟩, 2⟩, some ⟨⟨9, ['A']⟩⟩,
        .directive ⟨⟨16, "dc.b\u30001,\u3000,\u00e9".toList⟩, .byte,
          [⟨⟨23, ['1']⟩⟩, ⟨⟨25, []⟩⟩, ⟨⟨29, ['\u00e9']⟩⟩]⟩⟩ := by
    decide +kernel
  obtain ⟨-, -, hsliced⟩ := sliced_of_ofLine hline h
  exact ⟨_, _, hline, h, rfl, by decide +kernel, rfl, hsliced⟩

end Statement

end SpriteTables
