import SpriteTables.Proofs.Steps
import SpriteTables.Proofs.Text.Places
import SpriteTables.Statement

/-!
# Where the parts of a statement stand

A statement is cut out of its line, and a diagnostic of a line quotes what it cut. This module
says that all these pieces are stretches of the line (`parts_of_ofLine`, `foundIn_of_ofLine`) and
that the operands of a directive stand one after the other, with a comma and blanks between two of
them (`Directive.exists_gap_of_ofPiece`).
-/

set_option autoImplicit false

namespace SpriteTables

open Text (Piece Line isBlank)

/-! ## Diagnostics of a line -/

/-- A span is that of a stretch of a piece: it does not end before it begins, lies inside
the piece and cuts no character. -/
def Text.Span.Within (span : Text.Span) (p : Piece) : Prop :=
  ∃ q : Piece, q.In p ∧ q.span = span

theorem Text.Piece.In.within {p q : Piece} (h : p.In q) : p.span.Within q :=
  ⟨p, h, rfl⟩

/-- The text of an artifact that a cause quotes. -/
def Cause.quoted? : Cause → Option String
  | malformedLiteral text | malformedLabel text | malformedTableEntry text => some text
  | malformedDirective _ | duplicateLabel _ | truncatedRecord _ _ | unbalancedByteOperands
  | invalidRecordCount _ | trailingOperands _ | unlabelledRecord => none

/-- The label that a cause says is declared again. -/
def Cause.repeated? : Cause → Option String
  | duplicateLabel label => some label
  | malformedLiteral _ | malformedLabel _ | malformedTableEntry _ | malformedDirective _
  | truncatedRecord _ _ | unbalancedByteOperands | invalidRecordCount _ | trailingOperands _
  | unlabelledRecord => none

/-- A diagnostic points at a stretch of a line, at the text it quotes if it quotes one, and
is not about a repeated label. -/
def Diagnostic.FoundIn (d : Diagnostic) (line : Piece) : Prop :=
  d.cause.repeated? = none ∧
    ∃ q : Piece, q.In line ∧ q.span = d.primary ∧
      ∀ text, d.cause.quoted? = some text → q.text = text

section FoundIn

variable {p line : Piece} {cause : Cause} {d : Diagnostic}

/-- A diagnostic at a stretch quotes the stretch. -/
theorem Diagnostic.foundIn_of_quoted (h : p.In line) (hquoted : cause.quoted? = some p.text) :
    (Diagnostic.of p.span cause).FoundIn line := by
  refine ⟨?_, p, h, rfl, ?_⟩
  · -- what is quoted is no repeated label
    cases cause <;> simp [Diagnostic.of, Cause.repeated?, Cause.quoted?] at hquoted ⊢
  · intro text htext
    exact Option.some.inj (hquoted.symm.trans htext)

/-- A diagnostic that quotes nothing may point at any stretch. -/
theorem Diagnostic.foundIn_of_unquoted {span : Text.Span} (h : span.Within line)
    (hquoted : cause.quoted? = none) (hrepeated : cause.repeated? = none) :
    (Diagnostic.of span cause).FoundIn line := by
  obtain ⟨q, hq, hspan⟩ := h
  refine ⟨hrepeated, q, hq, hspan, ?_⟩
  intro text htext
  have hnone : some text = none := htext.symm.trans hquoted
  cases hnone

theorem Diagnostic.FoundIn.trans {q : Piece} (h : d.FoundIn line) (hline : line.In q) :
    d.FoundIn q := by
  obtain ⟨hrepeated, r, hr, hspan, hquoted⟩ := h
  exact ⟨hrepeated, r, hr.trans hline, hspan, hquoted⟩

end FoundIn

/-! ## Directives -/

section Directives

variable {p : Piece} {directive : Directive} {e : Diagnostic}

theorem Text.Piece.stop_in (p : Piece) : Piece.In ⟨p.span.stop, []⟩ p :=
  ⟨p.chars, [], by simp, rfl⟩

/-- The keyword and the operands of a directive are stretches of it. -/
theorem in_of_getD_cutAt {test : Char → Bool} {keyword operands : Piece}
    (h : (p.cutAt test).getD (p, ⟨p.span.stop, []⟩) = (keyword, operands)) :
    keyword.In p ∧ operands.In p := by
  cases hcut : p.cutAt test with
  | none =>
      rw [hcut] at h
      cases h
      exact ⟨Piece.In.refl p, p.stop_in⟩
  | some parts =>
      rw [hcut] at h
      cases h
      exact Piece.in_of_cutAt hcut

/-- A directive is the piece it was read from, and its operands are what trimming leaves of the
pieces between the commas of a stretch of it. -/
theorem Directive.exists_splitOn_of_ofPiece (h : Directive.ofPiece p = .ok directive) :
    directive.toPiece = p ∧ ∃ rest : Piece, rest.In p ∧
      directive.operands = (rest.splitOn ',').map fun piece => ⟨piece.trim⟩ := by
  rw [ofPiece] at h
  generalize hparts : (p.cutAt isBlank).getD (p, ⟨p.span.stop, []⟩) = parts at h
  obtain ⟨keyword, operands⟩ := parts
  obtain ⟨-, hoperands⟩ := in_of_getD_cutAt hparts
  simp only at h
  split at h
  · cases h
  · split at h
    · cases h
    · cases h
      exact ⟨rfl, operands, hoperands, rfl⟩

/-- Its operands are stretches of it, one after the other. -/
theorem Directive.parts_of_ofPiece (h : Directive.ofPiece p = .ok directive) :
    directive.toPiece = p ∧ (∀ o ∈ directive.operands, o.toPiece.In p) ∧
      directive.operands.Pairwise fun a b => a.toPiece.Before b.toPiece := by
  obtain ⟨hpiece, rest, hrest, hoperands⟩ := exists_splitOn_of_ofPiece h
  rw [hoperands]
  refine ⟨hpiece, ?_, ?_⟩
  · intro o ho
    obtain ⟨piece, hmem, rfl⟩ := List.mem_map.mp ho
    exact piece.trim_in.trans ((Piece.in_of_mem_splitOn hmem).trans hrest)
  · apply List.pairwise_map.mpr
    apply (Piece.pairwise_before_splitOn rest).imp
    intro a b hab
    exact hab.of_in a.trim_in b.trim_in

/-- Between two operands in a row there are a comma and blanks. -/
theorem Directive.exists_gap_of_ofPiece (h : Directive.ofPiece p = .ok directive)
    {front back : List Operand} {a b : Operand}
    (hrow : directive.operands = front ++ a :: b :: back) :
    ∃ before after, Text.Blanks before ∧ Text.Blanks after ∧
      ∃ gap : Piece, gap.In p ∧ gap.chars = before ++ ',' :: after ∧
        gap.span = ⟨a.span.stop, b.span.start⟩ := by
  obtain ⟨-, rest, hrest, hoperands⟩ := exists_splitOn_of_ofPiece h
  rw [hoperands] at hrow
  obtain ⟨front', tail, hsplit, -, htail⟩ := List.map_eq_append_iff.mp hrow
  obtain ⟨a', tail', rfl, rfl, htail'⟩ := List.map_eq_cons_iff.mp htail
  obtain ⟨b', back', rfl, rfl, -⟩ := List.map_eq_cons_iff.mp htail'
  obtain ⟨before, after, hbefore, hafter, gap, hgap, hchars, hspan⟩ :=
    Piece.exists_gap_of_splitOn hsplit
  exact ⟨before, after, hbefore, hafter, gap, hgap.trans hrest, hchars, hspan⟩

/-- A piece that is no directive is reported at a stretch of it. -/
theorem Directive.foundIn_of_ofPiece (h : Directive.ofPiece p = .error e) :
    e.FoundIn p ∧ e.related = [] := by
  rw [ofPiece] at h
  generalize hparts : (p.cutAt isBlank).getD (p, ⟨p.span.stop, []⟩) = parts at h
  obtain ⟨keyword, operands⟩ := parts
  obtain ⟨hkeyword, -⟩ := in_of_getD_cutAt hparts
  simp only at h
  split at h
  · cases h
    exact ⟨Diagnostic.foundIn_of_unquoted hkeyword.within rfl rfl, rfl⟩
  · split at h
    · cases h
      exact ⟨Diagnostic.foundIn_of_unquoted (Piece.In.refl p).within rfl rfl, rfl⟩
    · cases h

end Directives

/-! ## Lines -/

namespace Statement

section Lines

variable {p : Piece} {line : Line} {s : Statement} {e : Diagnostic}

/-- A line with a label is a label before a colon and a body after it, and any other line
is a body alone. -/
theorem ofLine_eq (line : Line) :
    ofLine line =
      if isLabelled (contentOf line.toPiece) then
        match (contentOf line.toPiece).cutAt (· == ':') with
        | none =>
            .error (((Diagnostic.of (contentOf line.toPiece).span (.malformedLabel
              (contentOf line.toPiece).text)).advise .labelForm).advise .indentDirectives)
        | some (name, rest) =>
            (ofLabel name.trimEnd).bind fun label =>
              (ofBody rest.trimStart).bind fun body => .ok { line, label := some label, body }
      else
        (ofBody (contentOf line.toPiece).trimStart).bind fun body => .ok { line, body } :=
  rfl

theorem contentOf_in (p : Piece) : (contentOf p).In p :=
  (Piece.trimEnd_in _).trans (Piece.takeWhile_in _ p)

/-- A label is the piece it was read from. -/
theorem ofLabel_eq_ok {label : Label} (h : ofLabel p = .ok label) : label.toPiece = p := by
  rw [ofLabel] at h
  split at h
  · cases h
    rfl
  · cases h

theorem foundIn_of_ofLabel (h : ofLabel p = .error e) : e.FoundIn p ∧ e.related = [] := by
  rw [ofLabel] at h
  split at h
  · cases h
  · cases h
    exact ⟨Diagnostic.foundIn_of_quoted (Piece.In.refl p) rfl, rfl⟩

/-- The directive of a body is the whole body. -/
theorem ofBody_eq_directive {directive : Directive} (h : ofBody p = .ok (.directive directive)) :
    Directive.ofPiece p = .ok directive := by
  rw [ofBody] at h
  split at h
  · cases h
  · split at h
    · cases h
    · cases hdirective : Directive.ofPiece p with
      | error e =>
          rw [hdirective] at h
          cases h
      | ok found =>
          rw [hdirective] at h
          cases h
          rfl

theorem foundIn_of_ofBody (h : ofBody p = .error e) : e.FoundIn p ∧ e.related = [] := by
  rw [ofBody] at h
  split at h
  · cases h
  · split at h
    · cases h
    · cases hdirective : Directive.ofPiece p with
      | error e' =>
          rw [hdirective] at h
          cases h
          exact Directive.foundIn_of_ofPiece hdirective
      | ok found =>
          rw [hdirective] at h
          cases h

/-- The parts of a statement were read from stretches of its line. -/
theorem parts_of_ofLine (h : ofLine line = .ok s) :
    s.line = line ∧ (∀ label, s.label = some label → label.toPiece.In line.toPiece) ∧
      ∃ rest : Piece, rest.In line.toPiece ∧ ofBody rest = .ok s.body := by
  have hcontent := contentOf_in line.toPiece
  rw [ofLine_eq] at h
  split at h
  · split at h
    · cases h
    · next name rest hcut =>
        obtain ⟨hname, hrest⟩ := Piece.in_of_cutAt hcut
        obtain ⟨label, hlabel, h⟩ := bind_eq_ok_iff.mp h
        obtain ⟨body, hbody, h⟩ := bind_eq_ok_iff.mp h
        cases h
        refine ⟨rfl, ?_, rest.trimStart, rest.trimStart_in.trans (hrest.trans hcontent), hbody⟩
        intro found hfound
        cases hfound
        rw [ofLabel_eq_ok hlabel]
        exact name.trimEnd_in.trans (hname.trans hcontent)
  · obtain ⟨body, hbody, h⟩ := bind_eq_ok_iff.mp h
    cases h
    refine ⟨rfl, ?_, _, (contentOf line.toPiece).trimStart_in.trans hcontent, hbody⟩
    intro found hfound
    cases hfound

/-- The label of a line is a stretch of it. -/
theorem label_in (h : ofLine line = .ok s) {label : Label} (hlabel : s.label = some label) :
    label.toPiece.In line.toPiece :=
  (parts_of_ofLine h).2.1 label hlabel

/-- The directive of a line is a stretch of it, and was read from that stretch. -/
theorem ofPiece_of_directive (h : ofLine line = .ok s) {directive : Directive}
    (hbody : s.body = .directive directive) :
    directive.toPiece.In line.toPiece ∧ Directive.ofPiece directive.toPiece = .ok directive := by
  obtain ⟨-, -, rest, hrest, hread⟩ := parts_of_ofLine h
  rw [hbody] at hread
  have hpiece := ofBody_eq_directive hread
  obtain ⟨rfl, -⟩ := Directive.parts_of_ofPiece hpiece
  exact ⟨hrest, hpiece⟩

/-- The directive of a line is a stretch of it, and its operands are stretches of it, one
after the other. -/
theorem directive_in (h : ofLine line = .ok s) {directive : Directive}
    (hbody : s.body = .directive directive) :
    directive.toPiece.In line.toPiece ∧ (∀ o ∈ directive.operands, o.toPiece.In line.toPiece) ∧
      directive.operands.Pairwise fun a b => a.toPiece.Before b.toPiece := by
  obtain ⟨hin, hread⟩ := ofPiece_of_directive h hbody
  obtain ⟨-, hoperands, hordered⟩ := Directive.parts_of_ofPiece hread
  exact ⟨hin, fun o ho => (hoperands o ho).trans hin, hordered⟩

/-- A line that is no statement is reported at a stretch of it. -/
theorem foundIn_of_ofLine (h : ofLine line = .error e) :
    e.FoundIn line.toPiece ∧ e.related = [] := by
  have hcontent := contentOf_in line.toPiece
  rw [ofLine_eq] at h
  split at h
  · split at h
    · cases h
      exact ⟨Diagnostic.foundIn_of_quoted hcontent rfl, rfl⟩
    · next name rest hcut =>
        obtain ⟨hname, hrest⟩ := Piece.in_of_cutAt hcut
        rcases bind_eq_error_iff.mp h with hlabel | ⟨label, -, h⟩
        · obtain ⟨hfound, hrelated⟩ := foundIn_of_ofLabel hlabel
          exact ⟨hfound.trans (name.trimEnd_in.trans (hname.trans hcontent)), hrelated⟩
        · rcases bind_eq_error_iff.mp h with hbody | ⟨body, -, h⟩
          · obtain ⟨hfound, hrelated⟩ := foundIn_of_ofBody hbody
            exact ⟨hfound.trans (rest.trimStart_in.trans (hrest.trans hcontent)), hrelated⟩
          · cases h
  · rcases bind_eq_error_iff.mp h with hbody | ⟨body, -, h⟩
    · obtain ⟨hfound, hrelated⟩ := foundIn_of_ofBody hbody
      exact ⟨hfound.trans ((Piece.trimStart_in _).trans hcontent), hrelated⟩
    · cases h

end Lines

end Statement

end SpriteTables
