import SpriteTables.Proofs.Guarded.Lines
import SpriteTables.Proofs.Statement.Places

/-!
# Statements, with places computed by offsets

A statement is read from a line by cutting it at byte offsets, and the places of its parts are
computed: the distance of a part from the start of its line is added to the offset at which the
line begins. This module reads statements that way, with checked cuts, differences and sums. On a
line whose end is an address it never faults (`ofLine_eq`).
-/

set_option autoImplicit false

namespace SpriteTables.Guarded

open Text (Span Piece Line byteSize isBlank isAllBlank)

/-! ## Comments -/

/-- A piece up to its first semicolon, cut at a byte offset. -/
def codeOf (p : Piece) : Checked Piece :=
  match offsetOf? ';' p.chars with
  | none => .ok p
  | some offset => do
      let chars ← sliceTo p.chars offset
      return ⟨p.start, chars⟩

/-- A piece without its comment and without trailing blanks. -/
def contentOf (p : Piece) : Checked Piece := do
  let code ← codeOf p
  return code.trimEnd

section Content

/-- A comment begins between two characters. -/
theorem codeOf_eq (p : Piece) : codeOf p = .ok (SpriteTables.codeOf p) := by
  rw [codeOf, SpriteTables.codeOf, Piece.takeWhile]
  by_cases hmem : ';' ∈ p.chars
  · obtain ⟨chars, rest, hsplit, hchars⟩ := List.eq_append_cons_of_mem hmem
    have hpass : ∀ c ∈ chars, (c != ';') = true := by
      intro c hc
      have hne : c ≠ ';' := fun heq => hchars (heq ▸ hc)
      simpa using hne
    rw [hsplit, offsetOf?_append hchars, List.takeWhile_append_of_pos hpass,
      List.takeWhile_cons_of_neg (by simp), List.append_nil]
    simp only [sliceTo_eq rfl, ok_bind]
    rfl
  · have hpass : ∀ c ∈ p.chars, (c != ';') = true := by
      intro c hc
      have hne : c ≠ ';' := fun heq => hmem (heq ▸ hc)
      simpa using hne
    rw [offsetOf?_of_not_mem hmem, List.takeWhile_eq_self_iff.mpr hpass]

theorem contentOf_eq (p : Piece) : contentOf p = .ok (SpriteTables.contentOf p) := by
  rw [contentOf, codeOf_eq, ok_bind]
  rfl

end Content

/-! ## Places -/

/-- A part of a span, by its distances from the start. -/
def narrow (span : Span) (start stop : Nat) : Checked Span := do
  let start ← add span.start start
  let stop ← add span.start stop
  return ⟨start, stop⟩

/-- The place of a part of a line, by its distance from the start of the line. -/
def placeIn (line part : Piece) : Checked Span := do
  let start ← sub part.start line.start
  let stop ← add start (byteSize part.chars)
  narrow line.span start stop

section Places

variable {line p : Piece}

theorem narrow_eq {span : Span} {size : Nat} (h : span.start + size < sizeBound) :
    narrow span 0 size = .ok ⟨span.start, span.start + size⟩ := by
  rw [narrow, add_eq (by omega), ok_bind, add_eq h, ok_bind]
  rfl

/-- The beginning of a piece is placed where it stands. -/
theorem narrow_of_in (h : p.In line) (hstart : p.start = line.start)
    (hline : line.span.stop < sizeBound) :
    narrow line.span 0 (byteSize p.chars) = .ok p.span := by
  have hstop := h.stop_le
  simp only [Piece.span, hstart] at hstop hline ⊢
  exact narrow_eq (by simp only; omega)

/-- A stretch of a line is placed where it stands. -/
theorem placeIn_eq (h : p.In line) (hline : line.span.stop < sizeBound) :
    placeIn line p = .ok p.span := by
  have hstart := h.start_le
  have hstop := h.stop_le
  simp only [Piece.span] at hstop hline
  rw [placeIn, sub_eq hstart, ok_bind, add_eq (by omega), ok_bind, narrow, Piece.span,
    add_eq (by simp only; omega), ok_bind, add_eq (by simp only; omega), ok_bind]
  simp only [Piece.span, pure, Except.pure, Except.ok.injEq, Span.mk.injEq]
  omega

end Places

/-! ## The parts of a line -/

/-- Reads the name in front of a colon, which begins the line. -/
def ofLabel (line name : Piece) : Step Label := do
  let span ← narrow line.span 0 (byteSize name.chars)
  if isIdentifier name.chars then return ⟨⟨span.start, name.chars⟩⟩
  else throwThe Diagnostic (.of span (.malformedLabel name.text))

/-- Reads an operand between commas. One of blanks alone stands where the blanks begin. -/
def ofOperand (line piece : Piece) : Checked Operand := do
  let part := if piece.trim.chars = [] then piece else piece.trim
  let span ← placeIn line ⟨part.start, piece.trim.chars⟩
  return ⟨⟨span.start, piece.trim.chars⟩⟩

/-- Reads the operands between commas. -/
def ofOperands (line rest : Piece) : Checked (List Operand) :=
  (rest.splitOn ',').mapM (ofOperand line)

/-- The keyword of a directive and what stands behind it. -/
def partsOf (p : Piece) : Piece × Piece :=
  (p.cutAt isBlank).getD (p, ⟨p.span.stop, []⟩)

/-- Reads a directive on a line. -/
def ofPiece (line p : Piece) : Step Directive := do
  let span ← placeIn line p
  match Width.ofKeyword? (partsOf p).1.text with
  | none => do
      let keyword ← narrow span 0 (byteSize (partsOf p).1.chars)
      throwThe Diagnostic ((Diagnostic.of keyword
        (.malformedDirective (.unknownKeyword (partsOf p).1.text))).advise .knownKeywords)
  | some width =>
      if isAllBlank (partsOf p).2.chars then
        throwThe Diagnostic (.of span (.malformedDirective (.noOperands (partsOf p).1.text)))
      else do
        let operands ← ofOperands line (partsOf p).2
        return { start := span.start, chars := p.chars, width, operands }

/-- Reads what stands after the label. -/
def ofBody (line p : Piece) : Step Body :=
  if p.chars = [] then return .empty
  else if p.chars = sentinelWord then return .sentinel
  else do
    let directive ← ofPiece line p
    return .directive directive

/-- Reads one line. -/
def ofLine (line : Line) : Step Statement := do
  let content ← contentOf line.toPiece
  if Statement.isLabelled content then
    match content.cutAt (· == ':') with
    | none => do
        let span ← narrow line.span 0 (byteSize content.chars)
        throwThe Diagnostic (((Diagnostic.of span (.malformedLabel content.text)).advise
          .labelForm).advise .indentDirectives)
    | some (name, rest) => do
        let label ← ofLabel line.toPiece name.trimEnd
        let body ← ofBody line.toPiece rest.trimStart
        return { line, label := some label, body }
  else do
    let body ← ofBody line.toPiece content.trimStart
    return { line, body }

section Parts

variable {line p : Piece}

theorem ofLabel_eq (h : p.In line) (hstart : p.start = line.start)
    (hline : line.span.stop < sizeBound) :
    (ofLabel line p).run = .ok (Statement.ofLabel p) := by
  rw [ofLabel, run_lift_bind_eq (narrow_of_in h hstart hline), Statement.ofLabel]
  split <;> rfl

/-- A piece of blanks alone leaves an empty one at its start. -/
theorem trim_start_of_blank (h : p.trim.chars = []) : p.trim.start = p.start := by
  have hend : Text.trimEnd p.chars = [] := by
    have hblank : ∀ c ∈ Text.trimEnd p.chars, isBlank c = true := List.dropWhile_eq_nil_iff.mp h
    cases hrest : p.chars.reverse.dropWhile isBlank with
    | nil => rw [Text.trimEnd, hrest, List.reverse_nil]
    | cons last rest =>
        have hlast : isBlank last = false := by
          have hhead := List.head?_dropWhile_not isBlank p.chars.reverse
          rwa [hrest, List.head?_cons] at hhead
        rw [hblank last (by simp [Text.trimEnd, hrest])] at hlast
        cases hlast
  rw [Piece.trim, Piece.trimStart, Piece.dropWhile, Piece.trimEnd, hend]
  rfl

theorem ofOperand_eq (h : p.In line) (hline : line.span.stop < sizeBound) :
    ofOperand line p = .ok ⟨p.trim⟩ := by
  have hstart : (if p.trim.chars = [] then p else p.trim).start = p.trim.start := by
    split
    · next hblank => exact (trim_start_of_blank hblank).symm
    · rfl
  have hplace := placeIn_eq (p.trim_in.trans h) hline
  rw [ofOperand, hstart, hplace, ok_bind]
  rfl

theorem ofOperands_eq (h : p.In line) (hline : line.span.stop < sizeBound) :
    ofOperands line p = .ok ((p.splitOn ',').map fun piece => ⟨piece.trim⟩) := by
  apply mapM_eq
  intro piece hpiece
  exact ofOperand_eq ((Piece.in_of_mem_splitOn hpiece).trans h) hline

theorem partsOf_in (p : Piece) : (partsOf p).1.In p ∧ (partsOf p).2.In p :=
  in_of_getD_cutAt rfl

/-- The keyword begins the directive. -/
theorem partsOf_start (p : Piece) : (partsOf p).1.start = p.start := by
  rw [partsOf]
  cases hcut : p.cutAt isBlank with
  | none => rfl
  | some parts =>
      obtain ⟨keyword, rest⟩ := parts
      obtain ⟨rfl, -⟩ := Piece.cutAt_eq_some hcut
      rfl

theorem ofPiece_eq (h : p.In line) (hline : line.span.stop < sizeBound) :
    (ofPiece line p).run = .ok (Directive.ofPiece p) := by
  obtain ⟨hkeyword, hoperands⟩ := partsOf_in p
  have hpiece : p.span.stop < sizeBound := Nat.lt_of_le_of_lt h.stop_le hline
  rw [ofPiece, run_lift_bind_eq (placeIn_eq h hline), Directive.ofPiece, ← partsOf]
  cases hwidth : Width.ofKeyword? (partsOf p).1.text with
  | none =>
      simp only [hwidth]
      rw [run_lift_bind_eq (narrow_of_in hkeyword (partsOf_start p) hpiece)]
      rfl
  | some width =>
      simp only [hwidth]
      split
      · rfl
      · rw [run_lift_bind_eq (ofOperands_eq (hoperands.trans h) hline)]
        rfl

theorem ofBody_eq (h : p.In line) (hline : line.span.stop < sizeBound) :
    (ofBody line p).run = .ok (Statement.ofBody p) := by
  rw [ofBody, Statement.ofBody]
  split
  · rfl
  · split
    · rfl
    · exact run_map_eq Body.directive (ofPiece_eq h hline)

end Parts

/-- No line whose end is an address makes reading it fault. -/
theorem ofLine_eq {line : Line} (hline : line.span.stop < sizeBound) :
    (ofLine line).run = .ok (Statement.ofLine line) := by
  have hcontent := Statement.contentOf_in line.toPiece
  rw [ofLine, run_lift_bind_eq (contentOf_eq line.toPiece), Statement.ofLine_eq]
  split
  · cases hcut : (SpriteTables.contentOf line.toPiece).cutAt (· == ':') with
    | none =>
        rw [run_lift_bind_eq (narrow_of_in hcontent rfl hline)]
        rfl
    | some parts =>
        obtain ⟨name, rest⟩ := parts
        obtain ⟨hname, hrest⟩ := Piece.in_of_cutAt hcut
        obtain ⟨hbegin, -⟩ := Piece.cutAt_eq_some hcut
        have hstart : name.trimEnd.start = line.start := by
          rw [hbegin]
          rfl
        apply run_bind_eq (ofLabel_eq (name.trimEnd_in.trans (hname.trans hcontent)) hstart hline)
        intro label _
        apply run_bind_eq (ofBody_eq (rest.trimStart_in.trans (hrest.trans hcontent)) hline)
        intro body _
        rfl
  · apply run_bind_eq (ofBody_eq ((Piece.trimStart_in _).trans hcontent) hline)
    intro body _
    rfl

end SpriteTables.Guarded
