import SpriteTables.Proofs.Statement.Places
import SpriteTables.Record.Reading

/-!
# Where the operands of a record stand

A record may be spread over many lines, and a diagnostic about it can point back to a line read
long before: to the operand read last, or to a byte that waits for its partner. This module says
that a reading keeps only spans of lines that it has read (`Reading.Placed`, `placed_resume`), and
that every diagnostic about a record points at such lines (`placedOn_of_resume`,
`placedOn_cutOff`).
-/

set_option autoImplicit false

namespace SpriteTables

open Text (Span Line Piece)

/-! ## Spans and diagnostics on lines -/

/-- A span is that of a stretch of one of some lines. -/
def Text.Span.OnLines (lines : List Line) (span : Span) : Prop :=
  ∃ line ∈ lines, span.Within line.toPiece

/-- A diagnostic points at stretches of some lines, at the text it quotes if it quotes one, and is
not about a repeated label. -/
structure Diagnostic.PlacedOn (lines : List Line) (d : Diagnostic) : Prop where
  found : ∃ line ∈ lines, d.FoundIn line.toPiece
  related : ∀ r ∈ d.related, r.span.OnLines lines

section Placing

variable {lines more : List Line} {line : Line} {span : Span} {d : Diagnostic}

theorem Text.Span.OnLines.mono (h : span.OnLines lines) (hsubset : lines ⊆ more) :
    span.OnLines more := by
  obtain ⟨line, hline, hwithin⟩ := h
  exact ⟨line, hsubset hline, hwithin⟩

theorem Text.Piece.In.onLines {p : Piece} (h : p.In line.toPiece) (hline : line ∈ lines) :
    p.span.OnLines lines :=
  ⟨line, hline, h.within⟩

theorem Diagnostic.PlacedOn.mono (h : d.PlacedOn lines) (hsubset : lines ⊆ more) :
    d.PlacedOn more := by
  obtain ⟨line, hline, hfound⟩ := h.found
  exact ⟨⟨line, hsubset hline, hfound⟩, fun r hr => (h.related r hr).mono hsubset⟩

/-- A diagnostic of one line alone. -/
theorem Diagnostic.FoundIn.placedOn (h : d.FoundIn line.toPiece) (hrelated : d.related = [])
    (hline : line ∈ lines) : d.PlacedOn lines := by
  refine ⟨⟨line, hline, h⟩, ?_⟩
  intro r hr
  rw [hrelated] at hr
  cases hr

/-- A bare diagnostic that quotes nothing may point at any stretch of a line. -/
theorem Diagnostic.placedOn_of {cause : Cause} (h : span.OnLines lines)
    (hquoted : cause.quoted? = none) (hrepeated : cause.repeated? = none) :
    (Diagnostic.of span cause).PlacedOn lines := by
  obtain ⟨line, hline, hwithin⟩ := h
  exact (foundIn_of_unquoted hwithin hquoted hrepeated).placedOn rfl hline

theorem Diagnostic.PlacedOn.advise (h : d.PlacedOn lines) (hint : Hint) :
    (d.advise hint).PlacedOn lines :=
  ⟨h.found, h.related⟩

theorem Diagnostic.PlacedOn.relate (h : d.PlacedOn lines) (hspan : span.OnLines lines)
    (relation : Relation) : (d.relate span relation).PlacedOn lines := by
  refine ⟨h.found, ?_⟩
  intro r hr
  rcases List.mem_append.mp hr with hr | hr
  · exact h.related r hr
  · rw [List.mem_singleton.mp hr]
    exact hspan

end Placing

/-! ## Operands -/

namespace Operand

variable {o : Operand} {width : Width} {e : Diagnostic}

/-- An operand that is no number of its width is quoted. -/
theorem foundIn_of_bounded (h : o.bounded width = .error e) :
    e.FoundIn o.toPiece ∧ e.related = [] := by
  rw [bounded] at h
  split at h
  · cases h
    exact ⟨Diagnostic.foundIn_of_quoted (Piece.In.refl _) rfl, rfl⟩
  · split at h
    · cases h
    · cases h
      exact ⟨Diagnostic.foundIn_of_quoted (Piece.In.refl _) rfl, rfl⟩

end Operand

/-! ## Readings -/

namespace Reading

/-- The spans that a reading keeps, of the operand read last and of a byte that waits for its
partner, are those of stretches of some lines. -/
structure Placed (lines : List Line) (r : Reading) : Prop where
  last : r.last.OnLines lines
  half : ∀ high, r.half = some high → high.span.OnLines lines

section Placed

variable {entrySize : Nat} {lines : List Line} {line : Line} {r next : Reading} {width : Width}
  {o : Operand} {e : Diagnostic}

theorem Placed.mono {more : List Line} (h : r.Placed lines) (hsubset : lines ⊆ more) :
    r.Placed more :=
  ⟨h.last.mono hsubset, fun high hhigh => (h.half high hhigh).mono hsubset⟩

/-- Without a byte that waits only the last span counts. -/
theorem placed_of_last (h : r.last.OnLines lines) (hhalf : r.half = none) : r.Placed lines := by
  refine ⟨h, ?_⟩
  intro high hhigh
  rw [hhalf] at hhigh
  cases hhigh

theorem placed_begin {directive : Directive} (h : directive.toPiece.In line.toPiece)
    (hline : line ∈ lines) : (begin directive).Placed lines :=
  placed_of_last (h.onLines hline) rfl

/-! ### Words -/

/-- A word changes none of the spans. -/
theorem placed_push (h : r.Placed lines) {word : Int16} (hpush : push entrySize r word = .ok next) :
    next.Placed lines := by
  rw [push] at hpush
  split at hpush
  · cases hpush
    exact ⟨h.last, h.half⟩
  · split at hpush
    · cases hpush
    · split at hpush
      · cases hpush
      · cases hpush
        exact ⟨h.last, h.half⟩

theorem placedOn_of_push (h : r.Placed lines) {word : Int16}
    (hpush : push entrySize r word = .error e) : e.PlacedOn lines := by
  rw [push] at hpush
  split at hpush
  · cases hpush
  · split at hpush
    · cases hpush
      exact (Diagnostic.placedOn_of h.last rfl rfl).advise _
    · split at hpush
      · cases hpush
        exact (Diagnostic.placedOn_of h.last rfl rfl).advise _
      · cases hpush

/-! ### Diagnostics of a reading -/

theorem placedOn_unbalanced {high : HighByte} (h : high.span.OnLines lines) :
    (unbalanced high).PlacedOn lines :=
  (Diagnostic.placedOn_of h rfl rfl).advise _

theorem placedOn_truncated (h : r.Placed lines) : r.truncated.PlacedOn lines :=
  Diagnostic.placedOn_of h.last rfl rfl

/-- The place of a record that is interrupted may be on an earlier line than the
interruption. -/
theorem placedOn_interrupted (h : r.Placed lines) {span : Span} (hspan : span.OnLines lines) :
    (r.interrupted span).PlacedOn lines := by
  rw [interrupted]
  split
  · next high hhigh => exact (placedOn_unbalanced (h.half high hhigh)).relate hspan _
  · exact (placedOn_truncated h).relate hspan _

theorem placedOn_cutOff (h : r.Placed lines) : r.cutOff.PlacedOn lines := by
  rw [cutOff]
  split
  · next high hhigh => exact (placedOn_unbalanced (h.half high hhigh)).advise _
  · exact (placedOn_truncated h).advise _

/-- The operands left over on a line make one stretch of it. -/
theorem placedOn_leftOver (h : r.Placed lines) (hline : line ∈ lines) {rest : List Operand}
    (hoperands : ∀ p ∈ o :: rest, p.toPiece.In line.toPiece)
    (hordered : (o :: rest).Pairwise fun a b => a.toPiece.Before b.toPiece) :
    (r.leftOver o rest).PlacedOn lines := by
  have hmem := List.getLast_mem (List.cons_ne_nil o rest)
  have hle : o.span.start ≤ ((o :: rest).getLast (List.cons_ne_nil o rest)).span.stop := by
    rcases List.mem_cons.mp hmem with heq | hmem'
    · rw [heq]
      exact o.start_le_stop
    · have hbefore := (List.pairwise_cons.mp hordered).1 _ hmem'
      have hstop := ((o :: rest).getLast (List.cons_ne_nil o rest)).start_le_stop
      have hstart := o.start_le_stop
      exact Nat.le_trans hstart (Nat.le_trans (Nat.le_of_lt hbefore) hstop)
  obtain ⟨hull, hin, hspan⟩ :=
    (hoperands o List.mem_cons_self).exists_hull (hoperands _ hmem) hle
  rw [leftOver]
  apply Diagnostic.PlacedOn.advise
  apply Diagnostic.PlacedOn.relate _ h.last
  exact Diagnostic.placedOn_of ⟨line, hline, hull, hin, hspan⟩ rfl rfl

/-! ### Operands -/

/-- An operand leaves a reading on the lines read. -/
theorem placed_take (h : r.Placed lines) (ho : o.span.OnLines lines)
    (htake : r.take entrySize width o = .ok next) : next.Placed lines := by
  obtain ⟨last, half, header, payload, expected⟩ := r
  cases half with
  | none =>
      cases width with
      | byte =>
          obtain ⟨high, -, hnext⟩ := bind_eq_ok_iff.mp htake
          cases hnext
          refine ⟨ho, ?_⟩
          intro found hfound
          cases hfound
          exact ho
      | word =>
          obtain ⟨word, -, hpush⟩ := bind_eq_ok_iff.mp htake
          exact placed_push (placed_of_last ho rfl) hpush
  | some high =>
      cases width with
      | byte =>
          obtain ⟨low, -, hpush⟩ := bind_eq_ok_iff.mp htake
          exact placed_push (placed_of_last ho rfl) hpush
      | word => cases htake

/-- An operand that cannot be taken is reported at a line read. -/
theorem placedOn_of_take (h : r.Placed lines) (hline : line ∈ lines)
    (hin : o.toPiece.In line.toPiece) (htake : r.take entrySize width o = .error e) :
    e.PlacedOn lines := by
  have ho := hin.onLines hline
  have hnumber : ∀ width, o.bounded width = .error e → e.PlacedOn lines := by
    intro width hbounded
    obtain ⟨hfound, hrelated⟩ := Operand.foundIn_of_bounded hbounded
    exact (hfound.trans hin).placedOn hrelated hline
  obtain ⟨last, half, header, payload, expected⟩ := r
  cases half with
  | none =>
      cases width with
      | byte =>
          rcases bind_eq_error_iff.mp htake with hbyte | ⟨high, -, hnext⟩
          · exact hnumber .byte (map_eq_error_iff.mp hbyte)
          · cases hnext
      | word =>
          rcases bind_eq_error_iff.mp htake with hword | ⟨word, -, hpush⟩
          · exact hnumber .word (map_eq_error_iff.mp hword)
          · exact placedOn_of_push (placed_of_last ho rfl) hpush
  | some high =>
      cases width with
      | byte =>
          rcases bind_eq_error_iff.mp htake with hbyte | ⟨low, -, hpush⟩
          · exact hnumber .byte (map_eq_error_iff.mp hbyte)
          · exact placedOn_of_push (placed_of_last ho rfl) hpush
      | word =>
          cases htake
          exact ((placedOn_unbalanced (h.half high rfl)).relate ho _).advise _

/-! ### Lines -/

variable {operands : List Operand} {s : Statement}

theorem placed_feed (h : r.Placed lines) (hoperands : ∀ p ∈ operands, p.span.OnLines lines)
    (hfeed : r.feed entrySize width operands = .ok (.underway next)) : next.Placed lines := by
  induction operands generalizing r with
  | nil =>
      rw [feed] at hfeed
      split at hfeed
      · cases hfeed
      · cases hfeed
        exact h
  | cons o rest ih =>
      obtain ⟨ho, hrest⟩ := List.forall_mem_cons.mp hoperands
      rw [feed] at hfeed
      split at hfeed
      · cases hfeed
      · split at hfeed
        · cases hfeed
        · next htake => exact ih (placed_take h ho htake) hrest hfeed

/-- Operands of a line that cannot be taken are reported at a line read. -/
theorem placedOn_of_feed (h : r.Placed lines) (hline : line ∈ lines)
    (hoperands : ∀ p ∈ operands, p.toPiece.In line.toPiece)
    (hordered : operands.Pairwise fun a b => a.toPiece.Before b.toPiece)
    (hfeed : r.feed entrySize width operands = .error e) : e.PlacedOn lines := by
  induction operands generalizing r with
  | nil =>
      rw [feed] at hfeed
      split at hfeed <;> cases hfeed
  | cons o rest ih =>
      obtain ⟨ho, hrest⟩ := List.forall_mem_cons.mp hoperands
      rw [feed] at hfeed
      split at hfeed
      · cases hfeed
        exact placedOn_leftOver h hline hoperands hordered
      · split at hfeed
        · next htake =>
            cases hfeed
            exact placedOn_of_take h hline ho htake
        · next htake =>
            exact ih (placed_take h (ho.onLines hline) htake) hrest hordered.of_cons hfeed

theorem placed_resume (h : r.Placed lines) (hline : line ∈ lines)
    (hs : Statement.ofLine line = .ok s)
    (hresume : r.resume entrySize s = .ok (.underway next)) : next.Placed lines := by
  rw [resume] at hresume
  split at hresume
  · cases hresume
    exact h
  · next hbody =>
      obtain ⟨-, hoperands, -⟩ := Statement.directive_in hs hbody
      exact placed_feed h (fun p hp => (hoperands p hp).onLines hline) hresume
  · cases hresume

/-- A line that cannot go on with a record is reported at a line read. -/
theorem placedOn_of_resume (h : r.Placed lines) (hline : line ∈ lines)
    (hs : Statement.ofLine line = .ok s) (hresume : r.resume entrySize s = .error e) :
    e.PlacedOn lines := by
  rw [resume] at hresume
  split at hresume
  · cases hresume
  · next hbody =>
      obtain ⟨-, hoperands, hordered⟩ := Statement.directive_in hs hbody
      exact placedOn_of_feed h hline hoperands hordered hresume
  · cases hresume
    apply placedOn_interrupted h
    rw [(Statement.parts_of_ofLine hs).1]
    exact (Piece.In.refl line.toPiece).onLines hline

end Placed

end Reading

end SpriteTables
