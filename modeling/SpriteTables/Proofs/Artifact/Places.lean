import SpriteTables.Proofs.Artifact.History
import SpriteTables.Proofs.Record.Places

/-!
# Where the parts of an artifact stand

A draft keeps spans for later diagnostics: of the labels that wait or are bound, of the operands
that declare entries, and of the record that is being read. All of them are stretches of lines
that have been read, and a label that is bound stands before every label that still waits
(`Placed`, `Reaches.placed`). So a diagnostic points at lines that have been read, or it is about
an entry or a label that was there before (`failed_of_tables`, `failed_of_records`); and what was
there first stands before what the diagnostic complains of.
-/

set_option autoImplicit false

namespace SpriteTables

open Text (Span Line Piece)

namespace Draft

/-- The spans that a draft keeps are those of stretches of some lines: of the labels that wait or
are bound, of the operands that have declared entries, and of the record that is being read.
Labels that are bound stand before those that wait. -/
structure Placed (lines : List Line) (d : Draft) : Prop where
  pending : ∀ label ∈ d.pending, ∃ line ∈ lines, label.toPiece.In line.toPiece
  bound : ∀ b ∈ d.bindings, b.first.OnLines lines
  declared : ∀ e ∈ d.declared, e.span.OnLines lines
  underway : ∀ start r, d.underway = some (start, r) → start.OnLines lines ∧ r.Placed lines
  ordered : ∀ b ∈ d.bindings, ∀ label ∈ d.pending, b.first.stop ≤ label.start

variable {entrySize : Nat} {d next : Draft} {lines done : List Line} {line : Line}
  {verdict : Verdict} {start : Span}

theorem placed_start (entrySize : Nat) : Placed [] { entrySize } where
  pending _ h := absurd h List.not_mem_nil
  bound _ h := absurd h List.not_mem_nil
  declared _ h := absurd h List.not_mem_nil
  underway _ _ h := by cases h
  ordered _ h := absurd h List.not_mem_nil

section Steps

theorem Placed.mono {more : List Line} (h : d.Placed lines) (hsubset : lines ⊆ more) :
    d.Placed more where
  pending label hlabel := by
    obtain ⟨line, hline, hin⟩ := h.pending label hlabel
    exact ⟨line, hsubset hline, hin⟩
  bound b hb := (h.bound b hb).mono hsubset
  declared e he := (h.declared e he).mono hsubset
  underway start r hunderway :=
    ⟨(h.underway start r hunderway).1.mono hsubset, (h.underway start r hunderway).2.mono hsubset⟩
  ordered := h.ordered

/-- What stands on some lines ends before a later line begins. -/
theorem stop_le_of_onLines {span : Span} (h : span.OnLines done)
    (hbefore : ∀ other ∈ done, other.toPiece.Before line.toPiece) : span.stop ≤ line.start := by
  obtain ⟨other, hother, q, hq, rfl⟩ := h
  exact Nat.le_of_lt (Nat.lt_of_le_of_lt hq.stop_le (hbefore other hother))

/-! ## Labels and tables -/

/-- The label of the next line stands behind all that was read. -/
theorem placed_labelled (h : d.Placed done)
    (hbefore : ∀ other ∈ done, other.toPiece.Before line.toPiece) {label : Option Label}
    (hlabel : ∀ l, label = some l → l.toPiece.In line.toPiece) :
    (d.labelled label).Placed (done ++ [line]) := by
  have hmore := h.mono (List.subset_append_left done [line])
  have hline : line ∈ done ++ [line] := by simp
  cases label with
  | none => exact hmore
  | some label =>
      have hin := hlabel label rfl
      have hbehind : ∀ b ∈ d.bindings, b.first.stop ≤ label.start := fun b hb =>
        Nat.le_trans (stop_le_of_onLines (h.bound b hb) hbefore) hin.start_le
      rw [labelled, declareLabel]
      split
      · refine { hmore with pending := ?_, ordered := ?_ }
        · intro l hl
          rcases List.mem_append.mp hl with hl | hl
          · exact hmore.pending l hl
          · rw [List.mem_singleton.mp hl]
            exact ⟨line, hline, hin⟩
        · intro b hb l hl
          rcases List.mem_append.mp hl with hl | hl
          · exact h.ordered b hb l hl
          · rw [List.mem_singleton.mp hl]
            exact hbehind b hb
      · refine { hmore with pending := ?_, ordered := ?_ }
        · intro l hl
          rw [List.mem_singleton.mp hl]
          exact ⟨line, hline, hin⟩
        · intro b hb l hl
          rw [List.mem_singleton.mp hl]
          exact hbehind b hb

/-- An entry keeps the span of the operand that declares it. -/
theorem exists_operand_of_mem_news {operands : List Operand} {news : List Declaration}
    (h : operands.map declarationOf? = news.map some) {e : Declaration} (he : e ∈ news) :
    ∃ o ∈ operands, e.span = o.span := by
  have hmem : some e ∈ operands.map declarationOf? := by
    rw [h]
    exact List.mem_map_of_mem he
  obtain ⟨o, ho, hdeclares⟩ := List.mem_map.mp hmem
  obtain ⟨names, -, rfl⟩ := Option.map_eq_some_iff.mp hdeclares
  exact ⟨o, ho, rfl⟩

theorem placed_declareOffsets (h : d.Placed lines) {directive : Directive}
    (hoperands : ∀ o ∈ directive.operands, o.span.OnLines lines)
    (hdeclare : d.declareOffsets directive = .ok next) : next.Placed lines := by
  obtain ⟨news, hnews, rfl⟩ := declareOffsets_eq_ok hdeclare
  refine { h with declared := ?_ }
  intro e he
  rcases List.mem_append.mp he with he | he
  · exact h.declared e he
  · obtain ⟨o, ho, hspan⟩ := exists_operand_of_mem_news hnews he
    rw [hspan]
    exact hoperands o ho

/-! ## Records -/

/-- A label that is bound after some were bound to a record was bound before or is one of
them. -/
theorem mem_bindAll {bindings : List Binding} {record : Record} {labels : List Label}
    {b : Binding} (h : b ∈ bindAll bindings record labels) :
    b ∈ bindings ∨ ∃ label ∈ labels, b.first = label.span := by
  induction labels generalizing bindings with
  | nil => exact Or.inl h
  | cons label rest ih =>
      have hstep : bindAll bindings record (label :: rest) =
          bindAll (bindLabel record bindings label) record rest := rfl
      rw [hstep] at h
      rcases ih h with hb | ⟨later, hlater, hfirst⟩
      · rw [bindLabel] at hb
        split at hb
        · rcases List.mem_append.mp hb with hb | hb
          · exact Or.inl hb
          · rw [List.mem_singleton.mp hb]
            exact Or.inr ⟨label, List.mem_cons_self, rfl⟩
        · exact Or.inl hb
      · exact Or.inr ⟨later, List.mem_cons_of_mem _ hlater, hfirst⟩

theorem placed_bind (h : d.Placed lines) {record : Record}
    (hbind : d.bind start record = .ok next) : next.Placed lines := by
  obtain ⟨-, -, rfl⟩ := bind_eq_ok hbind
  -- no label waits any longer, and those that did are bound
  refine { h with
    pending := fun _ hlabel => absurd hlabel List.not_mem_nil
    bound := ?_
    underway := fun _ _ hunderway => by cases hunderway
    ordered := fun _ _ _ hlabel => absurd hlabel List.not_mem_nil }
  intro b hb
  rcases mem_bindAll hb with hb | ⟨label, hlabel, hfirst⟩
  · exact h.bound b hb
  · obtain ⟨line, hline, hin⟩ := h.pending label hlabel
    rw [hfirst]
    exact hin.onLines hline

theorem placed_settle (h : d.Placed lines) (hstart : start.OnLines lines)
    {outcome : Except Diagnostic Progress}
    (houtcome : ∀ r, outcome = .ok (.underway r) → r.Placed lines)
    (hsettle : d.settle start outcome = (next, .reading)) : next.Placed lines := by
  rcases settle_eq_reading hsettle with ⟨r, hprogress, rfl⟩ | ⟨record, -, hbind⟩
  · refine { h with underway := ?_ }
    intro start' r' hunderway
    cases hunderway
    exact ⟨hstart, houtcome r hprogress⟩
  · exact placed_bind h hbind

/-! ## Lines -/

theorem placed_readDirective (h : d.Placed lines) (hline : line ∈ lines) {directive : Directive}
    (hdirective : directive.toPiece.In line.toPiece)
    (hoperands : ∀ o ∈ directive.operands, o.toPiece.In line.toPiece)
    (hread : d.readDirective directive = (next, .reading)) : next.Placed lines := by
  have honLines : ∀ o ∈ directive.operands, o.span.OnLines lines := fun o ho =>
    (hoperands o ho).onLines hline
  rw [readDirective] at hread
  split at hread
  · split at hread
    · cases hread
    · next hdeclare =>
        cases hread
        exact placed_declareOffsets h honLines hdeclare
  · refine placed_settle h (hdirective.onLines hline) ?_ hread
    intro r hfeed
    exact Reading.placed_feed (Reading.placed_begin hdirective hline) honLines hfeed

/-- A line leaves all spans on the lines read. -/
theorem placed_read (h : d.Placed done)
    (hbefore : ∀ other ∈ done, other.toPiece.Before line.toPiece)
    (hread : d.read line = (next, .reading)) : next.Placed (done ++ [line]) := by
  have hline : line ∈ done ++ [line] := by simp
  cases hstatement : Statement.ofLine line with
  | error e =>
      rw [read, hstatement] at hread
      cases hread
  | ok s =>
      cases hunderway : d.underway with
      | some begun =>
          obtain ⟨start, r⟩ := begun
          have hmore := h.mono (List.subset_append_left done [line])
          obtain ⟨hstart, hr⟩ := hmore.underway start r hunderway
          rw [read_of_underway hunderway hstatement] at hread
          exact placed_settle hmore hstart
            (fun _ => Reading.placed_resume hr hline hstatement) hread
      | none =>
          have hlabelled : (d.labelled s.label).Placed (done ++ [line]) :=
            placed_labelled h hbefore fun _ => Statement.label_in hstatement
          rw [read_of_statement hunderway hstatement, readStatement_eq] at hread
          cases hbody : s.body with
          | empty =>
              rw [hbody] at hread
              cases hread
              exact hlabelled
          | sentinel =>
              rw [hbody] at hread
              cases hread
          | directive directive =>
              obtain ⟨hdirective, hoperands, -⟩ := Statement.directive_in hstatement hbody
              simp only [hbody] at hread
              exact placed_readDirective hlabelled hline hdirective hoperands hread

/-- The spans of a draft are on the lines that have led to it. -/
theorem Reaches.placed (h : Reaches entrySize done d .reading)
    (hordered : done.Pairwise fun a b => a.toPiece.Before b.toPiece) : d.Placed done := by
  generalize hverdict : Verdict.reading = verdict at h
  induction h with
  | start => exact placed_start entrySize
  | @line done d next verdict line hdone hread ih =>
      subst hverdict
      obtain ⟨hearlier, -, hbefore⟩ := List.pairwise_append.mp hordered
      exact placed_read (ih hearlier rfl) (fun other hother => hbefore other hother line (by simp))
        hread

end Steps

/-! ## Diagnostics of a line -/

/-- A diagnostic is about an operand of a line whose entry repeats a label, and shows the
operand that declared the label first. -/
def RepeatsEntry (d : Draft) (line : Line) (e : Diagnostic) : Prop :=
  ∃ (front back : List Operand) (o : Operand) (news : List Declaration) (label table : String)
    (first : Declaration),
    operandsOn line = front ++ o :: back ∧ front.map declarationOf? = news.map some ∧
    o.reference? = some (label, table) ∧
    (d.declared ++ news).find? (·.label = label) = some first ∧
    e = ((Diagnostic.of o.span (.duplicateLabel label)).relate first.span
      .firstDeclared).advise .sharedRootOnly

/-- A diagnostic is about a label above a record that is bound to another record, and shows
where it was bound first. -/
def RepeatsLabel (d : Draft) (line : Line) (e : Diagnostic) : Prop :=
  ∃ label ∈ d.waiting line, ∃ binding, bindingOf? d.bindings label.name = some binding ∧
    e = (Diagnostic.of label.span (.duplicateLabel label.name)).relate binding.first
      .boundElsewhere

section Failures

variable {e : Diagnostic}

theorem failed_of_ofLine (h : Statement.ofLine line = .error e) : e.PlacedOn (done ++ [line]) := by
  obtain ⟨hfound, hrelated⟩ := Statement.foundIn_of_ofLine h
  exact hfound.placedOn hrelated (by simp)

/-- A line among the tables fails on itself, or on an entry that repeats a label. -/
theorem failed_of_tables (hmode : d.mode = .table) (hunderway : d.underway = none)
    (hclear : ∀ label, labelOf? line = some label → d.refersTo label.name = false)
    (h : d.read line = (next, .failed e)) :
    e.PlacedOn (done ++ [line]) ∨ d.RepeatsEntry line e := by
  have hline : line ∈ done ++ [line] := by simp
  cases hstatement : Statement.ofLine line with
  | error e' =>
      rw [read, hstatement] at h
      cases h
      exact Or.inl (failed_of_ofLine hstatement)
  | ok s =>
      rw [labelOf?_of_ofLine hstatement] at hclear
      obtain ⟨pending, hlabelled⟩ := labelled_of_tables hclear
      rw [read_of_statement hunderway hstatement, readStatement_eq, hlabelled] at h
      cases hbody : s.body with
      | empty =>
          rw [hbody] at h
          cases h
      | sentinel =>
          rw [hbody] at h
          cases h
      | directive directive =>
          obtain ⟨hdirective, hoperands, -⟩ := Statement.directive_in hstatement hbody
          simp only [hbody, readDirective, hmode, declareOffsets] at h
          split at h
          · next hdeclare =>
              cases h
              split at hdeclare
              · cases hdeclare
                refine Or.inl (Diagnostic.PlacedOn.advise ?_ _)
                exact Diagnostic.placedOn_of (hdirective.onLines hline) rfl rfl
              · split at hdeclare
                · next hentries =>
                    cases hdeclare
                    obtain ⟨front, back, o, news, hsplit, hnews, hcause⟩ :=
                      declareEntries_eq_error hentries
                    rcases hcause with rfl | ⟨label, table, first, hreference, hfirst, rfl⟩
                    · have hin := hoperands o (by simp [hsplit])
                      exact Or.inl ((Diagnostic.foundIn_of_quoted hin rfl).placedOn rfl hline)
                    · refine Or.inr ⟨front, back, o, news, label, table, first, ?_, hnews,
                        hreference, hfirst, rfl⟩
                      rw [operandsOn_of_directive hstatement hbody, hsplit]
                · cases hdeclare
          · cases h

/-- A record that cannot be bound is reported at its directive, or at a label that is bound
to another record. -/
theorem failed_of_settle (hstart : start.OnLines lines) {outcome : Except Diagnostic Progress}
    (houtcome : outcome = .error e → e.PlacedOn lines)
    (hsettle : d.settle start outcome = (next, .failed e)) :
    e.PlacedOn lines ∨
      ∃ label ∈ d.pending, ∃ binding, bindingOf? d.bindings label.name = some binding ∧
        e = (Diagnostic.of label.span (.duplicateLabel label.name)).relate binding.first
          .boundElsewhere := by
  rcases settle_eq_failed hsettle with herror | ⟨record, -, hbind⟩
  · exact Or.inl (houtcome herror)
  · rcases bind_eq_error hbind with rfl | ⟨label, hlabel, binding, hbound, -, rfl⟩
    · exact Or.inl ((Diagnostic.placedOn_of hstart rfl rfl).advise _)
    · exact Or.inr ⟨label, hlabel, binding, hbound, rfl⟩

/-- A line among the records fails on the lines read, or on a label that repeats. -/
theorem failed_of_records (hmode : d.mode = .data) (hplaced : d.Placed done)
    (h : d.read line = (next, .failed e)) :
    e.PlacedOn (done ++ [line]) ∨ d.RepeatsLabel line e := by
  have hline : line ∈ done ++ [line] := by simp
  cases hstatement : Statement.ofLine line with
  | error e' =>
      rw [read, hstatement] at h
      cases h
      exact Or.inl (failed_of_ofLine hstatement)
  | ok s =>
      have hlabel := labelOf?_of_ofLine hstatement
      cases hunderway : d.underway with
      | some begun =>
          obtain ⟨start, r⟩ := begun
          have hmore := hplaced.mono (List.subset_append_left done [line])
          obtain ⟨hstart, hr⟩ := hmore.underway start r hunderway
          rw [read_of_underway hunderway hstatement] at h
          rcases failed_of_settle hstart (Reading.placedOn_of_resume hr hline hstatement) h with
            hon | ⟨label, hpending, hbinding⟩
          · exact Or.inl hon
          · exact Or.inr ⟨label, List.mem_append_left _ hpending, hbinding⟩
      | none =>
          rw [read_of_statement hunderway hstatement, readStatement_eq,
            labelled_of_records hmode, ← hlabel] at h
          cases hbody : s.body with
          | empty =>
              rw [hbody] at h
              cases h
          | sentinel =>
              rw [hbody] at h
              cases h
          | directive directive =>
              obtain ⟨hdirective, hoperands, hordered⟩ := Statement.directive_in hstatement hbody
              simp only [hbody, readDirective, hmode] at h
              exact failed_of_settle (hdirective.onLines hline) (Reading.placedOn_of_feed
                (Reading.placed_begin hdirective hline) hline hoperands hordered) h

/-! ## What was there first -/

/-- The operands of a line are stretches of it, one after the other. -/
theorem operandsOn_in (line : Line) :
    (∀ o ∈ operandsOn line, o.toPiece.In line.toPiece) ∧
      (operandsOn line).Pairwise fun a b => a.toPiece.Before b.toPiece := by
  rw [operandsOn]
  split
  · next hstatement =>
      obtain ⟨-, hoperands, hordered⟩ := Statement.directive_in hstatement rfl
      exact ⟨hoperands, hordered⟩
  · simp

/-- The operand that declared a label first stands before the one that repeats it. -/
theorem before_of_repeatsEntry (h : d.Placed done)
    (hbefore : ∀ other ∈ done, other.toPiece.Before line.toPiece)
    (hrepeats : d.RepeatsEntry line e) :
    ∃ (label : String) (first : Declaration),
      (∃ q : Piece, q.In line.toPiece ∧ q.span = e.primary) ∧
      first.span.OnLines (done ++ [line]) ∧ first.span.stop ≤ e.primary.start ∧
      e.cause = .duplicateLabel label ∧ e.related = [⟨first.span, .firstDeclared⟩] ∧
      (d.declared ++ (operandsOn line).filterMap declarationOf?).find? (·.label = label) =
        some first := by
  obtain ⟨front, back, o, news, label, table, first, hsplit, hnews, -, hfirst, rfl⟩ := hrepeats
  obtain ⟨hin, hordered⟩ := operandsOn_in line
  rw [hsplit] at hin hordered
  have ho : o.toPiece.In line.toPiece := hin o (by simp)
  refine ⟨label, first, ⟨o.toPiece, ho, rfl⟩, ?_, ?_, rfl, rfl, ?_⟩
  · rcases List.mem_append.mp (List.mem_of_find?_eq_some hfirst) with hold | hnew
    · exact (h.declared first hold).mono (List.subset_append_left done [line])
    · obtain ⟨p, hp, hspan⟩ := exists_operand_of_mem_news hnews hnew
      rw [hspan]
      exact (hin p (by simp [hp])).onLines (by simp)
  · rcases List.mem_append.mp (List.mem_of_find?_eq_some hfirst) with hold | hnew
    · exact Nat.le_trans (stop_le_of_onLines (h.declared first hold) hbefore) ho.start_le
    · obtain ⟨p, hp, hspan⟩ := exists_operand_of_mem_news hnews hnew
      rw [hspan]
      exact Nat.le_of_lt ((List.pairwise_append.mp hordered).2.2 p hp o (by simp))
  · rw [hsplit, List.filterMap_append, filterMap_declarationOf? hnews, ← List.append_assoc,
      List.find?_append, hfirst, Option.some_or]

/-- The place where a label was bound stands before the label that repeats it, which is what
the diagnostic quotes. -/
theorem before_of_repeatsLabel (h : d.Placed done)
    (hbefore : ∀ other ∈ done, other.toPiece.Before line.toPiece)
    (hrepeats : d.RepeatsLabel line e) :
    ∃ (label : Label) (binding : Binding),
      (∃ other ∈ done ++ [line], label.toPiece.In other.toPiece) ∧ e.primary = label.span ∧
      binding.first.OnLines (done ++ [line]) ∧ binding.first.stop ≤ e.primary.start ∧
      e.cause = .duplicateLabel label.name ∧ e.related = [⟨binding.first, .boundElsewhere⟩] ∧
      bindingOf? d.bindings label.name = some binding := by
  obtain ⟨label, hlabel, binding, hbound, rfl⟩ := hrepeats
  have hmem := List.mem_of_find?_eq_some hbound
  have hplace : (∃ other ∈ done ++ [line], label.toPiece.In other.toPiece) ∧
      binding.first.stop ≤ label.start := by
    rcases List.mem_append.mp hlabel with hpending | hown
    · obtain ⟨other, hother, hin⟩ := h.pending label hpending
      exact ⟨⟨other, List.mem_append_left _ hother, hin⟩, h.ordered binding hmem label hpending⟩
    · have hin : label.toPiece.In line.toPiece := by
        rw [Option.mem_toList, labelOf?] at hown
        split at hown
        · next hstatement => exact Statement.label_in hstatement hown
        · cases hown
      refine ⟨⟨line, by simp, hin⟩, ?_⟩
      exact Nat.le_trans (stop_le_of_onLines (h.bound binding hmem) hbefore) hin.start_le
  exact ⟨label, binding, hplace.1, rfl,
    (h.bound binding hmem).mono (List.subset_append_left done [line]), hplace.2, rfl, rfl, hbound⟩

end Failures

end Draft

end SpriteTables
