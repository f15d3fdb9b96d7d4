import SpriteTables.Artifact.Parser
import SpriteTables.Proofs.Record.Alike

/-!
# Drafts that say the same

Two artifacts in the making say the same when they have declared the same entries, bound the same
labels to the same records and wait for the same labels, wherever these were read (`Draft.Alike`).
A line with the same content takes them to drafts that say the same again, or stops both readings
for the same cause (`read_alike`). So what lines come to depends on their contents alone
(`run_alike`, `conclude_alike`), and lines that say nothing may be left out (`run_filter_silent`).
-/

set_option autoImplicit false

namespace SpriteTables

open Text (Line Span)

/-! ## Drafts -/

/-- What a binding says, apart from its place. -/
def Binding.named (b : Binding) : String × Record :=
  (b.label, b.record)

/-- Two drafts have come to the same: whatever they hold is equal up to the places, and readings
of records that are underway have come to the same too. -/
structure Draft.Alike (d d' : Draft) : Prop where
  entrySize_eq : d.entrySize = d'.entrySize
  mode_eq : d.mode = d'.mode
  entries_eq : d.declared.map (·.toOffsetEntry) = d'.declared.map (·.toOffsetEntry)
  bindings_eq : d.bindings.map Binding.named = d'.bindings.map Binding.named
  pending_eq : d.pending.map Label.name = d'.pending.map Label.name
  underway_alike : Option.Rel (fun b b' => b.2.Alike b'.2) d.underway d'.underway
  log_eq : d.log = d'.log

/-- Two readings go on together, end together or fail for the same cause. -/
inductive Verdict.Alike : Verdict → Verdict → Prop where
  | reading : Alike .reading .reading
  | ended : Alike .ended .ended
  | failed {e e' : Diagnostic} (h : e.cause = e'.cause) : Alike (.failed e) (.failed e')

/-- Two readings have come to drafts that say the same, and go on, end or fail alike. -/
structure EndAlike (x y : Draft × Verdict) : Prop where
  draft_alike : x.1.Alike y.1
  verdict_alike : x.2.Alike y.2

section Drafts

variable {d d' : Draft} {declared declared' : List Declaration}
  {bindings bindings' : List Binding} {labels labels' : List Label}
  {operands operands' : List Operand}

/-! ## Labels and tables -/

theorem refersTo_eq (h : d.Alike d') (label : String) : d.refersTo label = d'.refersTo label := by
  have hany : ∀ ds : List Declaration, ds.any (·.label = label) =
      (ds.map (·.toOffsetEntry)).any (·.label = label) := by
    intro ds
    rw [List.any_map]
    rfl
  rw [Draft.refersTo, Draft.refersTo, hany, hany, h.entries_eq]

/-- Labels with the same name do the same. -/
theorem declareLabel_alike (h : d.Alike d') {label label' : Label}
    (hname : label.name = label'.name) :
    (d.declareLabel label).Alike (d'.declareLabel label') := by
  rw [Draft.declareLabel, Draft.declareLabel, refersTo_eq h, hname, h.mode_eq]
  split
  · refine { h with mode_eq := rfl, pending_eq := ?_ }
    simp only [List.map_append, List.map_singleton, h.pending_eq, hname]
  · refine { h with mode_eq := rfl, pending_eq := ?_, log_eq := ?_ }
    · simp only [List.map_singleton, hname]
    · simp only [h.log_eq]

/-- Operands with the same characters name the same entry. -/
theorem entry_alike {o o' : Operand} (h : o.chars = o'.chars) :
    Alike (· = ·) o.entry o'.entry := by
  have hreference : o.reference? = o'.reference? := by
    rw [Operand.reference?, Operand.reference?, h]
  rw [Operand.entry, Operand.entry, hreference]
  cases o'.reference? with
  | some names => exact .ok rfl
  | none => exact .error (congrArg Cause.malformedTableEntry (congrArg String.ofList h))

/-- An entry may be declared in a table if and only if it may be in one that says the same. -/
theorem declare_alike (h : declared.map (·.toOffsetEntry) = declared'.map (·.toOffsetEntry))
    (entry : OffsetEntry) (span span' : Span) :
    Alike (fun ds ds' => ds.map (·.toOffsetEntry) = ds'.map (·.toOffsetEntry))
      (OffsetTable.declare declared ⟨entry, span⟩)
      (OffsetTable.declare declared' ⟨entry, span'⟩) := by
  have hroot : ∀ ds : List Declaration, OffsetTable.repeatsRoot ds entry =
      ((ds.map (·.toOffsetEntry)).head?.any fun root =>
        decide (entry.label = root.label) && decide (entry.table ≠ root.table)) := by
    intro ds
    cases ds with
    | nil => rfl
    | cons root rest => rfl
  have hadded : (declared ++ [(⟨entry, span⟩ : Declaration)]).map (·.toOffsetEntry) =
      (declared' ++ [(⟨entry, span'⟩ : Declaration)]).map (·.toOffsetEntry) := by
    rw [List.map_append, List.map_append, h]
    rfl
  rw [OffsetTable.declare, OffsetTable.declare, hroot, hroot, h]
  rcases find?_of_map_eq h (fun e => e.label = entry.label) with
    ⟨hnone, hnone'⟩ | ⟨first, first', hsome, hsome', -⟩
  · simp only [Function.comp_def] at hnone hnone'
    simp only [hnone, hnone']
    exact .ok hadded
  · simp only [Function.comp_def] at hsome hsome'
    simp only [hsome, hsome']
    split
    · exact .ok hadded
    · exact .error rfl

theorem declareEntries_alike
    (h : declared.map (·.toOffsetEntry) = declared'.map (·.toOffsetEntry))
    (hoperands : operands.map (·.chars) = operands'.map (·.chars)) :
    Alike (fun ds ds' => ds.map (·.toOffsetEntry) = ds'.map (·.toOffsetEntry))
      (Draft.declareEntries declared operands) (Draft.declareEntries declared' operands') := by
  induction operands generalizing declared declared' operands' with
  | nil =>
      obtain rfl := List.map_eq_nil_iff.mp hoperands.symm
      exact .ok h
  | cons o rest ih =>
      obtain ⟨o', rest', rfl, ho, hrest⟩ := List.map_eq_cons_iff.mp hoperands.symm
      rw [Draft.declareEntries, Draft.declareEntries]
      rcases (entry_alike ho.symm).outcomes with
        ⟨entry, _, hentry, hentry', rfl⟩ | ⟨e, e', he, he', hcause⟩
      · obtain ⟨label, table⟩ := entry
        simp only [hentry, hentry']
        rcases (declare_alike h ⟨label, table⟩ o.span o'.span).outcomes with
          ⟨next, next', hnext, hnext', hsame⟩ | ⟨e, e', he, he', hcause⟩
        · simp only [hnext, hnext']
          exact ih hsame hrest.symm
        · simp only [he, he']
          exact .error hcause
      · simp only [he, he']
        exact .error hcause

/-- Directives with the same operands declare the same entries. -/
theorem declareOffsets_alike (h : d.Alike d') {directive directive' : Directive}
    (hwidth : directive.width = directive'.width)
    (hoperands : directive.operands.map (·.chars) = directive'.operands.map (·.chars)) :
    Alike Draft.Alike (d.declareOffsets directive) (d'.declareOffsets directive') := by
  rw [Draft.declareOffsets, Draft.declareOffsets, hwidth]
  cases directive'.width with
  | byte => exact .error rfl
  | word =>
      simp only
      rcases (declareEntries_alike h.entries_eq hoperands).outcomes with
        ⟨next, next', hnext, hnext', hsame⟩ | ⟨e, e', he, he', hcause⟩
      · simp only [hnext, hnext']
        exact .ok { h with entries_eq := hsame }
      · simp only [he, he']
        exact .error hcause

/-! ## Records -/

/-- A label is bound in both of two lists that say the same, to one record, or in neither. -/
theorem bindingOf?_cases (h : bindings.map Binding.named = bindings'.map Binding.named)
    (label : String) :
    (Draft.bindingOf? bindings label = none ∧ Draft.bindingOf? bindings' label = none) ∨
    ∃ b b', Draft.bindingOf? bindings label = some b ∧
      Draft.bindingOf? bindings' label = some b' ∧ b.record = b'.record := by
  rcases find?_of_map_eq h (·.1 = label) with ⟨hb, hb'⟩ | ⟨b, b', hb, hb', hnamed⟩
  · exact Or.inl ⟨hb, hb'⟩
  · exact Or.inr ⟨b, b', hb, hb', congrArg Prod.snd hnamed⟩

theorem conflict?_alike (h : bindings.map Binding.named = bindings'.map Binding.named)
    (hlabels : labels.map Label.name = labels'.map Label.name) (record : Record) :
    (Draft.conflict? bindings record labels).map (·.1.name) =
      (Draft.conflict? bindings' record labels').map (·.1.name) := by
  induction labels generalizing labels' with
  | nil =>
      obtain rfl := List.map_eq_nil_iff.mp hlabels.symm
      rfl
  | cons label rest ih =>
      obtain ⟨label', rest', rfl, hname, hrest⟩ := List.map_eq_cons_iff.mp hlabels.symm
      rw [Draft.conflict?, Draft.conflict?, hname]
      rcases bindingOf?_cases h label.name with ⟨hb, hb'⟩ | ⟨b, b', hb, hb', hrecord⟩
      · simp only [hb, hb']
        exact ih hrest.symm
      · simp only [hb, hb', hrecord]
        split
        · exact ih hrest.symm
        · exact congrArg some hname.symm

theorem bindLabel_alike (h : bindings.map Binding.named = bindings'.map Binding.named)
    {label label' : Label} (hname : label.name = label'.name) (record : Record) :
    (Draft.bindLabel record bindings label).map Binding.named =
      (Draft.bindLabel record bindings' label').map Binding.named := by
  rw [Draft.bindLabel, Draft.bindLabel, hname]
  rcases bindingOf?_cases h label'.name with ⟨hb, hb'⟩ | ⟨b, b', hb, hb', -⟩
  · simp only [hb, hb', List.map_append, h]
    rfl
  · simpa only [hb, hb'] using h

theorem foldl_bindLabel_alike (h : bindings.map Binding.named = bindings'.map Binding.named)
    (hlabels : labels.map Label.name = labels'.map Label.name) (record : Record) :
    (labels.foldl (Draft.bindLabel record) bindings).map Binding.named =
      (labels'.foldl (Draft.bindLabel record) bindings').map Binding.named := by
  induction labels generalizing bindings bindings' labels' with
  | nil =>
      obtain rfl := List.map_eq_nil_iff.mp hlabels.symm
      exact h
  | cons label rest ih =>
      obtain ⟨label', rest', rfl, hname, hrest⟩ := List.map_eq_cons_iff.mp hlabels.symm
      apply ih _ hrest.symm
      exact bindLabel_alike h hname.symm record

/-- A complete record does the same to drafts that say the same. -/
theorem bind_alike (h : d.Alike d') (start start' : Span) (record : Record) :
    Alike Draft.Alike (d.bind start record) (d'.bind start' record) := by
  have hnone : d.pending = [] ↔ d'.pending = [] := by
    rw [← List.map_eq_nil_iff (f := Label.name), h.pending_eq, List.map_eq_nil_iff]
  have hconflict := conflict?_alike h.bindings_eq h.pending_eq record
  rw [Draft.bind, Draft.bind]
  simp only [hnone]
  split
  · exact .error rfl
  · rcases none_or_some_of_map_eq hconflict with
      ⟨hnone, hnone'⟩ | ⟨found, found', hsome, hsome', hname⟩
    · simp only [hnone, hnone']
      apply Alike.ok
      refine { h with bindings_eq := ?_, pending_eq := rfl, underway_alike := .none }
      exact foldl_bindLabel_alike h.bindings_eq h.pending_eq record
    · simp only [hsome, hsome']
      exact .error (congrArg Cause.duplicateLabel hname)

end Drafts

/-! ## Lines -/

section Lines

variable {d d' : Draft} {line line' : Line} {lines lines' : List Line}

/-- Drafts that say the same are both outside of any record, or inside records of which the
same was read. -/
theorem Draft.Alike.underway_cases (h : d.Alike d') :
    (d.underway = none ∧ d'.underway = none) ∨
    ∃ start start' r r', d.underway = some (start, r) ∧ d'.underway = some (start', r') ∧
      r.Alike r' := by
  have hunderway := h.underway_alike
  generalize d.underway = begun at hunderway ⊢
  generalize d'.underway = begun' at hunderway ⊢
  cases hunderway with
  | none => exact Or.inl ⟨rfl, rfl⟩
  | some hreading => exact Or.inr ⟨_, _, _, _, rfl, rfl, hreading⟩

theorem settle_alike (h : d.Alike d') (start start' : Span) {x y : Except Diagnostic Progress}
    (hprogress : Alike Progress.Alike x y) :
    EndAlike (d.settle start x) (d'.settle start' y) := by
  cases hprogress with
  | error hcause => exact ⟨h, .failed hcause⟩
  | ok hsame =>
      cases hsame with
      | underway hreading => exact ⟨{ h with underway_alike := .some hreading }, .reading⟩
      | complete record =>
          rw [Draft.settle, Draft.settle]
          rcases (bind_alike h start start' record).outcomes with
            ⟨next, next', hnext, hnext', hsame⟩ | ⟨e, e', he, he', hcause⟩
          · simp only [hnext, hnext']
            exact ⟨hsame, .reading⟩
          · simp only [he, he']
            exact ⟨h, .failed hcause⟩

theorem readDirective_alike (h : d.Alike d') {directive directive' : Directive}
    (hwidth : directive.width = directive'.width)
    (hoperands : directive.operands.map (·.chars) = directive'.operands.map (·.chars)) :
    EndAlike (d.readDirective directive) (d'.readDirective directive') := by
  rw [Draft.readDirective, Draft.readDirective, h.mode_eq]
  cases d'.mode with
  | table =>
      simp only
      rcases (declareOffsets_alike h hwidth hoperands).outcomes with
        ⟨next, next', hnext, hnext', hsame⟩ | ⟨e, e', he, he', hcause⟩
      · simp only [hnext, hnext']
        exact ⟨hsame, .reading⟩
      · simp only [he, he']
        exact ⟨h, .failed hcause⟩
  | data =>
      simp only [h.entrySize_eq, hwidth]
      apply settle_alike h
      exact feed_alike (Reading.begin_alike directive directive') hoperands

theorem readStatement_alike (h : d.Alike d') {s s' : Statement} (hs : s.Alike s') :
    EndAlike (d.readStatement s) (d'.readStatement s') := by
  obtain ⟨line, label, body⟩ := s
  obtain ⟨line', label', body'⟩ := s'
  obtain ⟨hlabel, hbody⟩ := hs
  rcases none_or_some_of_map_eq hlabel with ⟨rfl, rfl⟩ | ⟨name, name', rfl, rfl, hname⟩
  · cases hbody with
    | empty => exact ⟨h, .reading⟩
    | sentinel => exact ⟨h, .ended⟩
    | directive hwidth hoperands => exact readDirective_alike h hwidth hoperands
  · have hlabelled := declareLabel_alike h hname
    cases hbody with
    | empty => exact ⟨hlabelled, .reading⟩
    | sentinel => exact ⟨hlabelled, .ended⟩
    | directive hwidth hoperands => exact readDirective_alike hlabelled hwidth hoperands

/-- Lines with the same content do the same to drafts that say the same. -/
theorem read_alike (h : d.Alike d')
    (hcontent : contentChars line.chars = contentChars line'.chars) :
    EndAlike (d.read line) (d'.read line') := by
  rw [Draft.read, Draft.read]
  rcases (ofLine_alike hcontent).outcomes with
    ⟨s, s', hs, hs', hsame⟩ | ⟨e, e', he, he', hcause⟩
  · simp only [hs, hs']
    rcases h.underway_cases with ⟨hnone, hnone'⟩ | ⟨start, start', r, r', hsome, hsome', hreading⟩
    · simp only [hnone, hnone']
      exact readStatement_alike h hsame
    · simp only [hsome, hsome', h.entrySize_eq]
      apply settle_alike h
      exact resume_alike hreading hsame
  · simp only [he, he']
    exact ⟨h, .failed hcause⟩

/-- Lines with the same contents take drafts that say the same to the same end. -/
theorem run_alike (h : d.Alike d') (hcontents : (lines.map fun line => contentChars line.chars) =
      lines'.map fun line => contentChars line.chars) :
    EndAlike (d.run lines) (d'.run lines') := by
  induction lines generalizing d d' lines' with
  | nil =>
      obtain rfl := List.map_eq_nil_iff.mp hcontents.symm
      exact ⟨h, .reading⟩
  | cons line rest ih =>
      obtain ⟨line', rest', rfl, hline, hrest⟩ := List.map_eq_cons_iff.mp hcontents.symm
      rw [Draft.run, Draft.run]
      have hread := read_alike h hline.symm
      generalize d.read line = outcome at hread
      generalize d'.read line' = outcome' at hread
      obtain ⟨next, verdict⟩ := outcome
      obtain ⟨next', verdict'⟩ := outcome'
      obtain ⟨hnext, hverdict⟩ := hread
      cases hverdict with
      | reading => exact ih hnext hrest.symm
      | ended => exact ⟨hnext, .ended⟩
      | failed hcause => exact ⟨hnext, .failed hcause⟩

/-- A line that says nothing is a statement without label and body. -/
theorem ofLine_of_silent (h : contentChars line.chars = []) :
    Statement.ofLine line = .ok { line } := by
  have hchars : (contentOf line.toPiece).chars = [] := h
  have hunlabelled : Statement.isLabelled (contentOf line.toPiece) = false := by
    rw [Statement.isLabelled, hchars]
    rfl
  have hempty : Statement.ofBody (contentOf line.toPiece).trimStart = .ok .empty := by
    rw [Statement.ofBody, if_pos]
    exact congrArg Text.trimStart hchars
  simp only [Statement.ofLine, hunlabelled, hempty]
  rfl

/-- A line that says nothing does nothing, inside a record or not. -/
theorem read_of_silent (h : contentChars line.chars = []) : d.read line = (d, .reading) := by
  rw [Draft.read, ofLine_of_silent h]
  cases hunderway : d.underway with
  | none => rfl
  | some begun =>
      simp only [Reading.resume, Draft.settle, ← hunderway]

/-- Lines that say nothing may be left out. -/
theorem run_filter_silent (d : Draft) (lines : List Line) :
    d.run (lines.filter fun line => contentChars line.chars ≠ []) = d.run lines := by
  induction lines generalizing d with
  | nil => rfl
  | cons line rest ih =>
      by_cases hsilent : contentChars line.chars = []
      · rw [List.filter_cons_of_neg (by simpa using hsilent), ih, Draft.run,
          read_of_silent hsilent]
      · rw [List.filter_cons_of_pos (by simpa using hsilent), Draft.run, Draft.run]
        generalize d.read line = outcome
        obtain ⟨next, verdict⟩ := outcome
        cases verdict with
        | reading => exact ih next
        | ended => rfl
        | failed e => rfl

end Lines

/-! ## The end -/

section Ends

variable {d d' : Draft} {x y : Draft × Verdict}

/-- Drafts that say the same hold the same artifact. -/
theorem artifact_eq (h : d.Alike d') : d.artifact = d'.artifact := by
  have hgather : ∀ bs : List Binding, LabelledRecord.gather bs =
      (bs.map Binding.named).foldl (fun records b => LabelledRecord.add b.2 b.1 records) [] := by
    intro bs
    rw [List.foldl_map]
    rfl
  rw [Draft.artifact, Draft.artifact, OffsetTable.ofDeclarations, OffsetTable.ofDeclarations,
    h.entries_eq, hgather, hgather, h.bindings_eq]

theorem closingRemarks_eq (h : d.Alike d') : d.closingRemarks = d'.closingRemarks := by
  have hlength : d.pending.length = d'.pending.length := by
    simpa using congrArg List.length h.pending_eq
  have hnone : d.pending = [] ↔ d'.pending = [] := by
    rw [← List.length_eq_zero_iff, hlength, List.length_eq_zero_iff]
  simp only [Draft.closingRemarks, h.mode_eq, hlength, ne_eq, hnone]

/-- Readings that end alike give the same artifact or fail for the same cause, with the same
remarks. -/
theorem conclude_alike (h : EndAlike x y) :
    (Draft.conclude x).log = (Draft.conclude y).log ∧
      Alike (· = ·) (Draft.conclude x).value (Draft.conclude y).value := by
  obtain ⟨d, verdict⟩ := x
  obtain ⟨d', verdict'⟩ := y
  obtain ⟨hdraft, hverdict⟩ := h
  change d.Alike d' at hdraft
  have hlog : d.log ++ d.closingRemarks = d'.log ++ d'.closingRemarks := by
    rw [hdraft.log_eq, closingRemarks_eq hdraft]
  cases hverdict with
  | failed hcause => exact ⟨hdraft.log_eq, .error hcause⟩
  | ended => exact ⟨hlog, .ok (artifact_eq hdraft)⟩
  | reading =>
      rcases hdraft.underway_cases with
        ⟨hnone, hnone'⟩ | ⟨start, start', r, r', hsome, hsome', hreading⟩
      · simp only [Draft.conclude, hnone, hnone']
        exact ⟨hlog, .ok (artifact_eq hdraft)⟩
      · simp only [Draft.conclude, hsome, hsome']
        exact ⟨hdraft.log_eq, .error hreading.cause_cutOff_eq⟩

end Ends

end SpriteTables
