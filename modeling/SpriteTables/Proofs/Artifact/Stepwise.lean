import SpriteTables.Proofs.Artifact.Declared
import SpriteTables.Proofs.Artifact.Invariant
import SpriteTables.Proofs.Artifact.Lines

/-!
# What one line does to a draft

A line changes a draft in few ways. Among the tables it adds offset entries and passes over its
label (`read_of_tables`), unless the label ends the tables (`read_of_switch`). Among the records
it leaves labels waiting, goes on with a record, or completes one and binds the waiting labels to
it (`read_of_records`). This module says so once, for every line, so that no later proof opens the
reading of a line. A reading ends with the line that ends the artifact, and not before
(`run_upToEnd`).
-/

set_option autoImplicit false

namespace SpriteTables

open Text (Span Line)

namespace Draft

variable {d next : Draft} {line : Line} {s : Statement}

/-! ## Complete records -/

section Settling

variable {start : Span} {record : Record} {outcome : Except Diagnostic Progress}

/-- A record is bound to the labels that wait for it. -/
theorem bind_eq_ok (h : d.bind start record = .ok next) :
    d.pending ≠ [] ∧ conflict? d.bindings record d.pending = none ∧
      next = { d with
        bindings := bindAll d.bindings record d.pending
        pending := []
        underway := none } := by
  rw [bind] at h
  split at h
  · cases h
  · next hpending =>
      split at h
      · cases h
      · next hconflict =>
          cases h
          exact ⟨hpending, hconflict, rfl⟩

/-- A conflict is about a label that is bound to another record. -/
theorem mem_of_conflict? {bindings : List Binding} {labels : List Label} {label : Label}
    {binding : Binding} (h : conflict? bindings record labels = some (label, binding)) :
    label ∈ labels ∧ bindingOf? bindings label.name = some binding ∧ binding.record ≠ record := by
  induction labels with
  | nil => cases h
  | cons first rest ih =>
      have hrest : conflict? bindings record rest = some (label, binding) →
          label ∈ first :: rest ∧ bindingOf? bindings label.name = some binding ∧
            binding.record ≠ record := by
        intro hlater
        obtain ⟨hlabel, hfound⟩ := ih hlater
        exact ⟨List.mem_cons_of_mem _ hlabel, hfound⟩
      rw [conflict?] at h
      split at h
      · exact hrest h
      · next hbound =>
          split at h
          · exact hrest h
          · next hrecord =>
              cases h
              exact ⟨List.mem_cons_self, hbound, hrecord⟩

/-- A record that cannot be bound has no label, or one that is bound to another record. -/
theorem bind_eq_error {e : Diagnostic} (h : d.bind start record = .error e) :
    e = (Diagnostic.of start .unlabelledRecord).advise .labelBeforeRecord ∨
    ∃ label ∈ d.pending, ∃ binding, bindingOf? d.bindings label.name = some binding ∧
      binding.record ≠ record ∧
      e = (Diagnostic.of label.span (.duplicateLabel label.name)).relate binding.first
        .boundElsewhere := by
  rw [bind] at h
  split at h
  · cases h
    exact Or.inl rfl
  · split at h
    · next label binding hconflict =>
        cases h
        obtain ⟨hlabel, hbound, hrecord⟩ := mem_of_conflict? hconflict
        exact Or.inr ⟨label, hlabel, binding, hbound, hrecord, rfl⟩
    · cases h

/-- A reading goes on with an incomplete record or binds a complete one. -/
theorem settle_eq_reading (h : d.settle start outcome = (next, .reading)) :
    (∃ reading, outcome = .ok (.underway reading) ∧
      next = { d with underway := some (start, reading) }) ∨
    ∃ record, outcome = .ok (.complete record) ∧ d.bind start record = .ok next := by
  rcases outcome with e | reading | record
  · cases h
  · cases h
    exact Or.inl ⟨reading, rfl, rfl⟩
  · rw [settle] at h
    split at h
    · cases h
    · next hbind =>
        cases h
        exact Or.inr ⟨record, rfl, hbind⟩

/-- A reading fails on the line of a record, or on binding the record. -/
theorem settle_eq_failed {e : Diagnostic} (h : d.settle start outcome = (next, .failed e)) :
    outcome = .error e ∨
      ∃ record, outcome = .ok (.complete record) ∧ d.bind start record = .error e := by
  rcases outcome with e' | reading | record
  · cases h
    exact Or.inl rfl
  · cases h
  · rw [settle] at h
    split at h
    · next hbind =>
        cases h
        exact Or.inr ⟨record, rfl, hbind⟩
    · cases h

/-- A record never ends the artifact. -/
theorem settle_ne_ended : d.settle start outcome ≠ (next, .ended) := by
  intro h
  rcases outcome with e | reading | record
  · cases h
  · cases h
  · rw [settle] at h
    split at h <;> cases h

/-- A record goes on only with lines that have no label. -/
theorem label_eq_none_of_resume {entrySize : Nat} {reading : Reading} {progress : Progress}
    (h : reading.resume entrySize s = .ok progress) : s.label = none ∧ s.body ≠ .sentinel := by
  obtain ⟨line, label, body⟩ := s
  rw [Reading.resume] at h
  split at h
  · next hlabel hbody =>
      refine ⟨hlabel, ?_⟩
      intro hsentinel
      rw [hsentinel] at hbody
      cases hbody
  · next hlabel hbody =>
      refine ⟨hlabel, ?_⟩
      intro hsentinel
      rw [hsentinel] at hbody
      cases hbody
  · cases h

end Settling

/-! ## Offset entries -/

theorem entry_eq_ok_iff {o : Operand} {names : String × String} :
    o.entry = .ok names ↔ o.reference? = some names := by
  rw [Operand.entry]
  cases o.reference? with
  | none => simp
  | some found => simp

/-- Operands that are taken in declare an entry each, and these are added in order. -/
theorem declareEntries_eq_ok {declared after : List Declaration} {operands : List Operand}
    (h : declareEntries declared operands = .ok after) :
    ∃ news : List Declaration,
      operands.map declarationOf? = news.map some ∧ after = declared ++ news := by
  induction operands generalizing declared with
  | nil =>
      cases h
      exact ⟨[], rfl, (List.append_nil _).symm⟩
  | cons o rest ih =>
      rw [declareEntries] at h
      split at h
      · cases h
      · next label table hentry =>
          split at h
          · cases h
          · next hdeclare =>
              obtain ⟨-, rfl⟩ := OffsetTable.declare_eq_ok_iff.mp hdeclare
              obtain ⟨news, hnews, rfl⟩ := ih h
              refine ⟨⟨⟨label, table⟩, o.span⟩ :: news, ?_, ?_⟩
              · rw [List.map_cons, List.map_cons, hnews, declarationOf?,
                  entry_eq_ok_iff.mp hentry]
                rfl
              · rw [List.append_assoc, List.singleton_append]

/-- An operand that is not taken in declares no entry, or one whose label was declared
before; the operands in front of it were taken in. -/
theorem declareEntries_eq_error {declared : List Declaration} {operands : List Operand}
    {e : Diagnostic} (h : declareEntries declared operands = .error e) :
    ∃ (front back : List Operand) (o : Operand) (news : List Declaration),
      operands = front ++ o :: back ∧ front.map declarationOf? = news.map some ∧
      (e = .of o.span (.malformedTableEntry o.text) ∨
        ∃ label table first, o.reference? = some (label, table) ∧
          (declared ++ news).find? (·.label = label) = some first ∧
          e = ((Diagnostic.of o.span (.duplicateLabel label)).relate first.span
            .firstDeclared).advise .sharedRootOnly) := by
  induction operands generalizing declared with
  | nil => cases h
  | cons o rest ih =>
      rw [declareEntries] at h
      split at h
      · next hentry =>
          cases h
          refine ⟨[], rest, o, [], rfl, rfl, Or.inl ?_⟩
          rw [Operand.entry] at hentry
          split at hentry
          · cases hentry
          · cases hentry
            rfl
      · next label table hentry =>
          have hreference := entry_eq_ok_iff.mp hentry
          split at h
          · next hdeclare =>
              cases h
              refine ⟨[], rest, o, [], rfl, rfl, Or.inr ⟨label, table, ?_⟩⟩
              rw [OffsetTable.declare] at hdeclare
              split at hdeclare
              · cases hdeclare
              · next first hfirst =>
                  split at hdeclare
                  · cases hdeclare
                  · cases hdeclare
                    refine ⟨first, hreference, ?_, rfl⟩
                    rw [List.append_nil]
                    exact hfirst
          · next hdeclare =>
              obtain ⟨-, rfl⟩ := OffsetTable.declare_eq_ok_iff.mp hdeclare
              obtain ⟨front, back, p, news, rfl, hnews, hcause⟩ := ih h
              refine ⟨o :: front, back, p, ⟨⟨label, table⟩, o.span⟩ :: news, rfl, ?_, ?_⟩
              · rw [List.map_cons, List.map_cons, hnews, declarationOf?, hreference]
                rfl
              · rw [List.append_assoc, List.singleton_append] at hcause
                exact hcause

theorem declareOffsets_eq_ok {directive : Directive} (h : d.declareOffsets directive = .ok next) :
    ∃ news : List Declaration, directive.operands.map declarationOf? = news.map some ∧
      next = { d with declared := d.declared ++ news } := by
  rw [declareOffsets] at h
  split at h
  · cases h
  · split at h
    · cases h
    · next hentries =>
        cases h
        obtain ⟨news, hnews, rfl⟩ := declareEntries_eq_ok hentries
        exact ⟨news, hnews, rfl⟩

/-! ## Lines among the tables -/

section Tables

theorem labelOf?_of_ofLine (h : Statement.ofLine line = .ok s) : labelOf? line = s.label := by
  rw [labelOf?, h]

theorem operandsOn_of_directive (h : Statement.ofLine line = .ok s) {directive : Directive}
    (hbody : s.body = .directive directive) : operandsOn line = directive.operands := by
  obtain ⟨_, _, body⟩ := s
  cases hbody
  rw [operandsOn, h]

theorem operandsOn_of_not_directive (h : Statement.ofLine line = .ok s)
    (hbody : ∀ directive, s.body ≠ .directive directive) : operandsOn line = [] := by
  obtain ⟨_, _, body⟩ := s
  rw [operandsOn, h]
  cases body with
  | empty => rfl
  | sentinel => rfl
  | directive directive => exact absurd rfl (hbody directive)

/-- A label that no entry refers to is passed over. -/
theorem labelled_of_tables
    (hclear : ∀ label, s.label = some label → d.refersTo label.name = false) :
    ∃ pending, d.labelled s.label = { d with pending } := by
  cases hlabel : s.label with
  | none => exact ⟨d.pending, rfl⟩
  | some label => exact ⟨_, declareLabel_of_waits (Or.inr (hclear label hlabel))⟩

/-- A line among the tables whose label ends nothing adds the entries that its operands
declare. -/
theorem read_of_tables (hmode : d.mode = .table) (hunderway : d.underway = none)
    (hclear : ∀ label, labelOf? line = some label → d.refersTo label.name = false)
    {verdict : Verdict} (h : d.read line = (next, verdict))
    (hverdict : ∀ e, verdict ≠ .failed e) :
    ∃ (news : List Declaration) (pending : List Label),
      (operandsOn line).map declarationOf? = news.map some ∧
      next = { d with declared := d.declared ++ news, pending } := by
  cases hstatement : Statement.ofLine line with
  | error e =>
      rw [read, hstatement] at h
      cases h
      exact absurd rfl (hverdict e)
  | ok s =>
      rw [labelOf?_of_ofLine hstatement] at hclear
      obtain ⟨pending, hlabelled⟩ := labelled_of_tables hclear
      rw [read_of_statement hunderway hstatement, readStatement_eq, hlabelled] at h
      cases hbody : s.body with
      | directive directive =>
          rw [operandsOn_of_directive hstatement hbody]
          simp only [hbody, readDirective, hmode] at h
          split at h
          · cases h
            exact absurd rfl (hverdict _)
          · next hdeclare =>
              cases h
              obtain ⟨news, hnews, rfl⟩ := declareOffsets_eq_ok hdeclare
              exact ⟨news, pending, hnews, by rw [← hmode]⟩
      | empty =>
          rw [operandsOn_of_not_directive hstatement (by simp [hbody])]
          rw [hbody] at h
          cases h
          exact ⟨[], pending, rfl, by rw [List.append_nil]⟩
      | sentinel =>
          rw [operandsOn_of_not_directive hstatement (by simp [hbody])]
          rw [hbody] at h
          cases h
          exact ⟨[], pending, rfl, by rw [List.append_nil]⟩

/-- A draft that a label has just switched to records: the labels before it are
forgotten, and the switch is remarked. -/
def switched (d : Draft) (label : Label) : Draft :=
  { d with mode := .data, pending := [], log := d.log ++ [.switchedToData label.name] }

/-- The line that ends the tables is already read as one among the records. -/
theorem read_of_switch (hmode : d.mode = .table) (hunderway : d.underway = none) {label : Label}
    (hlabel : labelOf? line = some label) (hrefers : d.refersTo label.name = true) :
    d.read line = (d.switched label).read line := by
  cases hstatement : Statement.ofLine line with
  | error e =>
      rw [labelOf?, hstatement] at hlabel
      cases hlabel
  | ok s =>
      rw [labelOf?_of_ofLine hstatement] at hlabel
      have hlabelled : d.labelled s.label = (d.switched label).labelled s.label := by
        rw [hlabel]
        exact (declareLabel_of_ends hmode hrefers).trans
          (declareLabel_of_waits (d := d.switched label) (Or.inl rfl)).symm
      rw [read_of_statement hunderway hstatement, readStatement_eq, hlabelled]
      rw [read_of_statement (d := d.switched label) hunderway hstatement, readStatement_eq]

end Tables

/-! ## Lines among the records -/

/-- The record that the waiting labels of a draft will name, given the lines to come. -/
def awaits (d : Draft) (lines : List Line) : Option Record :=
  match d.underway with
  | none => recordBelow? d.entrySize lines
  | some (_, reading) => Reading.over? d.entrySize (.underway reading) lines

section Records

theorem awaits_of_none (h : d.underway = none) (lines : List Line) :
    d.awaits lines = recordBelow? d.entrySize lines := by
  rw [awaits, h]

theorem awaits_of_some {start : Span} {reading : Reading} (h : d.underway = some (start, reading))
    (lines : List Line) :
    d.awaits lines = Reading.over? d.entrySize (.underway reading) lines := by
  rw [awaits, h]

theorem awaits_nil (d : Draft) : d.awaits [] = none := by
  rw [awaits]
  split <;> rfl

/-- Among the records a label waits with the others. -/
theorem labelled_of_records (hmode : d.mode = .data) (label : Option Label) :
    d.labelled label = { d with pending := d.pending ++ label.toList } := by
  cases label with
  | none =>
      rw [Option.toList_none, List.append_nil]
      rfl
  | some label => exact declareLabel_of_waits (Or.inl hmode)

/-- The labels that wait for a record once the label of a line has joined them. -/
def waiting (d : Draft) (line : Line) : List Label :=
  d.pending ++ (labelOf? line).toList

/-- What a line among the records does that completes none: its label waits with the
others, and they go on waiting for the same record. -/
def GoesOn (d : Draft) (line : Line) (next : Draft) : Prop :=
  ∃ underway, next = { d with pending := d.waiting line, underway } ∧
    ∀ rest, d.awaits (line :: rest) = next.awaits rest

/-- What a line among the records does that completes one: it is the record that the
labels waited for, and they are bound to it. -/
def Completes (d : Draft) (line : Line) (next : Draft) (record : Record) : Prop :=
  d.waiting line ≠ [] ∧ conflict? d.bindings record (d.waiting line) = none ∧
    next = { d with
      bindings := bindAll d.bindings record (d.waiting line)
      pending := []
      underway := none } ∧
    ∀ rest, d.awaits (line :: rest) = some record

/-- A line among the records goes on or completes a record, and a label stands on it only
where no record is being read. -/
theorem read_of_records (hmode : d.mode = .data) (h : d.read line = (next, .reading)) :
    (∀ label, labelOf? line = some label → d.underway = none) ∧
      (d.GoesOn line next ∨ ∃ record, d.Completes line next record) := by
  cases hstatement : Statement.ofLine line with
  | error e =>
      rw [read, hstatement] at h
      cases h
  | ok s =>
      have hlabel := labelOf?_of_ofLine hstatement
      cases hunderway : d.underway with
      | none =>
          refine ⟨fun _ _ => rfl, ?_⟩
          rw [read_of_statement hunderway hstatement, readStatement_eq,
            labelled_of_records hmode, ← hlabel] at h
          have hawaits : ∀ rest, d.awaits (line :: rest) =
              recordBelow? d.entrySize (line :: rest) := fun rest => awaits_of_none hunderway _
          cases hbody : s.body with
          | empty =>
              rw [hbody] at h
              cases h
              refine Or.inl ⟨d.underway, rfl, ?_⟩
              intro rest
              rw [hawaits, recordBelow?, hstatement]
              simp only [hbody]
              exact (awaits_of_none hunderway rest).symm
          | sentinel =>
              rw [hbody] at h
              cases h
          | directive directive =>
              simp only [hbody, readDirective, hmode] at h
              have hbelow : ∀ rest progress, (Reading.begin directive).feed d.entrySize
                  directive.width directive.operands = .ok progress →
                  d.awaits (line :: rest) = Reading.over? d.entrySize progress rest := by
                intro rest progress hfeed
                rw [hawaits, recordBelow?, hstatement]
                simp only [hbody, hfeed]
              rcases settle_eq_reading h with ⟨reading, hfeed, rfl⟩ | ⟨record, hfeed, hbind⟩
              · exact Or.inl ⟨some (directive.span, reading), by rw [← hmode]; rfl,
                  fun rest => hbelow rest _ hfeed⟩
              · obtain ⟨hpending, hconflict, rfl⟩ := bind_eq_ok hbind
                refine Or.inr ⟨record, hpending, hconflict, by rw [← hmode]; rfl, ?_⟩
                intro rest
                rw [hbelow rest _ hfeed, Reading.over?]
      | some begun =>
          obtain ⟨start, reading⟩ := begun
          rw [read_of_underway hunderway hstatement] at h
          have hover : ∀ rest progress, reading.resume d.entrySize s = .ok progress →
              d.awaits (line :: rest) = Reading.over? d.entrySize progress rest := by
            intro rest progress hresume
            rw [awaits_of_some hunderway, Reading.over?, hstatement]
            simp only [hresume]
          -- a label would have interrupted the record
          have hwaiting : ∀ progress, reading.resume d.entrySize s = .ok progress →
              s.label = none ∧ d.pending = d.waiting line := by
            intro progress hresume
            have hnone := (label_eq_none_of_resume hresume).1
            rw [waiting, hlabel, hnone, Option.toList_none, List.append_nil]
            exact ⟨rfl, rfl⟩
          rcases settle_eq_reading h with ⟨reading', hresume, rfl⟩ | ⟨record, hresume, hbind⟩
          · obtain ⟨hnone, hpending⟩ := hwaiting _ hresume
            refine ⟨fun label hsome => ?_, Or.inl ⟨some (start, reading'), by rw [← hpending], ?_⟩⟩
            · rw [hlabel, hnone] at hsome
              cases hsome
            · exact fun rest => hover rest _ hresume
          · obtain ⟨hnone, hpending⟩ := hwaiting _ hresume
            obtain ⟨hne, hconflict, rfl⟩ := bind_eq_ok hbind
            rw [hpending] at hne hconflict
            refine ⟨fun label hsome => ?_, Or.inr ⟨record, hne, hconflict, by rw [← hpending], ?_⟩⟩
            · rw [hlabel, hnone] at hsome
              cases hsome
            · intro rest
              rw [hover rest _ hresume, Reading.over?]

end Records

/-! ## The end -/

section End

/-- Only the line that ends the artifact ends the reading; its label waits in vain. -/
theorem read_eq_ended (h : d.read line = (next, .ended)) :
    ∃ s, Statement.ofLine line = .ok s ∧ s.body = .sentinel ∧ d.underway = none ∧
      next = d.labelled s.label := by
  cases hstatement : Statement.ofLine line with
  | error e =>
      rw [read, hstatement] at h
      cases h
  | ok s =>
      cases hunderway : d.underway with
      | some begun =>
          rw [read_of_underway hunderway hstatement] at h
          exact absurd h settle_ne_ended
      | none =>
          rw [read_of_statement hunderway hstatement, readStatement_eq] at h
          cases hbody : s.body with
          | empty =>
              rw [hbody] at h
              cases h
          | sentinel =>
              rw [hbody] at h
              cases h
              exact ⟨s, rfl, hbody, rfl, rfl⟩
          | directive directive =>
              simp only [hbody, readDirective] at h
              split at h
              · split at h <;> cases h
              · exact absurd h settle_ne_ended

theorem endsArtifact_iff : endsArtifact line = true ↔
    ∃ s, Statement.ofLine line = .ok s ∧ s.body = .sentinel := by
  rw [endsArtifact]
  cases Statement.ofLine line with
  | error e => simp
  | ok s =>
      obtain ⟨line, label, body⟩ := s
      cases body <;> simp

/-- The reading does not go on after the line that ends the artifact. -/
theorem endsArtifact_of_read (h : d.read line = (next, .reading)) : endsArtifact line = false := by
  rw [Bool.eq_false_iff]
  intro hends
  obtain ⟨s, hstatement, hbody⟩ := endsArtifact_iff.mp hends
  cases hunderway : d.underway with
  | some begun =>
      rw [read_of_underway hunderway hstatement] at h
      rcases settle_eq_reading h with ⟨_, hresume, -⟩ | ⟨_, hresume, -⟩
      · exact (label_eq_none_of_resume hresume).2 hbody
      · exact (label_eq_none_of_resume hresume).2 hbody
  | none =>
      rw [read_of_statement hunderway hstatement, readStatement_eq, hbody] at h
      cases h

/-- Lines after the end of the artifact are not read. -/
theorem run_upToEnd (d : Draft) (lines : List Line) : d.run (upToEnd lines) = d.run lines := by
  induction lines generalizing d with
  | nil => rfl
  | cons line rest ih =>
      rw [upToEnd]
      generalize hread : d.read line = outcome
      obtain ⟨next, verdict⟩ := outcome
      split
      · next hends =>
          rw [run_singleton, run, hread]
          cases verdict with
          | reading =>
              rw [endsArtifact_of_read hread] at hends
              cases hends
          | ended => rfl
          | failed e => rfl
      · rw [run, run, hread]
        cases verdict with
        | reading => exact ih next
        | ended => rfl
        | failed e => rfl

end End

end Draft

end SpriteTables
