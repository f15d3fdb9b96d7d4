import SpriteTables.Proofs.Artifact.Stepwise
import SpriteTables.Proofs.Guarded.Record
import SpriteTables.Proofs.Text.Numbered

/-!
# Artifacts, with their records in slots

The distinct records of an artifact are kept in a list while it is read. A complete record has a
slot in that list, its own or a new one at the end, and the labels above the record are inserted
at that slot. This module reads artifacts that way, with a checked look-up of the slot for every
label. No text that fits into memory makes reading it fault (`parse_eq`).
-/

set_option autoImplicit false

namespace SpriteTables.Guarded

open LabelledRecord (addAll gather)
open Text (Span Line)

/-! ## Slots -/

/-- Inserts a label at a slot. -/
def insertAt (records : List LabelledRecord) (slot : Nat) (label : String) :
    Checked (List LabelledRecord) := do
  let entry ← index records slot
  return records.set slot { entry with labels := Ascending.insert label entry.labels }

/-- Inserts labels at a slot, one after the other. -/
def insertAll (slot : Nat) (records : List LabelledRecord) :
    List Label → Checked (List LabelledRecord)
  | [] => .ok records
  | label :: rest => do
      let next ← insertAt records slot label.name
      insertAll slot next rest

/-- Inserts labels at the slot of a record, which is a new one for a new record. -/
def fill (records : List LabelledRecord) (record : Record) (labels : List Label) :
    Checked (List LabelledRecord) :=
  match (records.map (·.record)).idxOf? record with
  | some slot => insertAll slot records labels
  | none => insertAll records.length (records ++ [⟨record, []⟩]) labels

section Slots

variable {records : List LabelledRecord} {record : Record} {slot : Nat} {labels : List Label}

/-- A label at the slot of a record is one of the record. -/
theorem insertAt_eq (h : (records.map (·.record)).idxOf? record = some slot) (label : String) :
    insertAt records slot label = .ok (LabelledRecord.add record label records) := by
  induction records generalizing slot with
  | nil => cases h
  | cons entry rest ih =>
      rw [List.map_cons, List.idxOf?_cons] at h
      rw [LabelledRecord.add]
      by_cases hentry : entry.record = record
      · rw [if_pos (by simpa using hentry)] at h
        cases h
        rw [if_pos hentry]
        rfl
      · rw [if_neg (by simpa using hentry)] at h
        obtain ⟨before, hbefore, rfl⟩ := Option.map_eq_some_iff.mp h
        have hstep : insertAt (entry :: rest) (before + 1) label =
            (insertAt rest before label).map (entry :: ·) := by
          rw [insertAt, insertAt, index, index, List.getElem?_cons_succ]
          cases rest[before]? <;> rfl
        rw [hstep, ih hbefore, if_neg hentry]
        rfl

/-- Labels at the slot of a record are added to it. -/
theorem insertAll_eq (h : (records.map (·.record)).idxOf? record = some slot)
    (labels : List Label) :
    insertAll slot records labels =
      .ok (addAll record records labels) := by
  induction labels generalizing records with
  | nil => rfl
  | cons label rest ih =>
      have hmem : record ∈ records.map (·.record) :=
        List.isSome_idxOf?.mp (Option.isSome_iff_exists.mpr ⟨slot, h⟩)
      have hnext : ((LabelledRecord.add record label.name records).map (·.record)).idxOf? record =
          some slot := by
        rw [LabelledRecord.map_record_add, if_pos hmem]
        exact h
      rw [insertAll, insertAt_eq h, ok_bind, ih hnext]
      rfl

/-- The first label of a new record is added to an empty slot at the end. -/
theorem add_concat (h : record ∉ records.map (·.record)) (label : String) :
    LabelledRecord.add record label (records ++ [⟨record, []⟩]) =
      LabelledRecord.add record label records := by
  induction records with
  | nil =>
      rw [List.nil_append]
      simp [LabelledRecord.add, Ascending.insert]
  | cons entry rest ih =>
      obtain ⟨hentry, hrest⟩ := List.ne_and_not_mem_of_not_mem_cons h
      rw [List.cons_append, LabelledRecord.add, LabelledRecord.add, if_neg (Ne.symm hentry),
        if_neg (Ne.symm hentry), ih hrest]

theorem fill_eq (hne : labels ≠ []) :
    fill records record labels =
      .ok (addAll record records labels) := by
  rw [fill]
  split
  · next slot h => exact insertAll_eq h labels
  · next h =>
      have hnew : record ∉ records.map (·.record) := List.idxOf?_eq_none_iff.mp h
      have hslot : ((records ++ [(⟨record, []⟩ : LabelledRecord)]).map (·.record)).idxOf? record =
          some records.length := by
        rw [List.map_append, List.idxOf?, List.findIdx?_append, ← List.idxOf?, h]
        simp
      obtain ⟨label, rest, rfl⟩ := List.exists_cons_of_ne_nil hne
      rw [insertAll_eq hslot, addAll, List.foldl_cons, add_concat hnew]
      rfl

end Slots

/-! ## Drafts -/

/-- A draft with the distinct records bound so far in slots, each with its labels. -/
structure Slotted where
  draft : Draft
  records : List LabelledRecord := []

namespace Slotted

/-- A draft with the records that its bindings make. -/
def of (d : Draft) : Slotted :=
  ⟨d, gather d.bindings⟩

/-- Binds the waiting labels to a record that began at a directive. -/
def bind (s : Slotted) (start : Span) (record : Record) : Step Slotted := do
  let draft ← ofResult (s.draft.bind start record)
  let records ← fill s.records record s.draft.pending
  return ⟨draft, records⟩

/-- Takes in what a line has come to for the record that began at a directive. -/
def settle (s : Slotted) (start : Span) :
    Except Diagnostic Progress → Checked (Slotted × Verdict)
  | .error e => return (s, .failed e)
  | .ok (.underway reading) =>
      return ({ s with draft := { s.draft with underway := some (start, reading) } }, .reading)
  | .ok (.complete record) => do
      match ← (s.bind start record).run with
      | .error e => return (s, .failed e)
      | .ok next => return (next, .reading)

/-- Takes in a directive that begins a line of its own. -/
def readDirective (s : Slotted) (directive : Directive) : Checked (Slotted × Verdict) :=
  match s.draft.mode with
  | .table =>
      match s.draft.declareOffsets directive with
      | .error e => return (s, .failed e)
      | .ok next => return ({ s with draft := next }, .reading)
  | .data => do
      let outcome ← (feed s.draft.entrySize directive.width (.begin directive)
        directive.operands).run
      s.settle directive.span outcome

/-- Takes in a statement outside of any record. -/
def readStatement (s : Slotted) (statement : Statement) : Checked (Slotted × Verdict) :=
  let labelled : Slotted := { s with draft := s.draft.labelled statement.label }
  match statement.body with
  | .empty => return (labelled, .reading)
  | .sentinel => return (labelled, .ended)
  | .directive directive => labelled.readDirective directive

/-- Takes in one line. -/
def read (s : Slotted) (line : Line) : Checked (Slotted × Verdict) := do
  match ← (ofLine line).run with
  | .error e => return (s, .failed e)
  | .ok statement =>
      match s.draft.underway with
      | some (start, reading) => do
          let outcome ← (resume s.draft.entrySize reading statement).run
          s.settle start outcome
      | none => s.readStatement statement

/-- Takes in lines until the reading ends. -/
def run (s : Slotted) : List Line → Checked (Slotted × Verdict)
  | [] => return (s, .reading)
  | line :: rest => do
      match ← s.read line with
      | (next, .reading) => next.run rest
      | (next, verdict) => return (next, verdict)

/-- The artifact that was read. -/
def artifact (s : Slotted) : Artifact where
  offsets := .ofDeclarations s.draft.declared
  records := s.records

/-- What a reading has come to once it has ended or the text has. -/
def conclude : Slotted × Verdict → Logged (Except Diagnostic Artifact)
  | (s, .failed e) => ⟨s.draft.log, .error e⟩
  | (s, .ended) => ⟨s.draft.log ++ s.draft.closingRemarks, .ok s.artifact⟩
  | (s, .reading) =>
      match s.draft.underway with
      | some (_, reading) => ⟨s.draft.log, .error reading.cutOff⟩
      | none => ⟨s.draft.log ++ s.draft.closingRemarks, .ok s.artifact⟩

end Slotted

/-- Reads the artifact in a text. -/
def parse (entrySize : Nat) (text : String) : Checked (Logged (Except Diagnostic Artifact)) := do
  let lines ← linesOf text
  let outcome ← Slotted.run { draft := { entrySize } } lines
  return Slotted.conclude outcome

namespace Slotted

section Reading

variable {entrySize : Nat} {d next : Draft} {start : Span}

@[simp] theorem draft_of (d : Draft) : (of d).draft = d :=
  rfl

/-- Only binding a record changes the records. -/
theorem of_eq (h : next.bindings = d.bindings) : of next = { of d with draft := next } := by
  rw [of, h]
  rfl

/-- A record that is bound has its slot. -/
theorem fill_of_bind (h : d.Sound entrySize) {record : Record}
    (hbind : d.bind start record = .ok next) :
    fill (of d).records record (of d).draft.pending = .ok (of next).records := by
  obtain ⟨hpending, hconflict, rfl⟩ := Draft.bind_eq_ok hbind
  have hagrees := (Draft.conflict?_eq_none_iff h.functional).mp hconflict
  rw [draft_of, fill_eq hpending]
  exact congrArg _ (LabelledRecord.gather_bindAll hagrees).symm

theorem bind_eq (h : d.Sound entrySize) (start : Span) (record : Record) :
    ((of d).bind start record).run = .ok ((d.bind start record).map of) := by
  have hstep : ((of d).bind start record).run =
      .ok ((d.bind start record).bind fun next => .ok (of next)) := by
    apply run_bind_eq (run_ofResult _)
    intro next hbind
    rw [run_lift_bind_eq (fill_of_bind h hbind)]
    rfl
  rw [hstep]
  cases d.bind start record <;> rfl

theorem settle_eq (h : d.Sound entrySize) (start : Span) (outcome : Except Diagnostic Progress) :
    (of d).settle start outcome = .ok ((d.settle start outcome).map of id) := by
  rcases outcome with e | reading | record
  · rfl
  · rfl
  · rw [settle, bind_eq h, ok_bind, Draft.settle]
    cases d.bind start record <;> rfl

theorem readDirective_eq (h : d.Sound entrySize) (directive : Directive) :
    (of d).readDirective directive = .ok ((d.readDirective directive).map of id) := by
  rw [readDirective, Draft.readDirective, draft_of]
  cases hmode : d.mode with
  | table =>
      simp only
      cases hdeclare : d.declareOffsets directive with
      | error e => rfl
      | ok next =>
          obtain ⟨news, -, rfl⟩ := Draft.declareOffsets_eq_ok hdeclare
          rfl
  | data =>
      simp only
      rw [feed_eq (Reading.sound_begin directive), ok_bind, settle_eq h]

theorem bindings_labelled (d : Draft) (label : Option Label) :
    (d.labelled label).bindings = d.bindings := by
  cases label with
  | none => rfl
  | some label =>
      rw [Draft.labelled, Draft.declareLabel]
      split <;> rfl

theorem readStatement_eq {s : Statement} (hlabelled : (d.labelled s.label).Sound entrySize) :
    (of d).readStatement s = .ok ((d.readStatement s).map of id) := by
  have hof : of (d.labelled s.label) = { of d with draft := d.labelled s.label } :=
    of_eq (bindings_labelled d s.label)
  rw [readStatement, Draft.readStatement_eq, draft_of, ← hof]
  cases s.body with
  | empty => rfl
  | sentinel => rfl
  | directive directive => exact readDirective_eq hlabelled directive

/-- No line whose end is an address makes a sound draft fault. -/
theorem read_eq (h : d.Sound entrySize) {line : Line} (hline : line.span.stop < sizeBound) :
    (of d).read line = .ok ((d.read line).map of id) := by
  rw [read, ofLine_eq hline, ok_bind, Draft.read, draft_of]
  cases hs : Statement.ofLine line with
  | error e => rfl
  | ok s =>
      simp only
      cases hunderway : d.underway with
      | some begun =>
          obtain ⟨start, reading⟩ := begun
          simp only
          have hreading := h.underway start reading hunderway
          rw [h.entrySize_eq, resume_eq hreading, ok_bind, settle_eq h]
      | none =>
          exact readStatement_eq (Draft.sound_labelled h hs)

/-- No lines whose ends are addresses make a sound draft fault. -/
theorem run_eq (h : d.Sound entrySize) {lines : List Line}
    (hlines : ∀ line ∈ lines, line.span.stop < sizeBound) :
    (of d).run lines = .ok ((d.run lines).map of id) := by
  induction lines generalizing d with
  | nil => rfl
  | cons line rest ih =>
      obtain ⟨hline, hrest⟩ := List.forall_mem_cons.mp hlines
      have hsound := Draft.sound_read h line
      rw [run, read_eq h hline, ok_bind, Draft.run]
      generalize d.read line = outcome at hsound ⊢
      obtain ⟨next, verdict⟩ := outcome
      cases verdict with
      | reading => exact ih hsound hrest
      | ended => rfl
      | failed e => rfl

end Reading

theorem conclude_map (outcome : Draft × Verdict) :
    conclude (outcome.map of id) = Draft.conclude outcome := by
  obtain ⟨d, verdict⟩ := outcome
  cases verdict <;> rfl

end Slotted

/-- No text that fits into memory makes reading it fault. -/
theorem parse_eq {text : String} (h : Addressable text) (entrySize : Nat) :
    parse entrySize text = .ok (Artifact.parse entrySize text) := by
  have hlines : ∀ line ∈ Text.linesOf text, line.span.stop < sizeBound := by
    intro line hline
    have hstop := (Text.line_in_whole hline).stop_le_byteSize
    rw [Addressable] at h
    rw [sizeBound]
    exact Nat.lt_of_le_of_lt hstop (by omega)
  -- no record is bound before the first line, and none has a slot
  have hrun : Slotted.run { draft := { entrySize } } (Text.linesOf text) =
      .ok ((Draft.run { entrySize } (Text.linesOf text)).map Slotted.of id) :=
    Slotted.run_eq (Draft.sound_start entrySize) hlines
  rw [parse, linesOf_eq h, ok_bind, hrun, ok_bind, Slotted.conclude_map]
  rfl

end SpriteTables.Guarded
