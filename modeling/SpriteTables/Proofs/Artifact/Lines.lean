import SpriteTables.Proofs.Artifact.Bindings
import SpriteTables.Proofs.OffsetTable.Growth
import SpriteTables.Proofs.Record.Written

/-!
# What written lines do to a draft

A written artifact has lines of four kinds: labels, offset entries, counts and payload words. This
module runs a draft through stretches of each kind (`run_labelLines`, `run_entryLines`,
`run_recordLines`) and says what becomes of a record that is complete with its last line
(`settle_complete_of_agrees`, `settle_complete_of_not_agrees`). A draft that fails does so on one
line, and the lines after it are not read (`run_append`).
-/

set_option autoImplicit false

namespace SpriteTables

open Text (Span Line)

namespace Draft

variable {d next : Draft} {line : Line} {lines rest : List Line}

/-! ## Stretches of lines -/

/-- The lines after a stretch are read by the draft that it leaves, if that one is
still reading. -/
theorem run_append (d : Draft) (lines rest : List Line) :
    d.run (lines ++ rest) =
      match d.run lines with
      | (next, .reading) => next.run rest
      | outcome => outcome := by
  -- the draft is generalised, since each line leaves another one
  induction lines generalizing d with
  | nil => rfl
  | cons line others ih =>
      rw [List.cons_append, run, run]
      rcases d.read line with ⟨after, verdict⟩
      cases verdict with
      | reading => exact ih after
      | ended => rfl
      | failed e => rfl

theorem run_append_of_reading (h : d.run lines = (next, .reading)) :
    d.run (lines ++ rest) = next.run rest := by
  rw [run_append, h]

theorem run_append_of_failed {e : Diagnostic} (h : d.run lines = (next, .failed e)) :
    d.run (lines ++ rest) = (next, .failed e) := by
  rw [run_append, h]

theorem run_singleton (d : Draft) (line : Line) : d.run [line] = d.read line := by
  rw [run]
  rcases d.read line with ⟨after, verdict⟩
  cases verdict <;> rfl

theorem run_cons_of_reading (h : d.read line = (next, .reading)) :
    d.run (line :: rest) = next.run rest := by
  rw [run, h]

theorem run_cons_of_failed {e : Diagnostic} (h : d.read line = (next, .failed e)) :
    d.run (line :: rest) = (next, .failed e) := by
  rw [run, h]

theorem read_of_statement (hunderway : d.underway = none) {s : Statement}
    (hstatement : Statement.ofLine line = .ok s) : d.read line = d.readStatement s := by
  rw [read, hstatement]
  simp only [hunderway]

/-! ## Labels -/

theorem read_labelLine (hunderway : d.underway = none) {name : String}
    (hname : isIdentifier name.toList = true)
    (hline : line.chars = (Listing.labelLine name).toList) :
    ∃ label : Label, label.name = name ∧ d.read line = (d.declareLabel label, .reading) := by
  obtain ⟨label, hlabel, hstatement⟩ := Statement.ofLine_of_labelLine hname hline
  exact ⟨label, hlabel, read_of_statement hunderway hstatement⟩

/-- A label that does not end the tables waits with the others. -/
theorem declareLabel_of_waits {label : Label}
    (h : d.mode = .data ∨ d.refersTo label.name = false) :
    d.declareLabel label = { d with pending := d.pending ++ [label] } := by
  have hmode : d.mode.afterLabel (d.refersTo label.name) = d.mode := by
    rcases h with h | h
    · rw [h]
      rfl
    · rw [h]
      cases d.mode <;> rfl
  rw [declareLabel]
  exact if_pos hmode

/-- A label that an entry refers to ends the tables and waits alone. -/
theorem declareLabel_of_ends {label : Label} (hmode : d.mode = .table)
    (hrefers : d.refersTo label.name = true) :
    d.declareLabel label =
      { d with
        mode := .data
        pending := [label]
        log := d.log ++ [.switchedToData label.name] } := by
  rw [declareLabel, hmode, hrefers]
  rfl

theorem run_labelLines_of_data (hunderway : d.underway = none) (hmode : d.mode = .data)
    {names : List String} (hnames : ∀ name ∈ names, isIdentifier name.toList = true)
    (hlines : lines.map (·.chars) = names.map fun name => (Listing.labelLine name).toList) :
    ∃ labels : List Label, labels.map (·.name) = names ∧
      d.run lines = ({ d with pending := d.pending ++ labels }, .reading) := by
  induction names generalizing d lines with
  | nil =>
      obtain rfl : lines = [] := List.map_eq_nil_iff.mp hlines
      exact ⟨[], rfl, by rw [List.append_nil]; rfl⟩
  | cons name others ih =>
      obtain ⟨hname, hothers⟩ := List.forall_mem_cons.mp hnames
      obtain ⟨line, after, rfl, hline, hafter⟩ := List.map_eq_cons_iff.mp hlines
      obtain ⟨label, hlabel, hread⟩ := read_labelLine hunderway hname hline
      rw [declareLabel_of_waits (Or.inl hmode)] at hread
      obtain ⟨labels, hlabels, hrun⟩ :=
        ih (d := { d with pending := d.pending ++ [label] }) hunderway hmode hothers hafter
      refine ⟨label :: labels, by rw [List.map_cons, hlabel, hlabels], ?_⟩
      rw [run_cons_of_reading hread, hrun, List.append_assoc, List.singleton_append]

/-- The next label may belong to a record: the records have begun and no label waits
for one, or it is one that ends the tables. -/
def Opens (d : Draft) (name : String) : Prop :=
  (d.mode = .data ∧ d.pending = []) ∨ (d.mode = .table ∧ d.refersTo name = true)

/-- Labels of a record wait for it, and no others do. -/
theorem run_labelLines (hunderway : d.underway = none) {name : String} {names : List String}
    (hopens : d.Opens name)
    (hnames : ∀ n ∈ name :: names, isIdentifier n.toList = true)
    (hlines : lines.map (·.chars) =
      (name :: names).map fun n => (Listing.labelLine n).toList) :
    ∃ (labels : List Label) (log : List LogEvent), labels.map (·.name) = name :: names ∧
      d.run lines = ({ d with mode := .data, pending := labels, log }, .reading) := by
  rcases hopens with ⟨hmode, hpending⟩ | ⟨hmode, hrefers⟩
  · -- the records have begun
    obtain ⟨labels, hlabels, hrun⟩ := run_labelLines_of_data hunderway hmode hnames hlines
    refine ⟨labels, d.log, hlabels, ?_⟩
    rw [hrun, hpending, List.nil_append, ← hmode]
  · -- the first label ends the tables, the others wait with it
    obtain ⟨hname, hothers⟩ := List.forall_mem_cons.mp hnames
    obtain ⟨line, after, rfl, hline, hafter⟩ := List.map_eq_cons_iff.mp hlines
    obtain ⟨label, rfl, hread⟩ := read_labelLine hunderway hname hline
    rw [declareLabel_of_ends hmode hrefers] at hread
    obtain ⟨labels, rfl, hrun⟩ := run_labelLines_of_data (d := { d with
      mode := .data
      pending := [label]
      log := d.log ++ [.switchedToData label.name] }) hunderway rfl hothers hafter
    refine ⟨label :: labels, d.log ++ [.switchedToData label.name], rfl, ?_⟩
    rw [run_cons_of_reading hread]
    exact hrun

/-! ## Offset entries -/

/-- The line that declares an offset entry. -/
def entryLine (e : OffsetEntry) : String :=
  Listing.directiveLine .word [e.label ++ "-" ++ e.table]

theorem padded_entry {e : OffsetEntry} (hlabel : isIdentifier e.label.toList = true)
    (htable : isIdentifier e.table.toList = true) :
    ∀ item ∈ [e], Text.Padded (item.label ++ "-" ++ item.table).toList
      (item.label.toList ++ '-' :: item.table.toList) := by
  intro item hitem
  obtain rfl := List.mem_singleton.mp hitem
  have hchars : (item.label ++ "-" ++ item.table).toList =
      item.label.toList ++ '-' :: item.table.toList := by
    simp [String.toList_append]
  rw [hchars]
  refine .refl (List.append_ne_nil_of_right_ne_nil _ (List.cons_ne_nil _ _)) fun c hc => ?_
  rcases List.mem_append.mp hc with hc | hc
  · exact isPlain_of_isIdentifier hlabel c hc
  · rcases List.mem_cons.mp hc with rfl | hc
    · decide
    · exact isPlain_of_isIdentifier htable c hc

theorem oneLine_entryLine {e : OffsetEntry} (hlabel : isIdentifier e.label.toList = true)
    (htable : isIdentifier e.table.toList = true) : Text.OneLine (entryLine e) :=
  Statement.oneLine_directiveLine (padded_entry hlabel htable)

/-- An offset entry's line holds one operand that names label and table. -/
theorem ofLine_of_entryLine {e : OffsetEntry} (hlabel : isIdentifier e.label.toList = true)
    (htable : isIdentifier e.table.toList = true) (hline : line.chars = (entryLine e).toList) :
    ∃ (directive : Directive) (o : Operand), directive.width = .word ∧ directive.operands = [o] ∧
      o.reference? = some (e.label, e.table) ∧
      Statement.ofLine line = .ok { line, body := .directive directive } := by
  obtain ⟨directive, hwidth, hoperands, hstatement⟩ := Statement.ofLine_of_directiveLine
    (List.cons_ne_nil e []) (padded_entry hlabel htable) hline
  obtain ⟨o, others, hdirective, ho, hothers⟩ := List.map_eq_cons_iff.mp hoperands
  obtain rfl : others = [] := List.map_eq_nil_iff.mp hothers
  refine ⟨directive, o, hwidth, hdirective, ?_, hstatement⟩
  rw [Operand.reference?, ho, tokens?_reference hlabel htable, String.ofList_toList,
    String.ofList_toList]

theorem readDirective_of_table (hmode : d.mode = .table) {directive : Directive}
    (h : d.declareOffsets directive = .ok next) :
    d.readDirective directive = (next, .reading) := by
  rw [readDirective, hmode]
  simp only [h]

/-- An entry that may be declared is. -/
theorem read_entryLine (hunderway : d.underway = none) (hmode : d.mode = .table)
    {e : OffsetEntry} (hlabel : isIdentifier e.label.toList = true)
    (htable : isIdentifier e.table.toList = true)
    (hadmits : OffsetTable.Admits (d.declared.map (·.toOffsetEntry)) e)
    (hline : line.chars = (entryLine e).toList) :
    ∃ span, d.read line = ({ d with declared := d.declared ++ [⟨e, span⟩] }, .reading) := by
  obtain ⟨directive, o, hwidth, hoperands, hreference, hstatement⟩ :=
    ofLine_of_entryLine hlabel htable hline
  have hdeclare : OffsetTable.declare d.declared ⟨e, o.span⟩ = .ok (d.declared ++ [⟨e, o.span⟩]) :=
    OffsetTable.declare_eq_ok_iff.mpr ⟨hadmits, rfl⟩
  have hentries : declareEntries d.declared directive.operands =
      .ok (d.declared ++ [⟨e, o.span⟩]) := by
    rw [hoperands, declareEntries, Operand.entry, hreference]
    simp only [hdeclare]
    rfl
  have hoffsets : d.declareOffsets directive =
      .ok { d with declared := d.declared ++ [⟨e, o.span⟩] } := by
    rw [declareOffsets, hwidth, hentries]
  refine ⟨o.span, ?_⟩
  rw [read_of_statement hunderway hstatement]
  exact readDirective_of_table hmode hoffsets

/-- Entries each of which may follow those before it are all declared. -/
theorem run_entryLines (hunderway : d.underway = none) (hmode : d.mode = .table)
    {entries : List OffsetEntry}
    (hnames : ∀ e ∈ entries,
      isIdentifier e.label.toList = true ∧ isIdentifier e.table.toList = true)
    (hadmits : OffsetTable.AdmitsAll (d.declared.map (·.toOffsetEntry)) entries)
    (hlines : lines.map (·.chars) = entries.map fun e => (entryLine e).toList) :
    ∃ declared : List Declaration,
      declared.map (·.toOffsetEntry) = d.declared.map (·.toOffsetEntry) ++ entries ∧
      d.run lines = ({ d with declared }, .reading) := by
  induction entries generalizing d lines with
  | nil =>
      obtain rfl : lines = [] := List.map_eq_nil_iff.mp hlines
      exact ⟨d.declared, (List.append_nil _).symm, rfl⟩
  | cons e others ih =>
      obtain ⟨⟨hlabel, htable⟩, hothers⟩ := List.forall_mem_cons.mp hnames
      obtain ⟨hfirst, hafter⟩ := hadmits
      obtain ⟨line, after, rfl, hline, hlines⟩ := List.map_eq_cons_iff.mp hlines
      obtain ⟨span, hread⟩ := read_entryLine hunderway hmode hlabel htable hfirst hline
      have hdeclared : (d.declared ++ [Declaration.mk e span]).map (·.toOffsetEntry) =
          d.declared.map (·.toOffsetEntry) ++ [e] := List.map_append
      rw [← hdeclared] at hafter
      obtain ⟨declared, hall, hrun⟩ := ih (d := { d with declared := d.declared ++ [⟨e, span⟩] })
        hunderway hmode hothers hafter hlines
      refine ⟨declared, ?_, ?_⟩
      · rw [hall]
        simp only [hdeclared, List.append_assoc, List.singleton_append]
      · rw [run_cons_of_reading hread]
        exact hrun

/-! ## Records -/

theorem read_of_underway {start : Span} {r : Reading} (hunderway : d.underway = some (start, r))
    {s : Statement} (hstatement : Statement.ofLine line = .ok s) :
    d.read line = d.settle start (r.resume d.entrySize s) := by
  rw [read, hstatement]
  simp only [hunderway]

/-- The payload lines of a record complete it, the last one and none before. -/
theorem run_groupLines {record : Record} {width : Width} {groups : List (List Int16)}
    {start : Span} {r : Reading} {done : List Int16} (hne : groups ≠ [])
    (hgroups : ∀ group ∈ groups, group ≠ []) (hunderway : d.underway = some (start, r))
    (hr : r.Holds record done) (hpayload : record.payload = done ++ groups.flatten)
    (hlines : lines.map (·.chars) =
      groups.map fun group => (Listing.groupLine width group).toList) :
    ∃ underway,
      d.run lines = ({ d with underway } : Draft).settle start (.ok (.complete record)) := by
  induction groups generalizing d r done lines with
  | nil => exact absurd rfl hne
  | cons group others ih =>
      obtain ⟨hgroup, hothers⟩ := List.forall_mem_cons.mp hgroups
      obtain ⟨line, after, rfl, hline, hafter⟩ := List.map_eq_cons_iff.mp hlines
      obtain ⟨s, hstatement, progress, hresume, hprogress⟩ :=
        Reading.resume_groupLine hr hgroup hpayload hline
      have hread : d.read line = d.settle start (.ok progress) := by
        rw [read_of_underway hunderway hstatement, hresume]
      -- words are missing, so another line follows
      rcases progress with next | found
      · obtain ⟨hnext, hmore⟩ := hprogress
        have hrest : others ≠ [] := by
          rintro rfl
          exact hmore (by simp [hpayload])
        obtain ⟨underway, hrun⟩ := ih (d := { d with underway := some (start, next) }) hrest
          hothers rfl hnext (by simp [hpayload]) hafter
        exact ⟨underway, (run_cons_of_reading hread).trans hrun⟩
      · obtain ⟨rfl, hdone⟩ := hprogress
        -- no words are left, and every further line would hold one
        have hrest : others.flatten = [] := by simpa [hpayload] using hdone
        obtain rfl : others = [] := by
          cases others with
          | nil => rfl
          | cons second more =>
              have hsecond : second = [] := (List.append_eq_nil_iff.mp hrest).1
              exact absurd hsecond (hothers second List.mem_cons_self)
        obtain rfl : after = [] := List.map_eq_nil_iff.mp hafter
        exact ⟨d.underway, (run_singleton d line).trans hread⟩

/-- The lines of a record among the records complete it. -/
theorem run_recordLines (hunderway : d.underway = none) (hmode : d.mode = .data)
    {record : Record} (hfits : record.Fits d.entrySize) {width : Width}
    (hlines : lines.map (·.chars) =
      (Listing.directiveLine .word [Listing.wordText record.header] ::
        Listing.payloadLines width record.payload).map (·.toList)) :
    ∃ start underway,
      d.run lines = ({ d with underway } : Draft).settle start (.ok (.complete record)) := by
  obtain ⟨line, after, rfl, hline, hafter⟩ := List.map_eq_cons_iff.mp hlines
  rw [Listing.payloadLines_eq, List.map_map] at hafter
  obtain ⟨directive, hstatement, progress, hfeed, hprogress⟩ :=
    Reading.begin_headerLine hfits hline
  have hread : d.read line = d.settle directive.span (.ok progress) := by
    rw [read_of_statement hunderway hstatement, ← hfeed]
    simp only [readStatement, readDirective, hmode]
  have hflatten := Listing.flatten_groupsOf width record.payload
  rcases progress with next | found
  · obtain ⟨hnext, hmore⟩ := hprogress
    have hgroups : Listing.groupsOf width record.payload ≠ [] := by
      intro hnil
      rw [hnil] at hflatten
      exact hmore hflatten
    obtain ⟨underway, hrun⟩ := run_groupLines (d := { d with underway := some (_, next) }) hgroups
      (fun _ hgroup => Listing.ne_nil_of_mem_groupsOf hgroup) rfl hnext hflatten.symm hafter
    exact ⟨_, underway, (run_cons_of_reading hread).trans hrun⟩
  · obtain ⟨rfl, hdone⟩ := hprogress
    obtain rfl : after = [] := by
      rw [← hdone, Listing.groupsOf] at hafter
      exact List.map_eq_nil_iff.mp hafter
    exact ⟨_, d.underway, (run_singleton d line).trans hread⟩

/-! ## Complete records -/

section Complete

variable {start : Span} {record : Record}

/-- A complete record is bound to the waiting labels if they agree. -/
theorem settle_complete_of_agrees (hfunctional : Functional d.bindings) (hpending : d.pending ≠ [])
    (hagrees : ∀ label ∈ d.pending, Agrees d.bindings record label.name) :
    d.settle start (.ok (.complete record)) =
      ({ d with
        bindings := bindAll d.bindings record d.pending
        pending := []
        underway := none }, .reading) := by
  have hbind : d.bind start record = .ok { d with
      bindings := bindAll d.bindings record d.pending
      pending := []
      underway := none } := by
    rw [bind, if_neg hpending, (conflict?_eq_none_iff hfunctional).mpr hagrees]
    rfl
  rw [settle, hbind]

/-- Otherwise it is reported which of them names another record, the first that
does. -/
theorem settle_complete_of_not_agrees (hfunctional : Functional d.bindings)
    (hclash : ¬ ∀ label ∈ d.pending, Agrees d.bindings record label.name) :
    ∃ e before label after, d.settle start (.ok (.complete record)) = (d, .failed e) ∧
      e.cause = .duplicateLabel label.name ∧ d.pending = before ++ label :: after ∧
      (∀ l ∈ before, Agrees d.bindings record l.name) ∧
      ¬ Agrees d.bindings record label.name := by
  have hpending : d.pending ≠ [] := by
    intro hnil
    rw [hnil] at hclash
    exact hclash fun _ hl => absurd hl List.not_mem_nil
  cases hconflict : conflict? d.bindings record d.pending with
  | none => exact absurd ((conflict?_eq_none_iff hfunctional).mp hconflict) hclash
  | some found =>
      obtain ⟨label, binding⟩ := found
      obtain ⟨before, after, hsplit, hbefore, hlabel⟩ := conflict?_eq_some hfunctional hconflict
      refine ⟨(Diagnostic.of label.span (.duplicateLabel label.name)).relate binding.first
        .boundElsewhere, before, label, after, ?_, rfl, hsplit, hbefore, hlabel⟩
      rw [settle, bind, if_neg hpending, hconflict]

end Complete

end Draft

end SpriteTables
