import SpriteTables.Proofs.Artifact.Lines
import SpriteTables.Proofs.OffsetTable.Regrouped

/-!
# Written tables read back

A listing writes every offset table under a header, the name of the table as a label. While tables
are read such a label is passed over, unless an entry that was read before has the same label:
then it ends the tables, and the next entry is taken for a record and rejected. So the tables are
read back exactly when no table has the name of a label of an earlier one (`HeadersClear`,
`run_tableLines`).
-/

set_option autoImplicit false

namespace SpriteTables

open Text (Line)

/-! ## Headers -/

/-- No table has the name of one of some labels or of a label of a table before it. -/
def HeadersClear (target : OffsetTable) (labels : List String) : List String → Prop
  | [] => True
  | table :: rest =>
      table ∉ labels ∧ HeadersClear target (labels ++ target.labelsOf table) rest

theorem headersClear_iff {target : OffsetTable} {labels tables : List String} :
    HeadersClear target labels tables ↔
      ∀ before name after, tables = before ++ name :: after →
        name ∉ labels ∧ ∀ table ∈ before, name ∉ target.labelsOf table := by
  induction tables generalizing labels with
  | nil =>
      refine ⟨fun _ before name after heq => ?_, fun _ => trivial⟩
      exact absurd heq (List.append_ne_nil_of_right_ne_nil _ (List.cons_ne_nil _ _)).symm
  | cons first rest ih =>
      rw [HeadersClear, ih]
      constructor
      · rintro ⟨hfirst, hrest⟩ before name after heq
        cases before with
        | nil =>
            cases heq
            exact ⟨hfirst, fun table htable => absurd htable List.not_mem_nil⟩
        | cons second others =>
            obtain ⟨rfl, hothers⟩ := List.cons.inj heq
            obtain ⟨hlabels, htables⟩ := hrest others name after hothers
            rw [List.mem_append, not_or] at hlabels
            exact ⟨hlabels.1, List.forall_mem_cons.mpr ⟨hlabels.2, htables⟩⟩
      · intro h
        refine ⟨(h [] first rest rfl).1, fun before name after heq => ?_⟩
        obtain ⟨hlabels, htables⟩ := h (first :: before) name after (congrArg _ heq)
        obtain ⟨hown, hothers⟩ := List.forall_mem_cons.mp htables
        exact ⟨fun hmem => (List.mem_append.mp hmem).elim hlabels hown, hothers⟩

theorem headersClear_tableNames_iff {target : OffsetTable} :
    HeadersClear target [] target.tableNames ↔
      ∀ before table after, target.tableNames = before ++ table :: after →
        ∀ earlier ∈ before, table ∉ target.labelsOf earlier := by
  simp [headersClear_iff]

/-! ## Lines of tables -/

theorem tableLinesOf_eq (target : OffsetTable) (table : String) :
    Listing.tableLinesOf target table =
      Listing.labelLine table :: (target.entriesOf table).map Draft.entryLine := by
  rw [Listing.tableLinesOf, OffsetTable.labelsOf, List.map_map]
  refine congrArg _ (List.map_congr_left fun e he => ?_)
  have htable : e.table = table := (OffsetTable.mem_entriesOf.mp he).2
  rw [Function.comp_apply, Draft.entryLine, htable]

section Tables

variable {target : OffsetTable}

/-- The labels and the tables of an offset table are identifiers. -/
def OffsetTable.Named (target : OffsetTable) : Prop :=
  ∀ e ∈ target.entries, isIdentifier e.label.toList = true ∧ isIdentifier e.table.toList = true

theorem OffsetTable.Named.tableName (h : target.Named) {table : String}
    (htable : table ∈ target.tableNames) : isIdentifier table.toList = true := by
  obtain ⟨e, he, rfl⟩ := mem_tableNames.mp htable
  exact (h e he).2

theorem OffsetTable.Named.of_mem_entriesOf (h : target.Named) {table : String} :
    ∀ e ∈ target.entriesOf table,
      isIdentifier e.label.toList = true ∧ isIdentifier e.table.toList = true :=
  fun e he => h e (mem_entriesOf.mp he).1

theorem oneLine_tableLines (h : target.Named) :
    ∀ text ∈ Listing.tableLines target, Text.OneLine text := by
  intro text htext
  obtain ⟨table, htable, htext⟩ := List.mem_flatMap.mp htext
  rw [tableLinesOf_eq] at htext
  rcases List.mem_cons.mp htext with rfl | htext
  · exact Statement.oneLine_labelLine (h.tableName htable)
  · obtain ⟨e, he, rfl⟩ := List.mem_map.mp htext
    obtain ⟨hlabel, hname⟩ := h.of_mem_entriesOf e he
    exact Draft.oneLine_entryLine hlabel hname

namespace Draft

variable {d : Draft} {line : Line} {lines : List Line}

theorem refersTo_iff {name : String} :
    d.refersTo name = true ↔ name ∈ (d.declared.map (·.toOffsetEntry)).map (·.label) := by
  rw [refersTo, List.any_eq_true, List.map_map, List.mem_map]
  constructor
  · rintro ⟨declaration, hdeclaration, hlabel⟩
    exact ⟨declaration, hdeclaration, of_decide_eq_true hlabel⟩
  · rintro ⟨declaration, hdeclaration, hlabel⟩
    exact ⟨declaration, hdeclaration, decide_eq_true hlabel⟩

/-- Among the records an offset entry is no number. -/
theorem read_entryLine_of_data (hunderway : d.underway = none) (hmode : d.mode = .data)
    {e : OffsetEntry} (hlabel : isIdentifier e.label.toList = true)
    (htable : isIdentifier e.table.toList = true) (hline : line.chars = (entryLine e).toList) :
    ∃ diagnostic, d.read line = (d, .failed diagnostic) := by
  obtain ⟨directive, o, hwidth, hoperands, hreference, hstatement⟩ :=
    ofLine_of_entryLine hlabel htable hline
  have hword : o.word = .error o.malformedLiteral := by
    rw [Operand.word, Operand.bounded, Operand.literal?_eq_none_of_reference? hreference]
    rfl
  have htake : (Reading.begin directive).take d.entrySize .word o = .error o.malformedLiteral := by
    rw [Reading.take.eq_def, hword]
    rfl
  have hfeed : (Reading.begin directive).feed d.entrySize directive.width directive.operands =
      .error o.malformedLiteral := by
    rw [hwidth, hoperands, Reading.feed, htake]
    rfl
  refine ⟨o.malformedLiteral, ?_⟩
  rw [read_of_statement hunderway hstatement]
  simp only [readStatement, readDirective, hmode, hfeed, settle]

/-- A table whose header is passed over is read. -/
theorem run_tableLinesOf (hunderway : d.underway = none) (hmode : d.mode = .table)
    (hnamed : target.Named) {table : String} (htable : table ∈ target.tableNames)
    (hadmits : OffsetTable.AdmitsAll (d.declared.map (·.toOffsetEntry)) (target.entriesOf table))
    (hclear : table ∉ (d.declared.map (·.toOffsetEntry)).map (·.label))
    (hlines : lines.map (·.chars) = (Listing.tableLinesOf target table).map (·.toList)) :
    ∃ (declared : List Declaration) (pending : List Label),
      declared.map (·.toOffsetEntry) =
        d.declared.map (·.toOffsetEntry) ++ target.entriesOf table ∧
      d.run lines = ({ d with declared, pending }, .reading) := by
  rw [tableLinesOf_eq, List.map_cons, List.map_map] at hlines
  -- the header waits as a label, then the entries are declared
  obtain ⟨header, below, rfl, hheader, hbelow⟩ := List.map_eq_cons_iff.mp hlines
  obtain ⟨label, rfl, hread⟩ := read_labelLine hunderway (hnamed.tableName htable) hheader
  have hpassed : d.refersTo label.name = false :=
    Bool.eq_false_iff.mpr fun hrefers => hclear (refersTo_iff.mp hrefers)
  rw [declareLabel_of_waits (Or.inr hpassed)] at hread
  obtain ⟨declared, hdeclared, hrun⟩ :=
    run_entryLines (d := { d with pending := d.pending ++ [label] }) hunderway hmode
      hnamed.of_mem_entriesOf hadmits hbelow
  exact ⟨declared, d.pending ++ [label], hdeclared, (run_cons_of_reading hread).trans hrun⟩

/-- A table whose header has a label's name ends in a rejected entry. -/
theorem run_tableLinesOf_of_clash (hunderway : d.underway = none) (hmode : d.mode = .table)
    (hnamed : target.Named) {table : String} (htable : table ∈ target.tableNames)
    (hclash : table ∈ (d.declared.map (·.toOffsetEntry)).map (·.label))
    (hlines : lines.map (·.chars) = (Listing.tableLinesOf target table).map (·.toList)) :
    ∃ next diagnostic, d.run lines = (next, .failed diagnostic) := by
  rw [tableLinesOf_eq, List.map_cons, List.map_map] at hlines
  obtain ⟨header, below, rfl, hheader, hbelow⟩ := List.map_eq_cons_iff.mp hlines
  obtain ⟨label, rfl, hread⟩ := read_labelLine hunderway (hnamed.tableName htable) hheader
  rw [declareLabel_of_ends hmode (refersTo_iff.mpr hclash)] at hread
  obtain ⟨e, others, hentries⟩ :=
    List.exists_cons_of_ne_nil (OffsetTable.entriesOf_ne_nil htable)
  have hmem : e ∈ target.entriesOf label.name := by
    rw [hentries]
    exact List.mem_cons_self
  obtain ⟨hlabel, hname⟩ := hnamed.of_mem_entriesOf e hmem
  rw [hentries] at hbelow
  obtain ⟨first, rest, rfl, hfirst, -⟩ := List.map_eq_cons_iff.mp hbelow
  obtain ⟨diagnostic, hfailed⟩ := read_entryLine_of_data (d := { d with
    mode := .data
    pending := [label]
    log := d.log ++ [.switchedToData label.name] }) hunderway rfl hlabel hname hfirst
  exact ⟨_, diagnostic, (run_cons_of_reading hread).trans (run_cons_of_failed hfailed)⟩

/-- Tables whose headers are clear are read back; other tables are not. -/
theorem run_tableLines (hunderway : d.underway = none) (hmode : d.mode = .table)
    (hnamed : target.Named) {tables : List String}
    (htables : ∀ table ∈ tables, table ∈ target.tableNames)
    (hadmits : OffsetTable.AdmitsAll (d.declared.map (·.toOffsetEntry))
      (tables.flatMap target.entriesOf))
    (hlines : lines.map (·.chars) =
      (tables.flatMap (Listing.tableLinesOf target)).map (·.toList)) :
    (HeadersClear target ((d.declared.map (·.toOffsetEntry)).map (·.label)) tables ∧
      ∃ (declared : List Declaration) (pending : List Label),
        declared.map (·.toOffsetEntry) =
          d.declared.map (·.toOffsetEntry) ++ tables.flatMap target.entriesOf ∧
        d.run lines = ({ d with declared, pending }, .reading)) ∨
    (¬ HeadersClear target ((d.declared.map (·.toOffsetEntry)).map (·.label)) tables ∧
      ∃ next diagnostic, d.run lines = (next, .failed diagnostic)) := by
  induction tables generalizing d lines with
  | nil =>
      obtain rfl : lines = [] := List.map_eq_nil_iff.mp hlines
      exact Or.inl ⟨trivial, d.declared, d.pending, (List.append_nil _).symm, rfl⟩
  | cons table others ih =>
      obtain ⟨htable, hothers⟩ := List.forall_mem_cons.mp htables
      rw [List.flatMap_cons, OffsetTable.admitsAll_append_iff] at hadmits
      obtain ⟨hown, hafter⟩ := hadmits
      rw [List.flatMap_cons, List.map_append] at hlines
      obtain ⟨first, rest, rfl, hfirst, hrest⟩ := List.map_eq_append_iff.mp hlines
      by_cases hclash : table ∈ (d.declared.map (·.toOffsetEntry)).map (·.label)
      · obtain ⟨next, diagnostic, hfailed⟩ :=
          run_tableLinesOf_of_clash hunderway hmode hnamed htable hclash hfirst
        exact Or.inr ⟨fun hclear => hclear.1 hclash, next, diagnostic, run_append_of_failed hfailed⟩
      · obtain ⟨declared, pending, hdeclared, hrun⟩ :=
          run_tableLinesOf hunderway hmode hnamed htable hown hclash hfirst
        rw [← hdeclared] at hafter
        -- the labels read so far grow by those of this table
        have hlabels : (declared.map (·.toOffsetEntry)).map (·.label) =
            (d.declared.map (·.toOffsetEntry)).map (·.label) ++ target.labelsOf table := by
          rw [hdeclared, List.map_append]
          rfl
        have ih := ih (d := { d with declared, pending }) hunderway hmode hothers hafter hrest
        rw [HeadersClear, ← hlabels, run_append_of_reading hrun]
        rcases ih with ⟨hclear, declared', pending', hdeclared', hrun'⟩ | ⟨hunclear, hfailed⟩
        · refine Or.inl ⟨⟨hclash, hclear⟩, declared', pending', ?_, hrun'⟩
          rw [hdeclared', hdeclared, List.flatMap_cons, List.append_assoc]
        · exact Or.inr ⟨fun hclear => hunclear hclear.2, hfailed⟩

end Draft

end Tables

end SpriteTables
