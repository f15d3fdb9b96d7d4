import SpriteTables.Minify
import SpriteTables.Proofs.Artifact.Dialect
import SpriteTables.Proofs.Artifact.Invariant
import SpriteTables.Proofs.Artifact.Tables
import SpriteTables.Proofs.Placement.Emission

/-!
# Minified texts read back

A minified text has the tables of the target, each under its header, and one block per record of
the source. Read again it gives the source's records under their labels, in the order in which
they were written, and the target's entries table by table. It can be read exactly when no table
has the name of a label of an earlier table (`parse_emittedText`, `parse_minified`).
-/

set_option autoImplicit false

namespace SpriteTables

open Text (NamedText linesOf)

/-! ## What minifying gives -/

/-- The text of the records of a source on the tables of a target. -/
def emittedText (order : IndexOrder) (width : Width) (source : Artifact) (target : OffsetTable) :
    String :=
  Listing.unlines (Listing.tableLines target ++
    ((emitted order source target).map (LabelledRecord.block width)).flatMap Block.lines)

/-- Two texts are minified when both are artifacts and the records of the first can be
placed on the tables of the second. -/
theorem minifyTexts_eq_ok_iff {options : Options} {source target : NamedText} {output : Output} :
    (minifyTexts options source target).value = .ok output ↔
      ∃ s t placements, (Artifact.parse options.entrySize source.text).value = .ok s ∧
        (Artifact.parse options.entrySize target.text).value = .ok t ∧
        linearize options.order s t.offsets = .ok placements ∧
        output = .ofPlacements s t.offsets options.payload placements := by
  simp only [minifyTexts, Logged.andThen_eq_ok_iff, parseNamed_eq_ok_iff]
  constructor
  · rintro ⟨s, hs, t, ht, hminify⟩
    rw [minify] at hminify
    cases hplaced : linearize options.order s t.offsets with
    | error e =>
        rw [hplaced] at hminify
        cases hminify
    | ok placements =>
        rw [hplaced] at hminify
        cases hminify
        exact ⟨s, t, placements, hs, ht, hplaced, rfl⟩
  · rintro ⟨s, t, placements, hs, ht, hplaced, rfl⟩
    refine ⟨s, hs, t, ht, ?_⟩
    rw [minify, hplaced]

/-! ## Reading the text again -/

section EmittedText

variable {entrySize : Nat} (order : IndexOrder) {source : Artifact} {target : OffsetTable}

/-- The blocks of a well-formed source are well formed, and no label stands above two
of its records. -/
theorem emitted_blocks (target : OffsetTable) (hsource : source.WellFormed entrySize)
    (width : Width) :
    (∀ b ∈ (emitted order source target).map (LabelledRecord.block width),
      b.WellFormed entrySize) ∧
    Consistent ((emitted order source target).map (LabelledRecord.block width)) := by
  constructor
  · intro b hb
    obtain ⟨entry, hentry, rfl⟩ := List.mem_map.mp hb
    have hentry := mem_emitted.mp hentry
    exact ⟨hsource.labels_ne_nil entry hentry, hsource.label_names entry hentry,
      hsource.fits entry hentry⟩
  · intro b hb b' hb' label hlabel hlabel'
    obtain ⟨x, hx, rfl⟩ := List.mem_map.mp hb
    obtain ⟨y, hy, rfl⟩ := List.mem_map.mp hb'
    have hsame : x = y :=
      hsource.eq_of_mem_labels x (mem_emitted.mp hx) y (mem_emitted.mp hy) label hlabel hlabel'
    rw [hsame]

/-- The records of a well-formed source are distinct in emission order, too. -/
theorem nodup_emitted {order : IndexOrder} (hsource : source.WellFormed entrySize) :
    ((emitted order source target).map (·.record)).Nodup := by
  have hperm := (emitted_perm order source target).map LabelledRecord.record
  exact hperm.nodup_iff.mpr hsource.records_nodup

/-- A draft that has read the blocks of a source holds the source's records. -/
theorem records_of_reads (hsource : source.WellFormed entrySize) {width : Width} {d : Draft}
    (h : d.Reads ((emitted order source target).map (LabelledRecord.block width))) :
    d.artifact.records = emitted order source target := by
  have hnodup : ((emitted order source target).map (·.record)).Nodup := nodup_emitted hsource
  have hmap : ((emitted order source target).map (LabelledRecord.block width)).map (·.record) =
      (emitted order source target).map (·.record) := by
    rw [List.map_map]
    rfl
  apply LabelledRecord.eq_of_map_record_eq
  · rw [h.records_eq, hmap, eraseDups_eq_self hnodup]
  · intro x hx y hy hrecord
    -- both label lists are ascending, so it is enough that they have the same members
    apply Ascending.eq_of_mem_iff
    · exact (LabelledRecord.gathered_gather d.bindings).ascending x hx
    · exact hsource.labels_ascending y (mem_emitted.mp hy)
    · intro label
      rw [h.mem_labels hx]
      constructor
      · rintro ⟨b, hb, hbx, hlabel⟩
        obtain ⟨z, hz, rfl⟩ := List.mem_map.mp hb
        have hzy : z = y := List.inj_on_of_nodup_map hnodup hz hy (hbx.trans hrecord)
        rw [← hzy]
        exact hlabel
      · intro hlabel
        exact ⟨_, List.mem_map_of_mem hy, hrecord.symm, hlabel⟩

theorem lines_emittedText (hsource : source.WellFormed entrySize) (hnamed : target.Named)
    (width : Width) :
    (linesOf (emittedText order width source target)).map (·.chars) =
      (Listing.tableLines target ++
        ((emitted order source target).map (LabelledRecord.block width)).flatMap
          Block.lines).map (·.toList) := by
  apply Text.map_chars_linesOf_unlines
  intro text htext
  rcases List.mem_append.mp htext with htext | htext
  · exact oneLine_tableLines hnamed text htext
  · obtain ⟨b, hb, htext⟩ := List.mem_flatMap.mp htext
    have hwell := (emitted_blocks order target hsource width).1 b hb
    exact Listing.oneLine_recordLines hwell.label_names text htext

/-- The records of a source on the tables of a target are read back from their text, the
entries table by table, when the headers of the tables are clear, and the text is not
read otherwise. -/
theorem parse_emittedText (hsource : source.WellFormed entrySize)
    (hdeclarable : OffsetTable.Declarable target.entries) (hnamed : target.Named)
    (hcovers : ∀ entry ∈ source.records, target.Covers entry) (width : Width) :
    (HeadersClear target [] target.tableNames ∧
      (Artifact.parse entrySize (emittedText order width source target)).value =
        .ok ⟨target.regroup, emitted order source target⟩) ∨
    (¬ HeadersClear target [] target.tableNames ∧
      ∃ diagnostic, (Artifact.parse entrySize (emittedText order width source target)).value =
        .error diagnostic) := by
  have hlines := lines_emittedText order hsource hnamed width
  rw [List.map_append] at hlines
  obtain ⟨above, below, hsplit, habove, hbelow⟩ := List.map_eq_append_iff.mp hlines
  have hadmits : OffsetTable.AdmitsAll [] (target.tableNames.flatMap target.entriesOf) :=
    OffsetTable.declarable_iff.mp (OffsetTable.declarable_regroup hdeclarable)
  rcases Draft.run_tableLines (d := { entrySize }) rfl rfl hnamed (fun _ h => h) hadmits habove with
    ⟨hclear, declared, pending, hdeclared, hrun⟩ | ⟨hunclear, next, diagnostic, hrun⟩
  · rw [List.map_nil, List.nil_append] at hdeclared
    -- the target covers the first label, so it ends the tables
    have hopens : ∀ b ∈ ((emitted order source target).map (LabelledRecord.block width)).head?,
        ∀ label ∈ b.labels.head?, Draft.Opens { entrySize, declared, pending } label := by
      intro b hb label hlabel
      obtain ⟨entry, hentry, rfl⟩ := List.mem_map.mp (List.mem_of_mem_head? hb)
      obtain ⟨e, he, rfl⟩ :=
        hcovers entry (mem_emitted.mp hentry) label (List.mem_of_mem_head? hlabel)
      refine Or.inr ⟨rfl, Draft.refersTo_iff.mpr ?_⟩
      rw [hdeclared]
      exact List.mem_map_of_mem (OffsetTable.mem_entries_regroup.mpr he)
    obtain ⟨hblocks, hconsistent⟩ := emitted_blocks order target hsource width
    rcases Draft.run_blocks (Draft.reads_nil rfl rfl) consistent_nil hopens hblocks hbelow with
      ⟨next, hnext, hreads, -, hkept⟩ | ⟨next, e, label, -, -, hclash⟩
    · refine Or.inl ⟨hclear, ?_⟩
      have hparse := parse_of_reading
        (by rw [hsplit, Draft.run_append_of_reading hrun]; exact hnext) hreads.underway_eq
      have hoffsets : next.artifact.offsets = target.regroup := by
        rw [Draft.artifact, hkept]
        exact congrArg OffsetTable.mk hdeclared
      rw [hparse, ← hoffsets, ← records_of_reads order hsource hreads]
    · -- the blocks of a source never clash
      exact absurd hconsistent hclash.not_consistent
  · -- a header that is a label stops the reading in the tables
    have hfailed : Draft.run { entrySize } (linesOf (emittedText order width source target)) =
        (next, .failed diagnostic) := by
      rw [hsplit]
      exact Draft.run_append_of_failed hrun
    exact Or.inr ⟨hunclear, diagnostic, parse_of_failed hfailed⟩

end EmittedText

/-! ## Minified texts -/

/-- A minified text is the emitted text of a well-formed source on well-formed tables. -/
theorem text_of_minifyTexts {options : Options} {source target : NamedText} {output : Output}
    (h : (minifyTexts options source target).value = .ok output) :
    ∃ s t placements, (Artifact.parse options.entrySize source.text).value = .ok s ∧
      (Artifact.parse options.entrySize target.text).value = .ok t ∧
      linearize options.order s t.offsets = .ok placements ∧
      output.text = Listing.render t.offsets placements options.payload ∧
      (∀ entry ∈ s.records, t.offsets.Covers entry) ∧
      placements =
        (emitted options.order s t.offsets).map (Placement.ofEntry options.order t.offsets) ∧
      output.text = emittedText options.order options.payload s t.offsets := by
  obtain ⟨s, t, placements, hs, ht, hplaced, rfl⟩ := minifyTexts_eq_ok_iff.mp h
  have hwell := wellFormed_of_parse hs
  obtain ⟨-, hcovers, hplacements⟩ := (linearize_eq_ok_iff hwell.labels_ne_nil).mp hplaced
  refine ⟨s, t, placements, hs, ht, hplaced, rfl, hcovers, hplacements, ?_⟩
  rw [Output.ofPlacements, hplacements]
  exact render_emitted hcovers hwell.labels_ascending options.payload

/-- A minified text is read again exactly when no table of the target has the name of a
label of an earlier table. It then gives the distinct records of the source in the order
of the placements, each under its own labels, and the entries of the target table by
table. -/
theorem parse_minified {options : Options} {source target : NamedText} {output : Output}
    (h : (minifyTexts options source target).value = .ok output) (name : String) :
    ∃ s t placements, (Artifact.parse options.entrySize source.text).value = .ok s ∧
      (Artifact.parse options.entrySize target.text).value = .ok t ∧
      linearize options.order s t.offsets = .ok placements ∧
      output.text = Listing.render t.offsets placements options.payload ∧
      ((∃ a, (parseNamed options.entrySize ⟨name, output.text⟩).value = .ok a) ↔
        ∀ before table after, t.offsets.tableNames = before ++ table :: after →
          ∀ earlier ∈ before, table ∉ t.offsets.labelsOf earlier) ∧
      ∀ a, (parseNamed options.entrySize ⟨name, output.text⟩).value = .ok a →
        a.records.map (·.record) = placements.map (·.record) ∧
        a.records.Perm s.records ∧
        (a.records.map (·.record)).Nodup ∧
        a.offsets.entries = t.offsets.tableNames.flatMap fun table =>
          t.offsets.entries.filter (·.table = table) := by
  obtain ⟨s, t, placements, hs, ht, hplaced, hrender, hcovers, hplacements, htext⟩ :=
    text_of_minifyTexts h
  have htarget := wellFormed_of_parse ht
  refine ⟨s, t, placements, hs, ht, hplaced, hrender, ?_⟩
  simp only [parseNamed_eq_ok_iff]
  rw [← headersClear_tableNames_iff, htext]
  rcases parse_emittedText options.order (wellFormed_of_parse hs) htarget.declarable
    htarget.entry_names hcovers options.payload with ⟨hyes, hparse⟩ | ⟨hno, e, hparse⟩
  · rw [hparse]
    refine ⟨⟨fun _ => hyes, fun _ => ⟨_, rfl⟩⟩, fun a ha => ?_⟩
    cases ha
    refine ⟨?_, emitted_perm _ _ _, nodup_emitted (wellFormed_of_parse hs), rfl⟩
    rw [hplacements, List.map_map]
    rfl
  · rw [hparse]
    refine ⟨⟨?_, fun hyes => absurd hyes hno⟩, fun a ha => ?_⟩
    · rintro ⟨a, ha⟩
      cases ha
    · cases ha

/-- A target that mixes two tables, with a payload in bytes. -/
theorem parse_minified_of_mixed_tables :
    ∃ output a,
      (minifyTexts ⟨1, .byte, .sequential⟩
        ⟨"s.asm", "\tdc.w A-T,B-U\nA:\n\tdc.w 0\nB:\n\tdc.w 1,-2\n"⟩
        ⟨"t.asm", "\tdc.w B-U,A-T,C-U\n"⟩).value = .ok output ∧
      (parseNamed 1 ⟨"o.asm", output.text⟩).value = .ok a ∧
      a.offsets.entries = [⟨"B", "U"⟩, ⟨"C", "U"⟩, ⟨"A", "T"⟩] := by
  have h : (minifyTexts ⟨1, .byte, .sequential⟩
      ⟨"s.asm", "\tdc.w A-T,B-U\nA:\n\tdc.w 0\nB:\n\tdc.w 1,-2\n"⟩
      ⟨"t.asm", "\tdc.w B-U,A-T,C-U\n"⟩).value = .ok
        ⟨"U:\n\t\tdc.w B-U\n\t\tdc.w C-U\nT:\n\t\tdc.w A-T\n" ++
          "B:\n\t\tdc.w 1\n\t\tdc.b  $FF, $FE\nA:\n\t\tdc.w 0\n", ⟨2, 3, 2, 2, 1⟩⟩ := by
    simp only [minifyTexts, minify, linearize_eq_insertionSort]
    decide +kernel
  have ht : (Artifact.parse 1 "\tdc.w B-U,A-T,C-U\n").value =
      .ok ⟨⟨[⟨"B", "U"⟩, ⟨"A", "T"⟩, ⟨"C", "U"⟩]⟩, []⟩ := by
    decide +kernel
  obtain ⟨s, t, _, -, htarget, -, -, hiff, hresult⟩ := parse_minified h "o.asm"
  rw [ht] at htarget
  cases htarget
  have hnames : OffsetTable.tableNames ⟨[⟨"B", "U"⟩, ⟨"A", "T"⟩, ⟨"C", "U"⟩]⟩ = ["U", "T"] := by
    decide
  obtain ⟨a, ha⟩ := hiff.mpr (by
    rw [← headersClear_tableNames_iff, hnames]
    exact ⟨by decide, by decide, trivial⟩)
  exact ⟨_, a, h, ha, (hresult a ha).2.2.2.trans (by decide)⟩

end SpriteTables
