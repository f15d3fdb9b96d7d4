import SpriteTables.Minify
import SpriteTables.Proofs.Artifact.Blocks

/-!
# Artifacts read back from their text

Offset entries one a line and blocks below them are the plainest text that an artifact can have
(`writtenText`). Reading such a text gives back the entries and, under the union of their labels,
the distinct records of the blocks, provided no label stands above two records; otherwise the
first label that does is reported (`parse_writtenText`).
-/

set_option autoImplicit false

namespace SpriteTables

open Text (NamedText linesOf)

/-- The text of offset entries, one a line, and of blocks. -/
def writtenText (entries : List OffsetEntry) (blocks : List Block) : String :=
  Listing.unlines (entries.map Draft.entryLine ++ blocks.flatMap Block.lines)

section Ends

variable {entrySize : Nat} {text : String} {next : Draft}

theorem parse_of_reading (h : Draft.run { entrySize } (linesOf text) = (next, .reading))
    (hunderway : next.underway = none) :
    (Artifact.parse entrySize text).value = .ok next.artifact := by
  rw [Artifact.parse, h, Draft.conclude.eq_def]
  simp only [hunderway]

theorem parse_of_failed {e : Diagnostic}
    (h : Draft.run { entrySize } (linesOf text) = (next, .failed e)) :
    (Artifact.parse entrySize text).value = .error e := by
  rw [Artifact.parse, h]
  rfl

theorem parseNamed_eq_ok_iff {artifact : NamedText} {a : Artifact} :
    (parseNamed entrySize artifact).value = .ok a ↔
      (Artifact.parse entrySize artifact.text).value = .ok a := by
  rw [parseNamed, Logged.mapError_eq_ok_iff]

end Ends

section WrittenText

variable {entrySize : Nat} {entries : List OffsetEntry} {blocks : List Block}

/-- The lines of entries and blocks are read as these; a clash of blocks is reported. -/
theorem run_writtenText (hdeclarable : OffsetTable.Declarable entries)
    (hnames : ∀ e ∈ entries,
      isIdentifier e.label.toList = true ∧ isIdentifier e.table.toList = true)
    (hblocks : ∀ b ∈ blocks, b.WellFormed entrySize)
    (hfirst : ∀ b ∈ blocks.head?, ∀ label ∈ b.labels.head?, ∃ e ∈ entries, e.label = label) :
    (∃ next, Draft.run { entrySize } (linesOf (writtenText entries blocks)) = (next, .reading) ∧
        next.Reads blocks ∧ Consistent blocks ∧
        next.declared.map (·.toOffsetEntry) = entries) ∨
      ∃ next e label,
        Draft.run { entrySize } (linesOf (writtenText entries blocks)) = (next, .failed e) ∧
        e.cause = .duplicateLabel label ∧ FirstClash blocks label := by
  have hlines : (linesOf (writtenText entries blocks)).map (·.chars) =
      (entries.map Draft.entryLine ++ blocks.flatMap Block.lines).map (·.toList) := by
    apply Text.map_chars_linesOf_unlines
    intro text htext
    rcases List.mem_append.mp htext with htext | htext
    · obtain ⟨e, he, rfl⟩ := List.mem_map.mp htext
      exact Draft.oneLine_entryLine (hnames e he).1 (hnames e he).2
    · obtain ⟨b, hb, htext⟩ := List.mem_flatMap.mp htext
      exact Listing.oneLine_recordLines (hblocks b hb).label_names text htext
  rw [List.map_append, List.map_map] at hlines
  obtain ⟨above, below, hsplit, habove, hbelow⟩ := List.map_eq_append_iff.mp hlines
  obtain ⟨declared, hdeclared, hrun⟩ := Draft.run_entryLines (d := { entrySize }) rfl rfl hnames
    (OffsetTable.declarable_iff.mp hdeclarable) habove
  rw [List.map_nil, List.nil_append] at hdeclared
  -- the first label of the blocks ends the tables, since an entry refers to it
  have hopens : ∀ b ∈ blocks.head?, ∀ label ∈ b.labels.head?,
      Draft.Opens { entrySize, declared } label := by
    intro b hb label hlabel
    obtain ⟨e, he, rfl⟩ := hfirst b hb label hlabel
    rw [← hdeclared] at he
    obtain ⟨declaration, hdeclaration, rfl⟩ := List.mem_map.mp he
    exact Or.inr ⟨rfl, List.any_eq_true.mpr ⟨declaration, hdeclaration, by simp⟩⟩
  rw [hsplit, Draft.run_append_of_reading hrun]
  rcases Draft.run_blocks (Draft.reads_nil rfl rfl) consistent_nil hopens hblocks hbelow with
    ⟨next, hnext, hreads, hconsistent, hkept⟩ | ⟨next, e, label, hnext, hcause, hclash⟩
  · exact Or.inl ⟨next, hnext, hreads, hconsistent, by rw [hkept, hdeclared]⟩
  · exact Or.inr ⟨next, e, label, hnext, hcause, hclash⟩

/-- Offset entries that can be declared in order and blocks the first of which they
refer to are read from their text exactly when no label stands above two records. The
artifact has these entries and the distinct records of the blocks in order of first
appearance, each under the labels of all blocks that hold it. Otherwise the first label
that clashes is reported as a duplicate. -/
theorem parse_writtenText (name : String) (hdeclarable : OffsetTable.Declarable entries)
    (hnames : ∀ e ∈ entries,
      isIdentifier e.label.toList = true ∧ isIdentifier e.table.toList = true)
    (hblocks : ∀ b ∈ blocks, b.WellFormed entrySize)
    (hfirst : ∀ b ∈ blocks.head?, ∀ label ∈ b.labels.head?, ∃ e ∈ entries, e.label = label) :
    ((∃ a, (parseNamed entrySize ⟨name, writtenText entries blocks⟩).value = .ok a) ↔
      Consistent blocks) ∧
    (∀ a, (parseNamed entrySize ⟨name, writtenText entries blocks⟩).value = .ok a →
      a.offsets.entries = entries ∧
      a.records.map (·.record) = (blocks.map (·.record)).eraseDups ∧
      ∀ entry ∈ a.records, entry.labels.Pairwise (· < ·) ∧
        ∀ label, label ∈ entry.labels ↔ ∃ b ∈ blocks, b.record = entry.record ∧ label ∈ b.labels) ∧
    ∀ failure, (parseNamed entrySize ⟨name, writtenText entries blocks⟩).value = .error failure →
      ∃ diagnostic label,
        failure = .parse ⟨⟨name, writtenText entries blocks⟩, diagnostic⟩ ∧
        diagnostic.cause = .duplicateLabel label ∧ FirstClash blocks label := by
  rcases run_writtenText hdeclarable hnames hblocks hfirst with
    ⟨next, hrun, hreads, hconsistent, hdeclared⟩ | ⟨next, e, label, hrun, hcause, hclash⟩
  · -- the run reads to the end: an artifact
    have hvalue : (parseNamed entrySize ⟨name, writtenText entries blocks⟩).value =
        .ok next.artifact :=
      parseNamed_eq_ok_iff.mpr (parse_of_reading hrun hreads.underway_eq)
    rw [hvalue]
    refine ⟨⟨fun _ => hconsistent, fun _ => ⟨_, rfl⟩⟩, ?_, fun failure h => by cases h⟩
    intro a ha
    cases ha
    refine ⟨hdeclared, hreads.records_eq, fun entry hentry => ⟨?_, fun label => ?_⟩⟩
    · exact (LabelledRecord.gathered_gather next.bindings).ascending entry hentry
    · exact hreads.mem_labels hentry
  · -- the run stops at a clash: its report
    have hvalue : (parseNamed entrySize ⟨name, writtenText entries blocks⟩).value =
        .error (.parse ⟨⟨name, writtenText entries blocks⟩, e⟩) := by
      rw [parseNamed, Logged.mapError, parse_of_failed hrun]
      rfl
    rw [hvalue]
    refine ⟨⟨?_, fun h => absurd h hclash.not_consistent⟩, ?_, ?_⟩
    · rintro ⟨a, ha⟩
      cases ha
    · intro a ha
      cases ha
    · intro failure hfailure
      cases hfailure
      exact ⟨e, label, rfl, hcause, hclash⟩

/-- One record in three blocks, once in bytes, is read as one record. -/
theorem parse_writtenText_of_equal_records :
    ∃ a, (parseNamed 1 ⟨"a.asm", writtenText [⟨"A", "T"⟩, ⟨"B", "T"⟩]
        [⟨.word, ["A"], ⟨1, [-2]⟩⟩, ⟨.byte, ["C", "B"], ⟨1, [-2]⟩⟩,
          ⟨.word, ["B"], ⟨1, [-2]⟩⟩]⟩).value = .ok a ∧
      a.offsets.entries = [⟨"A", "T"⟩, ⟨"B", "T"⟩] ∧
      a.records.map (·.record) = [⟨1, [-2]⟩] := by
  have hdeclarable : OffsetTable.Declarable [⟨"A", "T"⟩, ⟨"B", "T"⟩] :=
    OffsetTable.declarable_cons_iff.mpr ⟨by decide, by decide⟩
  have hfits : (⟨1, [-2]⟩ : Record).Fits 1 := ⟨by decide, by decide, by decide⟩
  have hblocks : ∀ b ∈ ([⟨.word, ["A"], ⟨1, [-2]⟩⟩, ⟨.byte, ["C", "B"], ⟨1, [-2]⟩⟩,
      ⟨.word, ["B"], ⟨1, [-2]⟩⟩] : List Block), b.WellFormed 1 := by
    simp only [List.forall_mem_cons]
    exact ⟨⟨by decide, by decide, hfits⟩, ⟨by decide, by decide, hfits⟩,
      ⟨by decide, by decide, hfits⟩, fun _ h => absurd h List.not_mem_nil⟩
  obtain ⟨hread, hresult, -⟩ :=
    parse_writtenText "a.asm" hdeclarable (by decide) hblocks (by simp)
  obtain ⟨a, ha⟩ := hread.mpr (by simp [Consistent])
  obtain ⟨hentries, hrecords, -⟩ := hresult a ha
  exact ⟨a, ha, hentries, hrecords.trans (by decide)⟩

end WrittenText

end SpriteTables
