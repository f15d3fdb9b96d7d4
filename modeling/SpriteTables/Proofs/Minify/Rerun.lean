import SpriteTables.Proofs.Minify.RoundTrip

/-!
# Minifying onto a minified text

A minified text may serve as the target of the same source again. Its tables are those of the
first target, table by table, so the second output has the same tables and the same blocks; only
the order of the blocks may differ, when the first target mixed the entries of several tables.
From the second output on nothing changes any more (`rerun_minified`).
-/

set_option autoImplicit false

namespace SpriteTables

open Text (NamedText)

/-! ## Regrouped tables -/

section Regrouped

variable {entrySize : Nat} {order : IndexOrder} {source : Artifact} {target : OffsetTable}

theorem tableLines_regroup (target : OffsetTable) :
    Listing.tableLines target.regroup = Listing.tableLines target := by
  have hlines : Listing.tableLinesOf target.regroup = Listing.tableLinesOf target := by
    funext table
    rw [Listing.tableLinesOf, OffsetTable.labelsOf_regroup]
    rfl
  rw [Listing.tableLines, Listing.tableLines, OffsetTable.tableNames_regroup, hlines]

theorem isUneven_regroup (target : OffsetTable) : target.regroup.isUneven = target.isUneven := by
  rw [OffsetTable.isUneven, OffsetTable.isUneven, OffsetTable.tableCount_regroup,
    OffsetTable.size_regroup]

theorem covers_regroup {entry : LabelledRecord} (h : target.Covers entry) :
    target.regroup.Covers entry := by
  intro label hlabel
  obtain ⟨e, he, hlabel⟩ := h label hlabel
  exact ⟨e, OffsetTable.mem_entries_regroup.mpr he, hlabel⟩

theorem headersClear_regroup (h : HeadersClear target [] target.tableNames) :
    HeadersClear target.regroup [] target.regroup.tableNames := by
  rw [headersClear_tableNames_iff] at h ⊢
  intro before table after heq earlier hearlier
  rw [OffsetTable.tableNames_regroup] at heq
  rw [OffsetTable.labelsOf_regroup]
  exact h before table after heq earlier hearlier

/-- A source that can be placed on some tables can be placed on them regrouped. -/
theorem linearize_regroup (hne : ∀ entry ∈ source.records, entry.labels ≠ [])
    {placements : List Placement} (h : linearize order source target = .ok placements) :
    linearize order source target.regroup =
      .ok ((emitted order source target.regroup).map
        (Placement.ofEntry order target.regroup)) := by
  obtain ⟨heven, hcovers, -⟩ := (linearize_eq_ok_iff hne).mp h
  refine (linearize_eq_ok_iff hne).mpr ⟨?_, fun entry hentry => ?_, rfl⟩
  · rw [isUneven_regroup]
    exact heven
  · exact covers_regroup (hcovers entry hentry)

/-- On regrouped tables the text has the same tables and the same blocks. -/
theorem emittedText_regroup (width : Width) :
    ∃ blocks blocks' : List Block, blocks'.Perm blocks ∧
      emittedText order width source target =
        Listing.unlines (Listing.tableLines target ++ blocks.flatMap Block.lines) ∧
      emittedText order width source target.regroup =
        Listing.unlines (Listing.tableLines target ++ blocks'.flatMap Block.lines) := by
  refine ⟨(emitted order source target).map (LabelledRecord.block width),
    (emitted order source target.regroup).map (LabelledRecord.block width), ?_, rfl, ?_⟩
  · apply List.Perm.map
    exact (emitted_perm order source target.regroup).trans (emitted_perm order source target).symm
  · rw [emittedText, tableLines_regroup]

/-- On regrouped tables the same records are emitted when their order is the same. -/
theorem emitted_eq_iff (hsource : source.WellFormed entrySize) {target' : OffsetTable} :
    emitted order source target' = emitted order source target ↔
      (emitted order source target').map (·.record) =
        (emitted order source target).map (·.record) := by
  refine ⟨fun h => by rw [h], fun h => ?_⟩
  apply LabelledRecord.eq_of_map_record_eq h
  intro x hx y hy hrecord
  have hsame : x = y :=
    List.inj_on_of_nodup_map hsource.records_nodup (mem_emitted.mp hx) (mem_emitted.mp hy) hrecord
  rw [hsame]

end Regrouped

/-! ## The second run -/

section Rerun

variable {options : Options} {source : NamedText} {s : Artifact} {target : OffsetTable}
  {placements : List Placement}

/-- Minifying onto the text of a source's records succeeds when the headers of its tables
are clear, and writes the records on the regrouped tables. -/
theorem minifyTexts_onto_emittedText
    (hs : (Artifact.parse options.entrySize source.text).value = .ok s)
    (hdeclarable : OffsetTable.Declarable target.entries) (hnamed : target.Named)
    (hplaced : linearize options.order s target = .ok placements) (name : String) :
    (HeadersClear target [] target.tableNames ∧
      ∃ again, (minifyTexts options source
          ⟨name, emittedText options.order options.payload s target⟩).value = .ok again ∧
        again.text = emittedText options.order options.payload s target.regroup) ∨
    (¬ HeadersClear target [] target.tableNames ∧
      ∀ again, (minifyTexts options source
        ⟨name, emittedText options.order options.payload s target⟩).value ≠ .ok again) := by
  have hwell := wellFormed_of_parse hs
  obtain ⟨-, hcovers, -⟩ := (linearize_eq_ok_iff hwell.labels_ne_nil).mp hplaced
  rcases parse_emittedText options.order hwell hdeclarable hnamed hcovers
    options.payload with ⟨hclear, hparse⟩ | ⟨hunclear, e, hparse⟩
  · refine Or.inl ⟨hclear, _, minifyTexts_eq_ok_iff.mpr ⟨s, _, _, hs, hparse,
      linearize_regroup hwell.labels_ne_nil hplaced, rfl⟩, ?_⟩
    exact render_emitted (fun entry hentry => covers_regroup (hcovers entry hentry))
      hwell.labels_ascending options.payload
  · refine Or.inr ⟨hunclear, fun again hagain => ?_⟩
    obtain ⟨_, t, _, -, ht, -⟩ := minifyTexts_eq_ok_iff.mp hagain
    rw [hparse] at ht
    cases ht

/-- Two texts of one source, on some tables and on these regrouped, are the same when
the records are emitted in the same order. -/
theorem emittedText_regroup_eq_iff
    (hs : (Artifact.parse options.entrySize source.text).value = .ok s)
    (hdeclarable : OffsetTable.Declarable target.entries) (hnamed : target.Named)
    (hcovers : ∀ entry ∈ s.records, target.Covers entry)
    (hclear : HeadersClear target [] target.tableNames) :
    emittedText options.order options.payload s target.regroup =
        emittedText options.order options.payload s target ↔
      (emitted options.order s target.regroup).map (·.record) =
        (emitted options.order s target).map (·.record) := by
  have hwell := wellFormed_of_parse hs
  rw [← emitted_eq_iff hwell]
  constructor
  · -- Equal texts are read as equal artifacts.
    intro htext
    have hnamed' : target.regroup.Named := fun e he =>
      hnamed e (OffsetTable.mem_entries_regroup.mp he)
    rcases parse_emittedText options.order hwell hdeclarable hnamed hcovers
      options.payload with ⟨-, hparse⟩ | ⟨hunclear, -⟩
    · rcases parse_emittedText options.order hwell
        (OffsetTable.declarable_regroup hdeclarable) hnamed'
        (fun entry hentry => covers_regroup (hcovers entry hentry)) options.payload with
        ⟨-, hparse'⟩ | ⟨hunclear, -⟩
      · rw [htext, hparse] at hparse'
        exact (congrArg Artifact.records (Except.ok.inj hparse')).symm
      · exact absurd (headersClear_regroup hclear) hunclear
    · exact absurd hclear hunclear
  · intro hemitted
    rw [emittedText, emittedText, tableLines_regroup, hemitted]

/-- Minifying the same source onto its minified text succeeds exactly when no table of
the target has the name of a label of an earlier table. The second output has the tables
of the first and the same blocks. It is the same text when the regrouped tables rank the
records as the target's did, as they do when the target was regrouped already, and a
third run changes nothing any more. -/
theorem rerun_minified {target : NamedText} {output : Output}
    (h : (minifyTexts options source target).value = .ok output) (name : String) :
    ∃ s t placements placements',
      (Artifact.parse options.entrySize source.text).value = .ok s ∧
      (Artifact.parse options.entrySize target.text).value = .ok t ∧
      linearize options.order s t.offsets = .ok placements ∧
      linearize options.order s t.offsets.regroup = .ok placements' ∧
      ((∃ again, (minifyTexts options source ⟨name, output.text⟩).value = .ok again) ↔
        ∀ before table after, t.offsets.tableNames = before ++ table :: after →
          ∀ earlier ∈ before, table ∉ t.offsets.labelsOf earlier) ∧
      ∀ again, (minifyTexts options source ⟨name, output.text⟩).value = .ok again →
        (∃ blocks blocks' : List Block, blocks'.Perm blocks ∧
          output.text =
            Listing.unlines (Listing.tableLines t.offsets ++ blocks.flatMap Block.lines) ∧
          again.text =
            Listing.unlines (Listing.tableLines t.offsets ++ blocks'.flatMap Block.lines)) ∧
        (again.text = output.text ↔
          placements'.map (·.record) = placements.map (·.record)) ∧
        (t.offsets.regroup = t.offsets → again.text = output.text) ∧
        ∃ third, (minifyTexts options source ⟨name, again.text⟩).value = .ok third ∧
          third.text = again.text := by
  obtain ⟨s, t, placements, hs, ht, hplaced, -, hcovers, rfl, htext⟩ := text_of_minifyTexts h
  have hwell := wellFormed_of_parse hs
  have htarget := wellFormed_of_parse ht
  have hregrouped := linearize_regroup hwell.labels_ne_nil hplaced
  refine ⟨s, t, _, _, hs, ht, hplaced, hregrouped, ?_⟩
  rw [← headersClear_tableNames_iff, htext]
  rcases minifyTexts_onto_emittedText hs htarget.declarable htarget.entry_names hplaced name with
    ⟨hclear, second, hsecond, hsecondText⟩ | ⟨hunclear, hnone⟩
  · refine ⟨⟨fun _ => hclear, fun _ => ⟨second, hsecond⟩⟩, fun again hagain => ?_⟩
    obtain rfl : second = again := Except.ok.inj (hsecond.symm.trans hagain)
    rw [hsecondText]
    refine ⟨emittedText_regroup options.payload, ?_, fun hsame => by rw [hsame], ?_⟩
    · rw [emittedText_regroup_eq_iff hs htarget.declarable htarget.entry_names hcovers hclear,
        List.map_map, List.map_map]
      rfl
    · -- The tables of the second output are regrouped already.
      have hnamed : t.offsets.regroup.Named := fun e he =>
        htarget.entry_names e (OffsetTable.mem_entries_regroup.mp he)
      rcases minifyTexts_onto_emittedText hs (OffsetTable.declarable_regroup htarget.declarable)
        hnamed hregrouped name with ⟨-, third, hthird, hthirdText⟩ | ⟨hunclear, -⟩
      · rw [OffsetTable.regroup_regroup] at hthirdText
        exact ⟨third, hthird, hthirdText⟩
      · exact absurd (headersClear_regroup hclear) hunclear
  · refine ⟨⟨?_, fun hclear => absurd hclear hunclear⟩, fun again hagain => ?_⟩
    · rintro ⟨again, hagain⟩
      exact absurd hagain (hnone again)
    · exact absurd hagain (hnone again)

/-- A target that declares its tables one after the other is minified onto once more
without a change. -/
theorem rerun_minified_of_two_tables :
    ∃ output again,
      (minifyTexts ⟨1, .word, .sequential⟩
        ⟨"s.asm", "\tdc.w A-T,B-U\nA:\n\tdc.w 0\nB:\n\tdc.w 1,5\n"⟩
        ⟨"t.asm", "\tdc.w A-T,B-U\nA:\n\tdc.w 0\n"⟩).value = .ok output ∧
      (minifyTexts ⟨1, .word, .sequential⟩
        ⟨"s.asm", "\tdc.w A-T,B-U\nA:\n\tdc.w 0\nB:\n\tdc.w 1,5\n"⟩
        ⟨"t.asm", output.text⟩).value = .ok again ∧
      again.text = output.text := by
  have h : (minifyTexts ⟨1, .word, .sequential⟩
      ⟨"s.asm", "\tdc.w A-T,B-U\nA:\n\tdc.w 0\nB:\n\tdc.w 1,5\n"⟩
      ⟨"t.asm", "\tdc.w A-T,B-U\nA:\n\tdc.w 0\n"⟩).value = .ok
        ⟨"T:\n\t\tdc.w A-T\nU:\n\t\tdc.w B-U\nA:\n\t\tdc.w 0\nB:\n\t\tdc.w 1\n\t\tdc.w 5\n",
          ⟨2, 2, 2, 2, 0⟩⟩ := by
    simp only [minifyTexts, minify, linearize_eq_insertionSort]
    decide +kernel
  have ht : (Artifact.parse 1 "\tdc.w A-T,B-U\nA:\n\tdc.w 0\n").value =
      .ok ⟨⟨[⟨"A", "T"⟩, ⟨"B", "U"⟩]⟩, [⟨⟨0, []⟩, ["A"]⟩]⟩ := by
    decide +kernel
  obtain ⟨s, t, _, _, -, htarget, -, -, hiff, hresult⟩ := rerun_minified h "t.asm"
  rw [ht] at htarget
  cases htarget
  have hnames : OffsetTable.tableNames ⟨[⟨"A", "T"⟩, ⟨"B", "U"⟩]⟩ = ["T", "U"] := by decide
  obtain ⟨again, hagain⟩ := hiff.mpr (by
    rw [← headersClear_tableNames_iff, hnames]
    refine ⟨by decide, by decide, trivial⟩)
  obtain ⟨-, -, hsame, -⟩ := hresult again hagain
  exact ⟨_, again, h, hagain, hsame (by decide)⟩

/-- Minifying onto a minified text may change it: when the target mixes the entries of
two tables, the second output has its blocks in another order. -/
theorem not_rerun_unchanged :
    ¬ ∀ (options : Options) (source target : NamedText) (output : Output),
      (minifyTexts options source target).value = .ok output →
        ∃ again, (minifyTexts options source ⟨target.name, output.text⟩).value = .ok again ∧
          again.text = output.text := by
  intro hunchanged
  -- first run: `A`, `B`, `C` in the order of the target
  have hfirst : (minifyTexts ⟨1, .word, .sequential⟩
      ⟨"s.asm", "\tdc.w A-T,B-U,C-T\nA:\n\tdc.w 0\nB:\n\tdc.w 1,5\nC:\n\tdc.w 2,6,7\n"⟩
      ⟨"t.asm", "\tdc.w A-T,B-U,C-T\n"⟩).value = .ok
        ⟨"T:\n\t\tdc.w A-T\n\t\tdc.w C-T\nU:\n\t\tdc.w B-U\nA:\n\t\tdc.w 0\n" ++
          "B:\n\t\tdc.w 1\n\t\tdc.w 5\nC:\n\t\tdc.w 2\n\t\tdc.w 6\n\t\tdc.w 7\n",
          ⟨2, 3, 3, 3, 0⟩⟩ := by
    simp only [minifyTexts, minify, linearize_eq_insertionSort]
    decide +kernel
  -- second run: `C` comes before `B`, as its table does
  have hsecond : (minifyTexts ⟨1, .word, .sequential⟩
      ⟨"s.asm", "\tdc.w A-T,B-U,C-T\nA:\n\tdc.w 0\nB:\n\tdc.w 1,5\nC:\n\tdc.w 2,6,7\n"⟩
      ⟨"t.asm", "T:\n\t\tdc.w A-T\n\t\tdc.w C-T\nU:\n\t\tdc.w B-U\nA:\n\t\tdc.w 0\n" ++
          "B:\n\t\tdc.w 1\n\t\tdc.w 5\nC:\n\t\tdc.w 2\n\t\tdc.w 6\n\t\tdc.w 7\n"⟩).value = .ok
        ⟨"T:\n\t\tdc.w A-T\n\t\tdc.w C-T\nU:\n\t\tdc.w B-U\nA:\n\t\tdc.w 0\n" ++
          "C:\n\t\tdc.w 2\n\t\tdc.w 6\n\t\tdc.w 7\nB:\n\t\tdc.w 1\n\t\tdc.w 5\n",
          ⟨2, 3, 3, 3, 0⟩⟩ := by
    simp only [minifyTexts, minify, linearize_eq_insertionSort]
    decide +kernel
  obtain ⟨again, hagain, htext⟩ := hunchanged _ _ _ _ hfirst
  rw [hsecond] at hagain
  cases hagain
  exact absurd htext (by decide)

end Rerun

end SpriteTables
