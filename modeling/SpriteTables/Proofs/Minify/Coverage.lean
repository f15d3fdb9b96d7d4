import SpriteTables.Proofs.Artifact.Switch
import SpriteTables.Proofs.Minify.RoundTrip

/-!
# What minifying leaves uncovered

Placing marks the first position of every label that it places, and an offset entry counts as
covered when the first position of its label is marked. In terms of labels, the entries left over
are those whose label names no record of the source (`uncoveredEntries_eq`). Only the shared root
is ever declared again, so the covered entries can be counted by the labels of the source and the
repetitions of that one label (`coverage_of_minifyTexts`).
-/

set_option autoImplicit false

namespace SpriteTables

open Text (NamedText)

/-! ## Repetitions of the shared root -/

namespace OffsetTable

variable {t : OffsetTable}

/-- The entries that repeat the shared root. -/
def repeats (t : OffsetTable) : List OffsetEntry :=
  t.entries.tail.filter fun e => t.sharedRoot? = some e.label

/-- The entries that declare their label for the first time. -/
def firsts (t : OffsetTable) : List OffsetEntry :=
  t.entries.head?.toList ++ t.entries.tail.filter fun e => !decide (t.sharedRoot? = some e.label)

/-- Every entry declares its label for the first time or repeats the shared root. -/
theorem firsts_append_repeats_perm (t : OffsetTable) : (t.firsts ++ t.repeats).Perm t.entries := by
  obtain ⟨_ | ⟨root, rest⟩⟩ := t
  · exact List.Perm.nil
  · apply List.Perm.cons
    exact List.perm_append_comm.trans (List.filter_append_perm _ rest)

theorem label_of_mem_repeats {e : OffsetEntry} (h : e ∈ t.repeats) :
    t.sharedRoot? = some e.label :=
  of_decide_eq_true (List.mem_filter.mp h).2

/-- The shared root is declared for the first time, too. -/
theorem exists_mem_firsts_iff {label : String} :
    (∃ e ∈ t.firsts, e.label = label) ↔ ∃ e ∈ t.entries, e.label = label := by
  constructor
  · rintro ⟨e, he, hlabel⟩
    exact ⟨e, (firsts_append_repeats_perm t).subset (List.mem_append_left _ he), hlabel⟩
  · rintro ⟨e, he, rfl⟩
    rcases List.mem_append.mp ((firsts_append_repeats_perm t).symm.subset he) with he | he
    · exact ⟨e, he, rfl⟩
    · obtain ⟨root, hroot, hlabel⟩ := Option.map_eq_some_iff.mp (label_of_mem_repeats he)
      refine ⟨root, List.mem_append_left _ ?_, hlabel⟩
      rw [hroot]
      exact List.mem_singleton_self root

/-- No two entries declare one label for the first time. -/
theorem nodup_labels_firsts (h : Declarable t.entries) : (t.firsts.map (·.label)).Nodup := by
  obtain ⟨_ | ⟨root, rest⟩⟩ := t
  · exact List.nodup_nil
  · obtain ⟨-, hpair⟩ := declarable_cons_iff.mp h
    have hother : ∀ e ∈ rest.filter (fun e => !decide (some root.label = some e.label)),
        e.label ≠ root.label := by
      intro e he hlabel
      simp [hlabel] at he
    refine List.nodup_cons.mpr ⟨?_, ?_⟩
    · rw [List.mem_map]
      rintro ⟨e, he, hlabel⟩
      exact hother e he hlabel
    · refine List.pairwise_map.mpr ((hpair.filter _).imp_of_mem ?_)
      intro e e' he _ hsame heq
      exact hother e he (hsame heq)

section Counting

variable {labels : List String} {p : String → Bool}

/-- Of the entries that declare a label for the first time, as many have one of some known
labels as there are of these. -/
theorem length_filter_firsts (h : Declarable t.entries) (hnodup : labels.Nodup)
    (hknown : ∀ label ∈ labels, ∃ e ∈ t.entries, e.label = label)
    (hp : ∀ label, p label = true ↔ label ∈ labels) :
    (t.firsts.filter fun e => p e.label).length = labels.length := by
  have hnodup' : ((t.firsts.filter fun e => p e.label).map (·.label)).Nodup :=
    (nodup_labels_firsts h).sublist (List.filter_sublist.map _)
  have hperm : ((t.firsts.filter fun e => p e.label).map (·.label)).Perm labels := by
    refine (List.perm_ext_iff_of_nodup hnodup' hnodup).mpr fun label => ?_
    simp only [List.mem_map, List.mem_filter, hp]
    constructor
    · rintro ⟨e, ⟨-, hlabel⟩, rfl⟩
      exact hlabel
    · intro hlabel
      obtain ⟨e, he, rfl⟩ := exists_mem_firsts_iff.mpr (hknown label hlabel)
      exact ⟨e, ⟨he, hlabel⟩, rfl⟩
  rw [← hperm.length_eq, List.length_map]

/-- The repetitions of the shared root count together or not at all. -/
theorem length_filter_repeats (t : OffsetTable) (p : String → Bool) :
    (t.repeats.filter fun e => p e.label).length =
      if t.sharedRoot?.any p then t.repeats.length else 0 := by
  have hroot : ∀ e ∈ t.repeats, p e.label = t.sharedRoot?.any p := by
    intro e he
    rw [label_of_mem_repeats he]
    rfl
  rw [List.filter_congr hroot]
  cases t.sharedRoot?.any p with
  | true => simp
  | false => simp

/-- As many entries have one of some known labels as there are of these, and the repetitions
of the shared root if it is among them. -/
theorem length_filter_label (h : Declarable t.entries) (hnodup : labels.Nodup)
    (hknown : ∀ label ∈ labels, ∃ e ∈ t.entries, e.label = label)
    (hp : ∀ label, p label = true ↔ label ∈ labels) :
    (t.entries.filter fun e => p e.label).length =
      labels.length + if t.sharedRoot?.any p then t.repeats.length else 0 := by
  have hperm := (firsts_append_repeats_perm t).symm.filter fun e => p e.label
  calc (t.entries.filter fun e => p e.label).length
      = (t.firsts.filter fun e => p e.label).length +
          (t.repeats.filter fun e => p e.label).length := by
        rw [hperm.length_eq, List.filter_append, List.length_append]
    _ = labels.length + if t.sharedRoot?.any p then t.repeats.length else 0 := by
        rw [length_filter_firsts h hnodup hknown hp, length_filter_repeats]

end Counting

end OffsetTable

/-! ## Coverage in terms of labels -/

/-- Some record of an artifact has the label. -/
def Artifact.bindsLabel (a : Artifact) (label : String) : Bool :=
  (a.recordOf? label).isSome

theorem Artifact.bindsLabel_iff {a : Artifact} {label : String} :
    a.bindsLabel label = true ↔ ∃ entry ∈ a.records, label ∈ entry.labels := by
  rw [bindsLabel, recordOf?, Option.isSome_map, List.find?_isSome]
  simp only [List.contains_iff_mem]

section Coverage

variable {entrySize : Nat} {order : IndexOrder} {source : Artifact} {target : OffsetTable}
  {placements : List Placement}

/-- Two labels have one position only if they are the same. -/
theorem eq_of_indexOf? {label label' : String} {index : Nat}
    (h : target.indexOf? label = some index) (h' : target.indexOf? label' = some index) :
    label = label' := by
  have hat := labelAt?_of_indexOf? h
  rw [labelAt?_of_indexOf? h'] at hat
  exact (Option.some.inj hat).symm

/-- The placements of a source cover exactly the labels of its records. -/
theorem isCovered_iff (hne : ∀ entry ∈ source.records, entry.labels ≠ [])
    (h : linearize order source target = .ok placements) (label : String) :
    isCovered target placements label = source.bindsLabel label := by
  obtain ⟨-, hcovers, rfl⟩ := (linearize_eq_ok_iff hne).mp h
  rw [Bool.eq_iff_iff, Artifact.bindsLabel_iff, isCovered]
  cases hindex : target.indexOf? label with
  | none =>
      refine ⟨fun h => absurd h Bool.false_ne_true, ?_⟩
      rintro ⟨entry, hentry, hlabel⟩
      obtain ⟨index, hsome⟩ := exists_indexOf?_iff.mpr (hcovers entry hentry label hlabel)
      rw [hindex] at hsome
      cases hsome
  | some index =>
      simp only [List.any_map, List.any_eq_true, Function.comp_apply, List.contains_iff_mem,
        mem_emitted, Placement.mem_indices_ofEntry]
      constructor
      · rintro ⟨entry, hentry, other, hother, hfound⟩
        obtain rfl := eq_of_indexOf? hindex hfound
        exact ⟨entry, hentry, hother⟩
      · rintro ⟨entry, hentry, hlabel⟩
        exact ⟨entry, hentry, label, hlabel, hindex⟩

/-- The entries left uncovered are those whose label the source binds to no record. -/
theorem uncoveredEntries_eq (hne : ∀ entry ∈ source.records, entry.labels ≠ [])
    (h : linearize order source target = .ok placements) :
    uncoveredEntries target placements =
      target.entries.filter fun e => !source.bindsLabel e.label := by
  rw [uncoveredEntries]
  apply List.filter_congr
  intro e _
  rw [isCovered_iff hne h]

/-- A record has a label of its own, so there are no fewer labels than records. -/
theorem recordCount_le_labelCount (hne : ∀ entry ∈ source.records, entry.labels ≠ []) :
    source.recordCount ≤ source.labelCount := by
  rw [Artifact.recordCount, Artifact.labelCount]
  generalize source.records = records at hne
  induction records with
  | nil => exact Nat.le_refl 0
  | cons entry rest ih =>
      obtain ⟨hentry, hrest⟩ := List.forall_mem_cons.mp hne
      have hpos : 0 < entry.labels.length := List.length_pos_of_ne_nil hentry
      have hle := ih hrest
      rw [List.flatMap_cons, List.length_append, List.length_cons]
      omega

/-- The entries of a target are counted by the labels of a placed source, by what these leave
uncovered, and by the repetitions of the shared root if it is among them. -/
theorem size_eq_of_linearize (hsource : source.WellFormed entrySize)
    (htarget : OffsetTable.Declarable target.entries)
    (h : linearize order source target = .ok placements) :
    target.size = source.labelCount + (uncoveredEntries target placements).length +
      if target.sharedRoot?.any source.bindsLabel then target.repeats.length else 0 := by
  obtain ⟨-, hcovers, -⟩ := (linearize_eq_ok_iff hsource.labels_ne_nil).mp h
  have hcovered : (target.entries.filter fun e => source.bindsLabel e.label).length =
      source.labelCount +
        if target.sharedRoot?.any source.bindsLabel then target.repeats.length else 0 := by
    apply OffsetTable.length_filter_label htarget (Artifact.nodup_flatMap_labels hsource)
    · intro label hlabel
      obtain ⟨entry, hentry, hlabel⟩ := List.mem_flatMap.mp hlabel
      exact hcovers entry hentry label hlabel
    · intro label
      rw [Artifact.bindsLabel_iff, List.mem_flatMap]
  have hsplit := List.length_eq_length_filter_add (l := target.entries)
    fun e => source.bindsLabel e.label
  rw [OffsetTable.size, hsplit, hcovered, uncoveredEntries_eq hsource.labels_ne_nil h]
  exact Nat.add_right_comm _ _ _

end Coverage

/-! ## Warnings -/

/-- The remarks of a log that are warnings. -/
def warnings (log : List LogEvent) : List LogEvent :=
  log.filter fun event => event.level = .warn

theorem warnings_append (log log' : List LogEvent) :
    warnings (log ++ log') = warnings log ++ warnings log' :=
  List.filter_append ..

theorem warnings_closingRemarks (d : Draft) : warnings d.closingRemarks = [] := by
  rw [Draft.closingRemarks]
  split <;> rfl

/-- Reading an artifact warns of nothing. -/
theorem warnings_of_parse {entrySize : Nat} {text : String} {a : Artifact}
    (h : (Artifact.parse entrySize text).value = .ok a) :
    warnings (Artifact.parse entrySize text).log = [] := by
  obtain ⟨d, verdict, hreaches, hverdict, -, hlog⟩ := Draft.reaches_of_parse h
  rw [hlog, warnings_append, warnings_closingRemarks, List.append_nil]
  -- at most the switch to the records was remarked before the end
  rcases hreaches.inTables_or_among hverdict with ⟨-, htables⟩ |
    ⟨_, _, _, _, _, _, _, hamong, _⟩
  · rw [htables.log_eq]
    rfl
  · rw [hamong.log_eq]
    rfl

/-- Every remark on a placing is a warning. -/
theorem warnings_coverageRemarks (target : OffsetTable) (placements : List Placement) :
    warnings (coverageRemarks target placements) = coverageRemarks target placements := by
  refine List.filter_eq_self.mpr fun event hevent => ?_
  obtain ⟨e, -, rfl⟩ := List.mem_map.mp hevent
  rfl

theorem Logged.log_andThen {ε α β : Type} {first : Logged (Except ε α)} {a : α}
    (h : first.value = .ok a) (next : α → Logged (Except ε β)) :
    (first.andThen next).log = first.log ++ (next a).log := by
  rw [andThen, h]

/-! ## Minifying -/

/-- When a source is minified on a target, the entries left uncovered are the target's
entries, in their order, whose label the source binds to no record. Each of them is warned
of, in this order, and nothing else is. All entries are counted by the labels of the source,
by the uncovered entries and, if the source binds the shared root, by its repetitions; there
are no more records than labels and no more labels than entries. -/
theorem coverage_of_minifyTexts {options : Options} {source target : NamedText} {output : Output}
    (h : (minifyTexts options source target).value = .ok output) :
    ∃ s t placements,
      (Artifact.parse options.entrySize source.text).value = .ok s ∧
      (Artifact.parse options.entrySize target.text).value = .ok t ∧
      linearize options.order s t.offsets = .ok placements ∧
      uncoveredEntries t.offsets placements =
        t.offsets.entries.filter (fun e => !s.bindsLabel e.label) ∧
      (minify options s t).log = (uncoveredEntries t.offsets placements).map
        (fun e => .uncovered e.label e.table) ∧
      warnings (minifyTexts options source target).log =
        (uncoveredEntries t.offsets placements).map (fun e => .uncovered e.label e.table) ∧
      output.statistics.offsetEntries = t.offsets.entries.length ∧
      output.statistics.sourceLabels = s.labelCount ∧
      output.statistics.distinctRecords = s.recordCount ∧
      output.statistics.uncoveredEntries = (uncoveredEntries t.offsets placements).length ∧
      output.statistics.offsetEntries =
        output.statistics.sourceLabels + output.statistics.uncoveredEntries +
          (if t.offsets.sharedRoot?.any s.bindsLabel then t.offsets.repeats.length else 0) ∧
      output.statistics.distinctRecords ≤ output.statistics.sourceLabels ∧
      output.statistics.sourceLabels ≤ output.statistics.offsetEntries := by
  obtain ⟨s, t, placements, hs, ht, hplaced, rfl⟩ := minifyTexts_eq_ok_iff.mp h
  have hsource := wellFormed_of_parse hs
  have htarget := wellFormed_of_parse ht
  have hminify : (minify options s t).log = coverageRemarks t.offsets placements := by
    rw [minify, hplaced]
  have hwarnings : warnings (minifyTexts options source target).log =
      coverageRemarks t.offsets placements := by
    rw [minifyTexts, Logged.log_andThen (parseNamed_eq_ok_iff.mpr hs),
      Logged.log_andThen (parseNamed_eq_ok_iff.mpr ht), hminify, warnings_append, warnings_append,
      warnings_coverageRemarks]
    show warnings (Artifact.parse options.entrySize source.text).log ++
      (warnings (Artifact.parse options.entrySize target.text).log ++ _) = _
    rw [warnings_of_parse hs, warnings_of_parse ht]
    rfl
  have hrecords : placements.length = s.recordCount := by
    obtain ⟨-, -, rfl⟩ := (linearize_eq_ok_iff hsource.labels_ne_nil).mp hplaced
    rw [List.length_map, (emitted_perm options.order s t.offsets).length_eq]
    rfl
  have hsize := size_eq_of_linearize hsource htarget.declarable hplaced
  refine ⟨s, t, placements, hs, ht, hplaced, uncoveredEntries_eq hsource.labels_ne_nil hplaced,
    hminify, hwarnings, rfl, rfl, hrecords, rfl, hsize, ?_, ?_⟩
  · show placements.length ≤ s.labelCount
    rw [hrecords]
    exact recordCount_le_labelCount hsource.labels_ne_nil
  · show s.labelCount ≤ t.offsets.size
    rw [hsize, Nat.add_assoc]
    exact Nat.le_add_right _ _

/-- A target that repeats its shared root, and one of whose entries has no record. -/
theorem coverage_of_repeated_root :
    ∃ output s t placements,
      (minifyTexts ⟨1, .word, .sequential⟩
        ⟨"s.asm", "\tdc.w A-T\nA:\n\tdc.w 0\nB:\nC:\n\tdc.w 1,5\n"⟩
        ⟨"t.asm", "\tdc.w A-T,B-T,A-U,D-U,C-U\n"⟩).value = .ok output ∧
      output.statistics = ⟨2, 5, 3, 2, 1⟩ ∧
      linearize .sequential s t = .ok placements ∧
      uncoveredEntries t placements = [⟨"D", "U"⟩] ∧
      t.sharedRoot?.any s.bindsLabel = true ∧ t.repeats = [⟨"A", "U"⟩] := by
  have h : (minifyTexts ⟨1, .word, .sequential⟩
      ⟨"s.asm", "\tdc.w A-T\nA:\n\tdc.w 0\nB:\nC:\n\tdc.w 1,5\n"⟩
      ⟨"t.asm", "\tdc.w A-T,B-T,A-U,D-U,C-U\n"⟩).value = .ok
        ⟨"T:\n\t\tdc.w A-T\n\t\tdc.w B-T\nU:\n\t\tdc.w A-U\n\t\tdc.w D-U\n\t\tdc.w C-U\n" ++
          "A:\n\t\tdc.w 0\nB:\nC:\n\t\tdc.w 1\n\t\tdc.w 5\n", ⟨2, 5, 3, 2, 1⟩⟩ := by
    simp only [minifyTexts, minify, linearize_eq_insertionSort]
    decide +kernel
  have hs : (Artifact.parse 1 "\tdc.w A-T\nA:\n\tdc.w 0\nB:\nC:\n\tdc.w 1,5\n").value =
      .ok ⟨⟨[⟨"A", "T"⟩]⟩, [⟨⟨0, []⟩, ["A"]⟩, ⟨⟨1, [5]⟩, ["B", "C"]⟩]⟩ := by
    decide +kernel
  have ht : (Artifact.parse 1 "\tdc.w A-T,B-T,A-U,D-U,C-U\n").value =
      .ok ⟨⟨[⟨"A", "T"⟩, ⟨"B", "T"⟩, ⟨"A", "U"⟩, ⟨"D", "U"⟩, ⟨"C", "U"⟩]⟩, []⟩ := by
    decide +kernel
  obtain ⟨s, t, placements, hsource, htarget, hplaced, huncovered, -⟩ := coverage_of_minifyTexts h
  rw [hs] at hsource
  cases hsource
  rw [ht] at htarget
  cases htarget
  exact ⟨_, _, _, placements, h, rfl, hplaced, huncovered.trans (by decide), by decide, by decide⟩

end SpriteTables
