import SpriteTables.Proofs.Minify.RoundTrip
import SpriteTables.Proofs.Placement.Rank

/-!
# Sources with the same records

Of a source only the records and their labels take part in minifying. Neither the order in which
its text lists them nor its own offset tables can be told from the output: the records are ranked
by their labels' positions in the target, and no two of them tie
(`minifyTexts_eq_ok_of_labelsOf?_eq`).
-/

set_option autoImplicit false

namespace SpriteTables

open Text (NamedText)

section SameRecords

variable {entrySize : Nat} {a b : Artifact} {order : IndexOrder} {target : OffsetTable}

/-- Artifacts in which every record has the same labels list the same records. -/
theorem perm_records_of_labelsOf?_eq (ha : a.WellFormed entrySize) (hb : b.WellFormed entrySize)
    (h : ∀ record, a.labelsOf? record = b.labelsOf? record) : a.records.Perm b.records := by
  refine (List.perm_ext_iff_of_nodup ?_ ?_).mpr fun entry => ?_
  · exact List.Nodup.of_map _ ha.records_nodup
  · exact List.Nodup.of_map _ hb.records_nodup
  · rw [← Artifact.labelsOf?_eq_some_iff ha, ← Artifact.labelsOf?_eq_some_iff hb, h]

/-- The same records are emitted in the same order, however the source lists them. -/
theorem emitted_eq_of_perm (ha : a.WellFormed entrySize) (hsuits : order.Suits target)
    (hcovers : ∀ entry ∈ a.records, target.Covers entry) (hperm : a.records.Perm b.records) :
    emitted order a target = emitted order b target := by
  have hemitted : (emitted order a target).Perm (emitted order b target) :=
    (emitted_perm order a target).trans (hperm.trans (emitted_perm order b target).symm)
  -- both lists ascend by key, and a key belongs to one record only
  refine hemitted.eq_of_pairwise ?_ (pairwise_emitted order a target)
    (pairwise_emitted order b target)
  intro x y hx hy hxy hyx
  have hy : y ∈ a.records := hperm.mem_iff.mpr (mem_emitted.mp hy)
  exact eq_of_sortKey_eq ha hsuits hcovers (mem_emitted.mp hx) hy (Nat.le_antisymm hxy hyx)

/-- A source can be placed when one with the same records can, and its placements are the
same. -/
theorem linearize_eq_ok_of_perm (ha : a.WellFormed entrySize) (hb : b.WellFormed entrySize)
    (hperm : a.records.Perm b.records) {placements : List Placement}
    (h : linearize order a target = .ok placements) :
    linearize order b target = .ok placements := by
  obtain ⟨hsuits, hcovers, rfl⟩ := (linearize_eq_ok_iff ha.labels_ne_nil).mp h
  refine (linearize_eq_ok_iff hb.labels_ne_nil).mpr ⟨hsuits, fun entry hentry => ?_, ?_⟩
  · exact hcovers entry (hperm.mem_iff.mpr hentry)
  · rw [emitted_eq_of_perm ha hsuits hcovers hperm]

/-- The same records have as many labels in any order. -/
theorem labelCount_eq_of_perm (hperm : a.records.Perm b.records) :
    a.labelCount = b.labelCount :=
  (hperm.flatMap_right LabelledRecord.labels).length_eq

end SameRecords

section Outputs

variable {options : Options} {source other : NamedText} {s o : Artifact}

/-- What a source is minified to, any source with the same records is minified to. -/
theorem minifyTexts_eq_ok_of_perm
    (hs : (Artifact.parse options.entrySize source.text).value = .ok s)
    (ho : (Artifact.parse options.entrySize other.text).value = .ok o)
    (hperm : s.records.Perm o.records) {target : NamedText} {output : Output}
    (h : (minifyTexts options source target).value = .ok output) :
    (minifyTexts options other target).value = .ok output := by
  obtain ⟨s', t, placements, hs', ht, hplaced, rfl⟩ := minifyTexts_eq_ok_iff.mp h
  obtain rfl : s = s' := Except.ok.inj (hs.symm.trans hs')
  refine minifyTexts_eq_ok_iff.mpr ⟨o, t, placements, ho, ht, ?_, ?_⟩
  · exact linearize_eq_ok_of_perm (wellFormed_of_parse hs) (wellFormed_of_parse ho) hperm hplaced
  · rw [Output.ofPlacements, Output.ofPlacements, labelCount_eq_of_perm hperm]

/-- The output depends on the source only through the labels of its records. Two sources
that agree on these are both minified onto a target, to the same text and the same
counts, or neither of them is. -/
theorem minifyTexts_eq_ok_of_labelsOf?_eq
    (hs : (Artifact.parse options.entrySize source.text).value = .ok s)
    (ho : (Artifact.parse options.entrySize other.text).value = .ok o)
    (hsame : ∀ record, s.labelsOf? record = o.labelsOf? record) (target : NamedText)
    (output : Output) :
    (minifyTexts options source target).value = .ok output ↔
      (minifyTexts options other target).value = .ok output := by
  have hperm : s.records.Perm o.records :=
    perm_records_of_labelsOf?_eq (wellFormed_of_parse hs) (wellFormed_of_parse ho) hsame
  exact ⟨minifyTexts_eq_ok_of_perm hs ho hperm, minifyTexts_eq_ok_of_perm ho hs hperm.symm⟩

end Outputs

/-- Two sources that list two records in either order, one with a second offset table and
bytes for words, are minified onto tables read in step to the same output. -/
theorem minifyTexts_eq_ok_of_swapped_records :
    ∃ output,
      (minifyTexts ⟨1, .word, .interleaved⟩
        ⟨"s.asm", "\tdc.w A-T,B-T\nA:\n\tdc.w 0\nB:\nC:\n\tdc.w 1,5\n"⟩
        ⟨"t.asm", "\tdc.w C-T,A-T,B-U,D-U\n"⟩).value = .ok output ∧
      (minifyTexts ⟨1, .word, .interleaved⟩
        ⟨"o.asm", "\tdc.w C-V\nC:\nB:\n\tdc.b 0,1,0,5\nA:\n\tdc.w 0\n"⟩
        ⟨"t.asm", "\tdc.w C-T,A-T,B-U,D-U\n"⟩).value = .ok output := by
  have hs : (Artifact.parse 1 "\tdc.w A-T,B-T\nA:\n\tdc.w 0\nB:\nC:\n\tdc.w 1,5\n").value = .ok
      ⟨⟨[⟨"A", "T"⟩, ⟨"B", "T"⟩]⟩, [⟨⟨0, []⟩, ["A"]⟩, ⟨⟨1, [5]⟩, ["B", "C"]⟩]⟩ := by
    decide +kernel
  have ho : (Artifact.parse 1 "\tdc.w C-V\nC:\nB:\n\tdc.b 0,1,0,5\nA:\n\tdc.w 0\n").value = .ok
      ⟨⟨[⟨"C", "V"⟩]⟩, [⟨⟨1, [5]⟩, ["B", "C"]⟩, ⟨⟨0, []⟩, ["A"]⟩]⟩ := by
    decide +kernel
  have hminify : (minifyTexts ⟨1, .word, .interleaved⟩
      ⟨"s.asm", "\tdc.w A-T,B-T\nA:\n\tdc.w 0\nB:\nC:\n\tdc.w 1,5\n"⟩
      ⟨"t.asm", "\tdc.w C-T,A-T,B-U,D-U\n"⟩).value = .ok
        ⟨"T:\n\t\tdc.w C-T\n\t\tdc.w A-T\nU:\n\t\tdc.w B-U\n\t\tdc.w D-U\n" ++
          "B:\nC:\n\t\tdc.w 1\n\t\tdc.w 5\nA:\n\t\tdc.w 0\n", ⟨2, 4, 3, 2, 1⟩⟩ := by
    simp only [minifyTexts, minify, linearize_eq_insertionSort]
    decide +kernel
  refine ⟨_, hminify, (minifyTexts_eq_ok_of_labelsOf?_eq hs ho (fun record => ?_) _ _).mp hminify⟩
  simp only [Artifact.labelsOf?, List.find?_cons]
  by_cases h : (⟨0, []⟩ : Record) = record
  · subst h
    decide
  · by_cases h' : (⟨1, [5]⟩ : Record) = record
    · subst h'
      decide
    · simp [h, h']

end SpriteTables
