import SpriteTables.Proofs.Artifact.Gathering
import SpriteTables.Proofs.OffsetTable.Growth
import SpriteTables.Proofs.Operand.Spelling
import SpriteTables.Proofs.Record.Length
import SpriteTables.Proofs.Statement.Written

/-!
# What every artifact satisfies

Whatever text an artifact is read from, its offset entries can be declared in order, its records
have the length that their counts announce, and every label names one record. This module holds
the invariant of a reading (`Draft.Sound`), carries it over every line (`sound_read`,
`sound_run`), and reads it off at the end (`wellFormed_of_parse`, `records_and_labels_of_parse`).
-/

set_option autoImplicit false

namespace SpriteTables

open Text (Span Line linesOf)

/-! ## The invariant -/

/-- What holds of an artifact in the making after any lines: the entries can be declared in order,
labels and tables are identifiers, every label names at most one record, records that are bound
have the announced length, and one that is being read is sound so far. -/
structure Draft.Sound (entrySize : Nat) (d : Draft) : Prop where
  entrySize_eq : d.entrySize = entrySize
  declarable : OffsetTable.Declarable (d.declared.map (·.toOffsetEntry))
  entry_names : ∀ e ∈ d.declared,
    isIdentifier e.label.toList = true ∧ isIdentifier e.table.toList = true
  pending_names : ∀ label ∈ d.pending, isIdentifier label.name.toList = true
  functional : Functional d.bindings
  bound : ∀ label record, Binds d.bindings label record →
    isIdentifier label.toList = true ∧ record.Fits entrySize
  underway : ∀ start reading, d.underway = some (start, reading) → reading.Sound entrySize

namespace Draft

section Steps

variable {entrySize : Nat} {d next : Draft}

theorem sound_start (entrySize : Nat) : Draft.Sound entrySize { entrySize } where
  entrySize_eq := rfl
  declarable := OffsetTable.declarable_nil
  entry_names _ h := absurd h List.not_mem_nil
  pending_names _ h := absurd h List.not_mem_nil
  functional _ _ _ h := by
    obtain ⟨_, hb, -⟩ := h
    cases hb
  bound _ _ h := by
    obtain ⟨_, hb, -⟩ := h
    cases hb
  underway _ _ h := by cases h

/-! ## Labels and tables -/

theorem sound_declareLabel (h : d.Sound entrySize) {label : Label}
    (hlabel : isIdentifier label.name.toList = true) :
    (d.declareLabel label).Sound entrySize := by
  rw [declareLabel]
  split
  · refine { h with pending_names := ?_ }
    intro l hl
    rcases List.mem_append.mp hl with hl | hl
    · exact h.pending_names l hl
    · rw [List.mem_singleton.mp hl]
      exact hlabel
  · refine { h with pending_names := ?_ }
    intro l hl
    rw [List.mem_singleton.mp hl]
    exact hlabel

/-- An operand of an offset table joins two identifiers. -/
theorem isIdentifier_of_entry {o : Operand} {label table : String}
    (h : o.entry = .ok (label, table)) :
    isIdentifier label.toList = true ∧ isIdentifier table.toList = true := by
  rw [Operand.entry, Operand.reference?] at h
  split at h
  · next names hnames =>
      cases h
      split at hnames
      · next htokens =>
          cases hnames
          exact ⟨isIdentifier_of_mem_tokens? htokens (by simp),
            isIdentifier_of_mem_tokens? htokens (by simp)⟩
      · cases hnames
  · cases h

/-- The operands of an offset table keep the declarations in order and their names
identifiers. -/
theorem sound_declareEntries {operands : List Operand} {declared next : List Declaration}
    (hdeclarable : OffsetTable.Declarable (declared.map (·.toOffsetEntry)))
    (hnames : ∀ e ∈ declared,
      isIdentifier e.label.toList = true ∧ isIdentifier e.table.toList = true)
    (h : declareEntries declared operands = .ok next) :
    OffsetTable.Declarable (next.map (·.toOffsetEntry)) ∧
      ∀ e ∈ next, isIdentifier e.label.toList = true ∧ isIdentifier e.table.toList = true := by
  induction operands generalizing declared with
  | nil =>
      cases h
      exact ⟨hdeclarable, hnames⟩
  | cons o rest ih =>
      rw [declareEntries] at h
      split at h
      · cases h
      · next label table hentry =>
          split at h
          · cases h
          · next hdeclare =>
              obtain ⟨hadmits, rfl⟩ := OffsetTable.declare_eq_ok_iff.mp hdeclare
              refine ih ?_ ?_ h
              · rw [List.map_append, List.map_singleton, OffsetTable.declarable_concat_iff]
                exact ⟨hdeclarable, hadmits⟩
              · intro e he
                rcases List.mem_append.mp he with he | he
                · exact hnames e he
                · rw [List.mem_singleton.mp he]
                  exact isIdentifier_of_entry hentry

theorem sound_declareOffsets (h : d.Sound entrySize) {directive : Directive}
    (hdeclare : d.declareOffsets directive = .ok next) : next.Sound entrySize := by
  rw [declareOffsets] at hdeclare
  split at hdeclare
  · cases hdeclare
  · split at hdeclare
    · cases hdeclare
    · next hentries =>
        cases hdeclare
        obtain ⟨hdeclarable, hnames⟩ := sound_declareEntries h.declarable h.entry_names hentries
        exact { h with declarable := hdeclarable, entry_names := hnames }

/-! ## Records -/

theorem sound_bind (h : d.Sound entrySize) {start : Span} {record : Record}
    (hrecord : record.Fits entrySize) (hbind : d.bind start record = .ok next) :
    next.Sound entrySize := by
  rw [bind] at hbind
  split at hbind
  · cases hbind
  · split at hbind
    · cases hbind
    · next hconflict =>
        cases hbind
        have hagrees := (conflict?_eq_none_iff h.functional).mp hconflict
        refine { h with
          pending_names := fun _ hl => absurd hl List.not_mem_nil
          functional := functional_bindAll h.functional hagrees
          bound := ?_
          underway := fun _ _ hunderway => by cases hunderway }
        -- a label that is bound was bound before or waited for this record
        intro name r hbinds
        rcases (binds_bindAll_iff hagrees).mp hbinds with hold | ⟨rfl, label, hlabel, rfl⟩
        · exact h.bound name r hold
        · exact ⟨h.pending_names label hlabel, hrecord⟩

theorem sound_settle (h : d.Sound entrySize) {start : Span}
    {outcome : Except Diagnostic Progress}
    (houtcome : ∀ progress, outcome = .ok progress → progress.Sound entrySize) :
    (d.settle start outcome).1.Sound entrySize := by
  rcases outcome with e | reading | record
  · exact h
  · -- the reading goes on, and is sound by assumption
    refine { h with underway := ?_ }
    intro start' reading' hunderway
    cases hunderway
    exact houtcome _ rfl
  · rw [settle]
    split
    · exact h
    · next hbind => exact sound_bind h (houtcome _ rfl) hbind

/-! ## Lines -/

/-- A draft after the label of a line, if the line has one. -/
def labelled (d : Draft) : Option Label → Draft
  | none => d
  | some label => d.declareLabel label

/-- The label of a statement comes before its body. -/
theorem readStatement_eq (d : Draft) (s : Statement) :
    d.readStatement s =
      match s.body with
      | .empty => (d.labelled s.label, .reading)
      | .sentinel => (d.labelled s.label, .ended)
      | .directive directive => (d.labelled s.label).readDirective directive := by
  obtain ⟨line, label, body⟩ := s
  cases label <;> cases body <;> rfl

theorem sound_readDirective (h : d.Sound entrySize) (directive : Directive) :
    (d.readDirective directive).1.Sound entrySize := by
  rw [readDirective]
  split
  · split
    · exact h
    · next hdeclare => exact sound_declareOffsets h hdeclare
  · -- among the records a directive begins one
    apply sound_settle h
    intro progress hfeed
    rw [h.entrySize_eq] at hfeed
    exact Reading.sound_feed (Reading.sound_begin directive) hfeed

theorem sound_labelled (h : d.Sound entrySize) {line : Line} {s : Statement}
    (hs : Statement.ofLine line = .ok s) : (d.labelled s.label).Sound entrySize := by
  cases hlabel : s.label with
  | none => exact h
  | some label =>
      apply sound_declareLabel h
      rw [Label.name, Text.Piece.text, String.toList_ofList]
      exact Statement.isIdentifier_of_ofLine hs hlabel

theorem sound_readStatement (h : d.Sound entrySize) {line : Line} {s : Statement}
    (hs : Statement.ofLine line = .ok s) : (d.readStatement s).1.Sound entrySize := by
  have hlabelled := sound_labelled h hs
  rw [readStatement_eq]
  split
  · exact hlabelled
  · exact hlabelled
  · exact sound_readDirective hlabelled _

/-- One line keeps a draft sound. -/
theorem sound_read (h : d.Sound entrySize) (line : Line) : (d.read line).1.Sound entrySize := by
  rw [read]
  split
  · exact h
  · next s hs =>
      split
      · -- a record is being read: the line goes on with it
        next start reading hunderway =>
          apply sound_settle h
          intro progress hresume
          rw [h.entrySize_eq] at hresume
          exact Reading.sound_resume (h.underway start reading hunderway) hresume
      · exact sound_readStatement h hs

/-- Any number of lines keep a draft sound. -/
theorem sound_run (h : d.Sound entrySize) (lines : List Line) :
    (d.run lines).1.Sound entrySize := by
  induction lines generalizing d with
  | nil => exact h
  | cons line rest ih =>
      have hread := sound_read h line
      rw [run]
      split
      · next hline =>
          rw [hline] at hread
          exact ih hread
      · next hline =>
          rw [hline] at hread
          exact hread

end Steps

end Draft

/-! ## The artifact -/

/-- What holds of every artifact that was read from a text: the offset entries can be declared in
order, the records are pairwise different and of the length that their count announces, each has
labels in an ascending list, no two records share a label, and all names are identifiers. -/
structure Artifact.WellFormed (entrySize : Nat) (a : Artifact) : Prop where
  declarable : OffsetTable.Declarable a.offsets.entries
  entry_names : ∀ e ∈ a.offsets.entries,
    isIdentifier e.label.toList = true ∧ isIdentifier e.table.toList = true
  records_nodup : (a.records.map (·.record)).Nodup
  fits : ∀ entry ∈ a.records, entry.record.Fits entrySize
  labels_ne_nil : ∀ entry ∈ a.records, entry.labels ≠ []
  labels_ascending : ∀ entry ∈ a.records, entry.labels.Pairwise (· < ·)
  eq_of_mem_labels : ∀ x ∈ a.records, ∀ y ∈ a.records, ∀ label,
    label ∈ x.labels → label ∈ y.labels → x = y
  label_names : ∀ entry ∈ a.records, ∀ label ∈ entry.labels, isIdentifier label.toList = true

theorem Draft.Sound.wellFormed {entrySize : Nat} {d : Draft} (h : d.Sound entrySize) :
    d.artifact.WellFormed entrySize := by
  have hgathered : LabelledRecord.Gathered d.artifact.records d.bindings :=
    LabelledRecord.gathered_gather d.bindings
  refine ⟨h.declarable, ?_, hgathered.nodup, ?_, fun entry => hgathered.labels_ne_nil,
    hgathered.ascending, ?_, ?_⟩
  · intro e he
    obtain ⟨declaration, hdeclaration, rfl⟩ := List.mem_map.mp he
    exact h.entry_names declaration hdeclaration
  · -- A record has a label, and whatever is bound has the announced length.
    intro entry hentry
    obtain ⟨label, hlabel⟩ := List.exists_mem_of_ne_nil _ (hgathered.labels_ne_nil hentry)
    exact (h.bound label _ ((hgathered.mem_labels hentry).mp hlabel)).2
  · intro x hx y hy label hlx hly
    apply hgathered.eq_of_record_eq hx hy
    exact h.functional label _ _ ((hgathered.mem_labels hx).mp hlx)
      ((hgathered.mem_labels hy).mp hly)
  · intro entry hentry label hlabel
    exact (h.bound label _ ((hgathered.mem_labels hentry).mp hlabel)).1

/-- Every artifact that is read is well formed. -/
theorem wellFormed_of_parse {entrySize : Nat} {text : String} {a : Artifact}
    (h : (Artifact.parse entrySize text).value = .ok a) : a.WellFormed entrySize := by
  have hsound := Draft.sound_run (Draft.sound_start entrySize) (linesOf text)
  rw [Artifact.parse] at h
  generalize Draft.run { entrySize } (linesOf text) = outcome at h hsound
  obtain ⟨d, verdict⟩ := outcome
  cases verdict with
  | failed e => cases h
  | ended =>
      -- the sentinel ends the text before its last line
      cases h
      exact hsound.wellFormed
  | reading =>
      rw [Draft.conclude.eq_def] at h
      cases hunderway : d.underway with
      | some reading =>
          simp only [hunderway] at h
          cases h
      | none =>
          simp only [hunderway] at h
          cases h
          exact hsound.wellFormed

namespace Artifact

section LookUps

variable {entrySize : Nat} {a : Artifact}

/-- A record is found under exactly its labels. -/
theorem recordOf?_eq_some_iff (h : a.WellFormed entrySize) {label : String} {record : Record} :
    a.recordOf? label = some record ↔
      ∃ entry ∈ a.records, entry.record = record ∧ label ∈ entry.labels := by
  rw [recordOf?, Option.map_eq_some_iff]
  constructor
  · rintro ⟨entry, hfind, rfl⟩
    exact ⟨entry, List.mem_of_find?_eq_some hfind, rfl, by simpa using List.find?_some hfind⟩
  · rintro ⟨entry, hentry, rfl, hlabel⟩
    obtain ⟨found, hfind⟩ : ∃ found, a.records.find? (·.labels.contains label) = some found := by
      rw [← Option.isSome_iff_exists, List.find?_isSome]
      exact ⟨entry, hentry, by simpa using hlabel⟩
    have hfound : label ∈ found.labels := by simpa using List.find?_some hfind
    refine ⟨found, hfind, ?_⟩
    rw [h.eq_of_mem_labels found (List.mem_of_find?_eq_some hfind) entry hentry label hfound hlabel]

/-- The labels of a record are those it is listed with. -/
theorem labelsOf?_eq_some_iff (h : a.WellFormed entrySize) {record : Record}
    {labels : List String} :
    a.labelsOf? record = some labels ↔ (⟨record, labels⟩ : LabelledRecord) ∈ a.records := by
  rw [labelsOf?, Option.map_eq_some_iff]
  constructor
  · rintro ⟨⟨r, ls⟩, hfind, rfl⟩
    obtain rfl : r = record := by simpa using List.find?_some hfind
    exact List.mem_of_find?_eq_some hfind
  · intro hentry
    obtain ⟨found, hfind⟩ : ∃ found, a.records.find? (·.record = record) = some found := by
      rw [← Option.isSome_iff_exists, List.find?_isSome]
      exact ⟨_, hentry, by simp⟩
    have hfound : found.record = record := by simpa using List.find?_some hfind
    refine ⟨found, hfind, ?_⟩
    rw [List.inj_on_of_nodup_map h.records_nodup (List.mem_of_find?_eq_some hfind) hentry hfound]

/-- The labels of all records are pairwise different. -/
theorem nodup_flatMap_labels (h : a.WellFormed entrySize) :
    (a.records.flatMap (·.labels)).Nodup := by
  refine List.nodup_flatMap.mpr ⟨fun entry hentry => ?_, ?_⟩
  · exact Ascending.nodup_of_pairwise (h.labels_ascending entry hentry)
  · -- different entries share no label
    have hdistinct : a.records.Pairwise (· ≠ ·) := List.Nodup.of_map _ h.records_nodup
    refine hdistinct.imp_of_mem fun {x y} hx hy hne label hlx hly => ?_
    exact hne (h.eq_of_mem_labels x hx y hy label hlx hly)

end LookUps

end Artifact

/-- Whatever text an artifact is read from, its records are pairwise different, each
with as many words as its count announces and with labels of its own, all of them
identifiers. So a label finds the record that lists it, and the labels are counted
once each. -/
theorem records_and_labels_of_parse {entrySize : Nat} {text : String} {a : Artifact}
    (h : (Artifact.parse entrySize text).value = .ok a) :
    (a.records.map (·.record)).Nodup ∧
    (∀ entry ∈ a.records, 0 ≤ entry.record.header ∧
      entry.record.words.length = 1 + entry.record.header.toNatClampNeg * entrySize) ∧
    (∀ entry ∈ a.records, entry.labels ≠ []) ∧
    (∀ x ∈ a.records, ∀ y ∈ a.records, x.record ≠ y.record → List.Disjoint x.labels y.labels) ∧
    (∀ entry ∈ a.records, ∀ label ∈ entry.labels, ∃ c rest, label.toList = c :: rest ∧
      (c.isAlpha = true ∨ c ∈ ['_', '.', '@', '?']) ∧
      ∀ d ∈ rest, d.isAlpha = true ∨ d ∈ ['_', '.', '@', '?'] ∨ d.isDigit = true) ∧
    (∀ label record, a.recordOf? label = some record ↔
      ∃ labels, a.labelsOf? record = some labels ∧ label ∈ labels) ∧
    ∃ bound : List String, bound.Nodup ∧
      (∀ label, label ∈ bound ↔ (a.recordOf? label).isSome = true) ∧
      a.labelCount = bound.length := by
  have hwell := wellFormed_of_parse h
  refine ⟨hwell.records_nodup, fun entry hentry => ?_, hwell.labels_ne_nil, ?_, ?_, ?_, ?_⟩
  · exact ⟨(hwell.fits entry hentry).header_nonneg, (hwell.fits entry hentry).length_eq⟩
  · intro x hx y hy hne label hlx hly
    exact hne (congrArg _ (hwell.eq_of_mem_labels x hx y hy label hlx hly))
  · intro entry hentry label hlabel
    exact isIdentifier_iff.mp (hwell.label_names entry hentry label hlabel)
  · intro label record
    simp only [Artifact.recordOf?_eq_some_iff hwell, Artifact.labelsOf?_eq_some_iff hwell]
    constructor
    · rintro ⟨entry, hentry, rfl, hlabel⟩
      exact ⟨entry.labels, hentry, hlabel⟩
    · rintro ⟨labels, hentry, hlabel⟩
      exact ⟨_, hentry, rfl, hlabel⟩
  · refine ⟨_, Artifact.nodup_flatMap_labels hwell, fun label => ?_, rfl⟩
    rw [List.mem_flatMap, Option.isSome_iff_exists]
    constructor
    · rintro ⟨entry, hentry, hlabel⟩
      exact ⟨_, (Artifact.recordOf?_eq_some_iff hwell).mpr ⟨entry, hentry, rfl, hlabel⟩⟩
    · rintro ⟨record, hrecord⟩
      obtain ⟨entry, hentry, -, hlabel⟩ := (Artifact.recordOf?_eq_some_iff hwell).mp hrecord
      exact ⟨entry, hentry, hlabel⟩

/-- Two blocks of one record, the second with its count spread over two lines of
bytes, make one record with two labels. -/
theorem records_and_labels_of_equal_blocks :
    ∃ a : Artifact,
      (Artifact.parse 1
        "\tdc.w A-T,B-T\nA:\n\tdc.w 1,5\nB:\n\tdc.b 0\n\tdc.b 1,0,5\nC:\n\tdc.w 0\n").value =
          .ok a ∧
      (a.records.map (·.record)).Nodup ∧
      (∀ label record, a.recordOf? label = some record ↔
        ∃ labels, a.labelsOf? record = some labels ∧ label ∈ labels) := by
  have h : (Artifact.parse 1
      "\tdc.w A-T,B-T\nA:\n\tdc.w 1,5\nB:\n\tdc.b 0\n\tdc.b 1,0,5\nC:\n\tdc.w 0\n").value = .ok
      ⟨⟨[⟨"A", "T"⟩, ⟨"B", "T"⟩]⟩, [⟨⟨1, [5]⟩, ["A", "B"]⟩, ⟨⟨0, []⟩, ["C"]⟩]⟩ := by
    decide +kernel
  obtain ⟨hnodup, -, -, -, -, hlookup, -⟩ := records_and_labels_of_parse h
  exact ⟨_, h, hnodup, hlookup⟩

end SpriteTables
