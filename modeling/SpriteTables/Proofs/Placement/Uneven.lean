import SpriteTables.Artifact.Parser
import SpriteTables.Proofs.OffsetTable.Regrouped
import SpriteTables.Proofs.Placement.Rank

/-!
# Tables of different lengths

Tables can be read in step when their number divides that of all entries. Tables of one length
meet this, whatever entries they mix or repeat, so a refusal is right to say that the tables
differ in length (`linearize_unevenInterleave_iff_lengths_differ`). The converse fails: tables of
one and of three entries have two entries each on average, and are not refused.
-/

set_option autoImplicit false

namespace SpriteTables

/-! ## Lengths of tables -/

namespace OffsetTable

variable {t : OffsetTable} {n : Nat}

theorem length_labelsOf (t : OffsetTable) (table : String) :
    (t.labelsOf table).length = (t.entriesOf table).length :=
  List.length_map _

/-- Tables of one length, collected one after the other. -/
theorem length_flatMap_entriesOf {names : List String}
    (h : ∀ table ∈ names, (t.entriesOf table).length = n) :
    (names.flatMap t.entriesOf).length = names.length * n := by
  induction names with
  | nil => simp
  | cons name rest ih =>
      obtain ⟨hname, hrest⟩ := List.forall_mem_cons.mp h
      rw [List.flatMap_cons, List.length_append, hname, ih hrest, List.length_cons,
        Nat.succ_mul, Nat.add_comm]

/-- Tables of one length have that many entries each, in whatever order these stand. -/
theorem size_eq_of_forall_length_labelsOf
    (h : ∀ table ∈ t.tableNames, (t.labelsOf table).length = n) : t.size = t.tableCount * n := by
  have hlength : ∀ table ∈ t.tableNames, (t.entriesOf table).length = n := by
    intro table htable
    rw [← length_labelsOf]
    exact h table htable
  calc t.size = t.regroup.size := (size_regroup t).symm
    _ = t.tableCount * n := length_flatMap_entriesOf hlength

/-- If the number of tables does not divide that of the entries, two tables differ. -/
theorem exists_length_labelsOf_ne (h : ¬ t.tableCount ∣ t.size) :
    ∃ table ∈ t.tableNames, ∃ other ∈ t.tableNames,
      (t.labelsOf table).length ≠ (t.labelsOf other).length := by
  by_contra hnone
  push Not at hnone
  apply h
  cases hnames : t.tableNames with
  | nil =>
      have hsize : t.size = t.tableCount * 0 :=
        size_eq_of_forall_length_labelsOf fun table htable => by
          rw [hnames] at htable
          exact absurd htable List.not_mem_nil
      exact ⟨0, hsize⟩
  | cons first rest =>
      have hfirst : first ∈ t.tableNames := hnames ▸ List.mem_cons_self
      exact ⟨_, size_eq_of_forall_length_labelsOf fun table htable =>
        hnone table htable first hfirst⟩

/-- The entries do not divide evenly among the tables. -/
theorem isUneven_iff : t.isUneven = true ↔ 0 < t.tableCount ∧ ¬ t.tableCount ∣ t.size := by
  rw [isUneven, Bool.and_eq_true, decide_eq_true_eq, decide_eq_true_eq, Nat.dvd_iff_mod_eq_zero]

end OffsetTable

/-! ## The refusal -/

section Refusal

variable {order : IndexOrder} {source : Artifact} {target : OffsetTable} {labels tables : Nat}

/-- Looking up labels never refuses the tables. -/
theorem Placement.indicesOf_ne_unevenInterleave (names : List String) :
    indicesOf target names ≠ .error (.unevenInterleave labels tables) := by
  induction names with
  | nil =>
      intro h
      cases h
  | cons name rest ih =>
      intro h
      rw [indicesOf] at h
      split at h
      · cases h
      · split at h
        · next hrest =>
            cases h
            exact ih hrest
        · cases h

theorem Placement.ofRecords_ne_unevenInterleave (records : List LabelledRecord) :
    ofRecords order target records ≠ .error (.unevenInterleave labels tables) := by
  induction records with
  | nil =>
      intro h
      cases h
  | cons entry rest ih =>
      intro h
      rw [ofRecords] at h
      split at h
      · next hindices =>
          cases h
          exact indicesOf_ne_unevenInterleave _ hindices
      · split at h
        · next hrest =>
            cases h
            exact ih hrest
        · cases h

/-- Placing refuses the tables before it looks at a label, and reports how many entries and
tables there are. -/
theorem linearize_eq_unevenInterleave_iff :
    linearize order source target = .error (.unevenInterleave labels tables) ↔
      (order = .interleaved ∧ target.isUneven = true) ∧
        labels = target.size ∧ tables = target.tableCount := by
  by_cases huneven : order = .interleaved ∧ target.isUneven = true
  · rw [linearize, if_pos huneven]
    constructor
    · intro h
      cases h
      exact ⟨huneven, rfl, rfl⟩
    · rintro ⟨-, rfl, rfl⟩
      rfl
  · rw [linearize, if_neg huneven]
    constructor
    · intro h
      split at h
      · next hrecords =>
          cases h
          exact absurd hrecords (Placement.ofRecords_ne_unevenInterleave _)
      · cases h
    · rintro ⟨hrefused, -⟩
      exact absurd hrefused huneven

end Refusal

/-- Reading in step is refused when two tables differ in length and the number of tables does
not divide that of all entries. -/
theorem linearize_unevenInterleave_iff_lengths_differ (source : Artifact) (target : OffsetTable)
    (labels tables : Nat) :
    linearize .interleaved source target = .error (.unevenInterleave labels tables) ↔
      (∃ table ∈ target.tableNames, ∃ other ∈ target.tableNames,
        (target.labelsOf table).length ≠ (target.labelsOf other).length) ∧
      ¬ target.tableCount ∣ target.size ∧
      labels = target.size ∧ tables = target.tableCount := by
  rw [linearize_eq_unevenInterleave_iff, OffsetTable.isUneven_iff]
  constructor
  · rintro ⟨⟨-, -, hdvd⟩, hreport⟩
    exact ⟨OffsetTable.exists_length_labelsOf_ne hdvd, hdvd, hreport⟩
  · rintro ⟨⟨table, htable, -⟩, hdvd, hreport⟩
    exact ⟨⟨rfl, List.length_pos_of_mem htable, hdvd⟩, hreport⟩

/-- Tables of one and of three entries are read in step, though they differ in length. -/
theorem not_linearize_refuses_lengths_differ :
    ¬ ∀ (entrySize : Nat) (sourceText targetText : String) (source target : Artifact),
      (Artifact.parse entrySize sourceText).value = .ok source →
      (Artifact.parse entrySize targetText).value = .ok target →
      ((∃ labels tables, linearize .interleaved source target.offsets =
          .error (.unevenInterleave labels tables)) ↔
        ∃ table ∈ target.offsets.tableNames, ∃ other ∈ target.offsets.tableNames,
          (target.offsets.labelsOf table).length ≠ (target.offsets.labelsOf other).length) := by
  intro hrefuses
  have hsource : (Artifact.parse 1 "\tdc.w A-T\nA:\n\tdc.w 0\n").value =
      .ok ⟨⟨[⟨"A", "T"⟩]⟩, [⟨⟨0, []⟩, ["A"]⟩]⟩ := by
    decide +kernel
  have htarget : (Artifact.parse 1 "\tdc.w A-T,B-U,C-U,D-U\n").value =
      .ok ⟨⟨[⟨"A", "T"⟩, ⟨"B", "U"⟩, ⟨"C", "U"⟩, ⟨"D", "U"⟩]⟩, []⟩ := by
    decide +kernel
  obtain ⟨labels, tables, hrefused⟩ := (hrefuses _ _ _ _ _ hsource htarget).mpr
    ⟨"T", by decide, "U", by decide, by decide⟩
  obtain ⟨⟨-, huneven⟩, -⟩ := linearize_eq_unevenInterleave_iff.mp hrefused
  revert huneven
  decide

end SpriteTables
