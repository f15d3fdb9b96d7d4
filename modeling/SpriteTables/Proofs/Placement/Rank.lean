import SpriteTables.Proofs.Artifact.Invariant
import SpriteTables.Proofs.OffsetTable.Regrouped
import SpriteTables.Proofs.Placement.Emission

/-!
# Ranks of positions

Reading tables in step renumbers the positions of an offset table. When the tables divide the
entries evenly the renumbering stays among them and merges no two positions (`rank_lt`,
`rank_inj`), so the least rank of a record is a rank that no other record has
(`eq_of_sortKey_eq`).
-/

set_option autoImplicit false

namespace SpriteTables

/-! ## Tables of one length -/

section Interleaving

variable {i j m n : Nat}

/-- Read in step, a position is one among those of its table, as many tables on as the
remainder says. -/
theorem div_lt_and_mod_lt (hi : i < m * n) : i / m < n ∧ i % m < m := by
  have hm : 0 < m := Nat.pos_of_mul_pos_right (Nat.lt_of_le_of_lt (Nat.zero_le i) hi)
  exact ⟨Nat.div_lt_of_lt_mul hi, Nat.mod_lt i hm⟩

/-- Reading in step stays among the positions. -/
theorem interleaveIndex_lt (hi : i < m * n) : interleaveIndex i m n < m * n := by
  obtain ⟨hdiv, hmod⟩ := div_lt_and_mod_lt hi
  calc interleaveIndex i m n < n + i % m * n := Nat.add_lt_add_right hdiv _
    _ = (i % m + 1) * n := by rw [Nat.add_mul, Nat.one_mul, Nat.add_comm]
    _ ≤ m * n := Nat.mul_le_mul_right n hmod

/-- The rank of a position tells where it stands in its table and which table that is. -/
theorem interleaveIndex_div_mod (hi : i < m * n) :
    interleaveIndex i m n % n = i / m ∧ interleaveIndex i m n / n = i % m := by
  obtain ⟨hdiv, -⟩ := div_lt_and_mod_lt hi
  have hn : 0 < n := Nat.lt_of_le_of_lt (Nat.zero_le _) hdiv
  constructor
  · rw [interleaveIndex, Nat.add_mul_mod_self_right, Nat.mod_eq_of_lt hdiv]
  · rw [interleaveIndex, Nat.add_mul_div_right _ _ hn, Nat.div_eq_of_lt hdiv, Nat.zero_add]

/-- Reading in step merges no two positions. -/
theorem interleaveIndex_inj (hi : i < m * n) (hj : j < m * n)
    (h : interleaveIndex i m n = interleaveIndex j m n) : i = j := by
  obtain ⟨hrow, htable⟩ := interleaveIndex_div_mod hi
  obtain ⟨hrow', htable'⟩ := interleaveIndex_div_mod hj
  rw [h] at hrow htable
  rw [← Nat.div_add_mod i m, ← Nat.div_add_mod j m, ← hrow, ← htable, hrow', htable']

end Interleaving

/-! ## Either order of a target -/

/-- The entries of a target can be ranked in an order: the tables divide them evenly if
they are read in step. -/
def IndexOrder.Suits (order : IndexOrder) (target : OffsetTable) : Prop :=
  ¬ (order = .interleaved ∧ target.isUneven = true)

section Ranks

variable {order : IndexOrder} {target : OffsetTable} {index other : Nat} {label : String}

theorem lt_size_of_indexOf? (h : target.indexOf? label = some index) : index < target.size := by
  rw [OffsetTable.indexOf?, List.findIdx?_eq_some_iff_getElem] at h
  exact h.1

/-- A target with an entry has a table. -/
theorem tableCount_pos (h : 0 < target.size) : 0 < target.tableCount := by
  obtain ⟨e, he⟩ := List.exists_mem_of_length_pos h
  have hname : e.table ∈ target.tableNames := OffsetTable.mem_tableNames.mpr ⟨e, he, rfl⟩
  exact List.length_pos_of_mem hname

/-- Tables that are not uneven have equally many entries. -/
theorem size_eq_mul (h : target.isUneven = false) :
    target.size = target.tableCount * (target.size / target.tableCount) := by
  rcases Nat.eq_zero_or_pos target.size with hzero | hpos
  · rw [hzero, Nat.zero_div, Nat.mul_zero]
  · have hmod : target.size % target.tableCount = 0 := by
      simpa [OffsetTable.isUneven, tableCount_pos hpos] using h
    exact (Nat.mul_div_cancel' (Nat.dvd_of_mod_eq_zero hmod)).symm

theorem IndexOrder.Suits.size_eq_mul (h : order.Suits target) (horder : order = .interleaved) :
    target.size = target.tableCount * (target.size / target.tableCount) :=
  SpriteTables.size_eq_mul (Bool.eq_false_iff.mpr fun huneven => h ⟨horder, huneven⟩)

/-- The rank of a position is a position. -/
theorem rank_lt (h : order.Suits target) (hindex : index < target.size) :
    order.rank target index < target.size := by
  cases order with
  | sequential => exact hindex
  | interleaved =>
      have hsize := h.size_eq_mul rfl
      rw [hsize] at hindex
      calc interleaveIndex index target.tableCount (target.size / target.tableCount)
          < target.tableCount * (target.size / target.tableCount) := interleaveIndex_lt hindex
        _ = target.size := hsize.symm

/-- Different positions have different ranks. -/
theorem rank_inj (h : order.Suits target) (hindex : index < target.size)
    (hother : other < target.size)
    (heq : order.rank target index = order.rank target other) : index = other := by
  cases order with
  | sequential => exact heq
  | interleaved =>
      have hsize := h.size_eq_mul rfl
      rw [hsize] at hindex hother
      exact interleaveIndex_inj hindex hother heq

end Ranks

/-! ## Keys of records -/

section Keys

variable {order : IndexOrder} {target : OffsetTable} {x y : LabelledRecord}

/-- The key of a covered record is the rank of one of its labels. -/
theorem exists_rank_eq_sortKey (hne : x.labels ≠ []) (hcovers : target.Covers x) :
    ∃ label ∈ x.labels, ∃ index, target.indexOf? label = some index ∧
      (Placement.ofEntry order target x).sortKey = order.rank target index := by
  obtain ⟨label, hlabel⟩ := List.exists_mem_of_ne_nil _ hne
  obtain ⟨index, hindex⟩ := exists_indexOf?_iff.mpr (hcovers label hlabel)
  have hmem : index ∈ (Placement.ofEntry order target x).indices :=
    Placement.mem_indices_ofEntry.mpr ⟨label, hlabel, hindex⟩
  obtain ⟨key, hkey⟩ : ∃ key,
      ((Placement.ofEntry order target x).indices.map (order.rank target)).min? = some key :=
    Option.isSome_iff_exists.mp (List.isSome_min?_of_mem (List.mem_map_of_mem hmem))
  obtain ⟨least, hleast, rfl⟩ := List.mem_map.mp (List.min?_mem hkey)
  obtain ⟨label', hlabel', hindex'⟩ := Placement.mem_indices_ofEntry.mp hleast
  exact ⟨label', hlabel', least, hindex', congrArg (Option.getD · 0) hkey⟩

/-- Two covered records of a source that have the same key are the same. -/
theorem eq_of_sortKey_eq {entrySize : Nat} {source : Artifact}
    (hsource : source.WellFormed entrySize) (hsuits : order.Suits target)
    (hcovers : ∀ entry ∈ source.records, target.Covers entry) (hx : x ∈ source.records)
    (hy : y ∈ source.records)
    (h : (Placement.ofEntry order target x).sortKey =
      (Placement.ofEntry order target y).sortKey) : x = y := by
  have hkeys : ∀ entry ∈ source.records, ∃ label ∈ entry.labels, ∃ index,
      target.indexOf? label = some index ∧
        (Placement.ofEntry order target entry).sortKey = order.rank target index := by
    intro entry hentry
    exact exists_rank_eq_sortKey (hsource.labels_ne_nil entry hentry) (hcovers entry hentry)
  obtain ⟨label, hlabel, index, hindex, hkey⟩ := hkeys x hx
  obtain ⟨label', hlabel', index', hindex', hkey'⟩ := hkeys y hy
  rw [hkey, hkey'] at h
  -- equal ranks are one position, and one position carries one label
  have hsame : index = index' :=
    rank_inj hsuits (lt_size_of_indexOf? hindex) (lt_size_of_indexOf? hindex') h
  have hat : target.labelAt? index = some label := labelAt?_of_indexOf? hindex
  rw [hsame, labelAt?_of_indexOf? hindex'] at hat
  cases hat
  exact hsource.eq_of_mem_labels x hx y hy label hlabel hlabel'

end Keys

end SpriteTables
