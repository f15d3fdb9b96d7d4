import Mathlib.Data.Set.Function
import SpriteTables.Proofs.FirstOccurrences
import SpriteTables.Proofs.Guarded.Placement
import SpriteTables.Proofs.Placement.Rank

/-!
# Tables of one length read in step

Let a target have tables of one length, one after the other, and a source a record for each of
their entries (`Grid`, `Grid.FilledBy`). Reading in step takes the rank of a position from its
quotient and remainder by the number of tables, not by their length. It permutes the positions
(`interleaveIndex_permutes`), and to exchange tables and rows undoes it. So the records come out
row by row, first the first rows of all tables, for one table, for tables of one entry and for as
many tables as rows, and for no other target (`linearize_interleaved_grid`).
-/

set_option autoImplicit false

namespace SpriteTables

/-! ## Rows and tables -/

section Rows

variable {α : Type} {i m n : Nat}

/-- Rows of equal length, one after the other, are one row: quotient and remainder of a
position tell its row and its place there. -/
theorem flatMap_range_eq_map_range (f : Nat → Nat → α) (m n : Nat) :
    ((List.range m).flatMap fun t => (List.range n).map (f t)) =
      (List.range (m * n)).map fun k => f (k / n) (k % n) := by
  induction m with
  | zero => simp
  | succ m ih =>
      have hlast : (List.range n).map (f m) =
          ((List.range n).map (m * n + ·)).map fun k => f (k / n) (k % n) := by
        rw [List.map_map]
        apply List.map_congr_left
        intro r hr
        have hr : r < n := List.mem_range.mp hr
        have hn : 0 < n := Nat.lt_of_le_of_lt (Nat.zero_le r) hr
        show f m r = f ((m * n + r) / n) ((m * n + r) % n)
        rw [Nat.mul_comm, Nat.mul_add_div hn, Nat.div_eq_of_lt hr, Nat.mul_add_mod,
          Nat.mod_eq_of_lt hr, Nat.add_zero]
      rw [List.range_succ, List.flatMap_append, List.flatMap_singleton, ih, Nat.succ_mul,
        List.range_add, List.map_append, hlast]

/-- A position among tables of one length belongs to one of these, and to one of its rows. -/
theorem table_lt_and_row_lt (hi : i < m * n) : i / n < m ∧ i % n < n := by
  rw [Nat.mul_comm] at hi
  exact div_lt_and_mod_lt hi

/-- To exchange tables and rows undoes reading in step. -/
theorem interleaveIndex_interleaveIndex (hi : i < m * n) :
    interleaveIndex (interleaveIndex i m n) n m = i := by
  obtain ⟨hrow, htable⟩ := interleaveIndex_div_mod hi
  rw [interleaveIndex, hrow, htable, Nat.add_comm, Nat.mul_comm, Nat.div_add_mod]

/-- Reading in step stays among the positions also when tables and rows are exchanged. -/
theorem interleaveIndex_exchanged_lt (hi : i < m * n) : interleaveIndex i n m < m * n := by
  rw [Nat.mul_comm] at hi ⊢
  exact interleaveIndex_lt hi

/-- Reading in step undoes reading with tables and rows exchanged. -/
theorem interleaveIndex_exchanged (hi : i < m * n) :
    interleaveIndex (interleaveIndex i n m) m n = i := by
  rw [Nat.mul_comm] at hi
  exact interleaveIndex_interleaveIndex hi

/-- Reading in step lists every position once. -/
theorem map_interleaveIndex_perm (m n : Nat) :
    ((List.range (m * n)).map fun i => interleaveIndex i m n).Perm (List.range (m * n)) := by
  refine (List.perm_ext_iff_of_nodup ?_ List.nodup_range).mpr fun k => ?_
  · apply List.nodup_range.map_on
    intro i hi j hj h
    exact interleaveIndex_inj (List.mem_range.mp hi) (List.mem_range.mp hj) h
  · rw [List.mem_map]
    constructor
    · rintro ⟨i, hi, rfl⟩
      exact List.mem_range.mpr (interleaveIndex_lt (List.mem_range.mp hi))
    · intro hk
      have hk : k < m * n := List.mem_range.mp hk
      refine ⟨interleaveIndex k n m, ?_, interleaveIndex_exchanged hk⟩
      exact List.mem_range.mpr (interleaveIndex_exchanged_lt hk)

/-- Where positions are addresses, reading in step neither overflows nor divides by zero. -/
theorem guarded_interleaveIndex_eq (hi : i < m * n) (hbound : m * n ≤ sizeBound) :
    Guarded.interleaveIndex i m n = .ok (interleaveIndex i m n) := by
  have hm : 0 < m := by
    apply Nat.pos_of_ne_zero
    rintro rfl
    simp at hi
  apply Guarded.interleaveIndex_eq hm
  exact Nat.lt_of_lt_of_le (interleaveIndex_lt hi) hbound

/-- Reading in step permutes the positions, and to exchange tables and rows inverts it. While
there are no more positions than addresses, all operations have their results. -/
theorem interleaveIndex_permutes (m n : Nat) :
    Set.BijOn (fun i => interleaveIndex i m n) {i | i < m * n} {i | i < m * n} ∧
    (∀ i < m * n, interleaveIndex (interleaveIndex i m n) n m = i) ∧
    (m * n ≤ sizeBound → ∀ i < m * n,
      Guarded.interleaveIndex i m n = .ok (interleaveIndex i m n)) := by
  refine ⟨Set.BijOn.mk ?_ ?_ ?_, fun i => interleaveIndex_interleaveIndex, ?_⟩
  · intro i hi
    exact interleaveIndex_lt hi
  · intro i hi j hj h
    exact interleaveIndex_inj hi hj h
  · -- a rank is that of the position which the exchange gives
    intro rank hrank
    exact ⟨interleaveIndex rank n m, interleaveIndex_exchanged_lt hrank,
      interleaveIndex_exchanged hrank⟩
  · intro hbound i hi
    exact guarded_interleaveIndex_eq hi hbound

/-- Two tables of three rows. -/
example : (List.range 6).map (interleaveIndex · 2 3) = [0, 3, 1, 4, 2, 5] := by
  decide

/-- To exchange tables and rows changes no rank just for one table, for tables of one entry
and for as many tables as rows. -/
theorem interleaveIndex_comm_iff (hm : 0 < m) (hn : 0 < n) :
    (∀ i < m * n, interleaveIndex i n m = interleaveIndex i m n) ↔ m = 1 ∨ n = 1 ∨ m = n := by
  constructor
  · intro h
    by_cases hone : m = 1 ∨ n = 1
    · exact hone.imp_right Or.inl
    · -- the second position tells: it begins the second table or the second row
      have hm : 1 < m := by omega
      have hn : 1 < n := by omega
      have hlt : 1 < m * n := Nat.lt_of_lt_of_le hm (Nat.le_mul_of_pos_right m (by omega))
      have hsecond := h 1 hlt
      rw [interleaveIndex, interleaveIndex, Nat.div_eq_of_lt hm, Nat.div_eq_of_lt hn,
        Nat.mod_eq_of_lt hm, Nat.mod_eq_of_lt hn] at hsecond
      right
      right
      simpa using hsecond
  · rintro (rfl | rfl | rfl) i hi
    · have hi : i < n := by simpa using hi
      simp [interleaveIndex, Nat.div_eq_of_lt hi, Nat.mod_eq_of_lt hi, Nat.mod_one]
    · have hi : i < m := by simpa using hi
      simp [interleaveIndex, Nat.div_eq_of_lt hi, Nat.mod_eq_of_lt hi, Nat.mod_one]
    · rfl

end Rows

/-! ## Grids -/

/-- Some tables of one length, with a label and a record for each row of each of them. Different
tables have different names, and different entries different labels and records. -/
structure Grid (m n : Nat) where
  table : Nat → String
  label : Nat → Nat → String
  record : Nat → Nat → Record
  table_inj : ∀ t < m, ∀ t' < m, table t = table t' → t = t'
  label_inj : ∀ t < m, ∀ r < n, ∀ t' < m, ∀ r' < n, label t r = label t' r' → t = t' ∧ r = r'
  record_inj : ∀ t < m, ∀ r < n, ∀ t' < m, ∀ r' < n,
    record t r = record t' r' → t = t' ∧ r = r'

namespace Grid

variable {m n i j : Nat} (g : Grid m n)

/-- The offset table that declares the tables one after the other. -/
def target : OffsetTable where
  entries := (List.range m).flatMap fun t => (List.range n).map fun r => ⟨g.label t r, g.table t⟩

/-- The record in a row of a table, under its label. -/
def entry (t r : Nat) : LabelledRecord :=
  ⟨g.record t r, [g.label t r]⟩

/-- The tables with all records, in the same order. -/
def artifact : Artifact where
  offsets := g.target
  records := (List.range m).flatMap fun t => (List.range n).map (g.entry t)

/-- A source binds each label to its record, and no other labels. -/
def FilledBy (source : Artifact) : Prop :=
  source.records.Perm g.artifact.records

/-- The records row by row, in each row those of the tables in their order. -/
def recordMajor : List Record :=
  (List.range n).flatMap fun r => (List.range m).map fun t => g.record t r

/-- The record at a position of the offset table. -/
def recordAt (k : Nat) : Record :=
  g.record (k / n) (k % n)

/-! ### The target -/

theorem entries_target : g.target.entries =
    (List.range (m * n)).map fun k => ⟨g.label (k / n) (k % n), g.table (k / n)⟩ :=
  flatMap_range_eq_map_range _ m n

theorem size_target : g.target.size = m * n := by
  rw [OffsetTable.size, entries_target, List.length_map, List.length_range]

theorem tableCount_target (hn : 0 < n) : g.target.tableCount = m := by
  have hnames : (g.target.entries.map (·.table)) =
      ((List.range m).map g.table).flatMap (List.replicate n) := by
    rw [target, List.map_flatMap, List.flatMap_map]
    apply congrArg (List.range m).flatMap
    funext t
    rw [List.map_map]
    simp [Function.comp_def]
  have hnodup : ((List.range m).map g.table).Nodup := by
    apply List.nodup_range.map_on
    intro t ht t' ht' h
    exact g.table_inj t (List.mem_range.mp ht) t' (List.mem_range.mp ht') h
  rw [OffsetTable.tableCount, OffsetTable.tableNames, hnames, eraseDups_flatMap hnodup,
    List.length_map, List.length_range]
  · intro name _
    simpa using Nat.ne_of_gt hn
  · intro name _ b hb
    exact List.eq_of_mem_replicate hb

theorem rank_target (hm : 0 < m) (hn : 0 < n) (k : Nat) :
    IndexOrder.interleaved.rank g.target k = interleaveIndex k m n := by
  rw [IndexOrder.rank, tableCount_target g hn, size_target, Nat.mul_div_cancel_left n hm]

theorem suits_target (hn : 0 < n) : IndexOrder.interleaved.Suits g.target := by
  rintro ⟨-, huneven⟩
  rw [OffsetTable.isUneven, size_target, tableCount_target g hn, Nat.mul_mod_right] at huneven
  simp at huneven

/-- The label at a position stands at no other one. -/
theorem indexOf?_target (hi : i < m * n) :
    g.target.indexOf? (g.label (i / n) (i % n)) = some i := by
  rw [OffsetTable.indexOf?, List.findIdx?_eq_some_iff_getElem]
  simp only [entries_target, List.length_map, List.length_range, List.getElem_map,
    List.getElem_range, decide_eq_true_eq]
  refine ⟨hi, trivial, ?_⟩
  intro j hj hlabel
  obtain ⟨htable, hrow⟩ := table_lt_and_row_lt hi
  obtain ⟨htable', hrow'⟩ := table_lt_and_row_lt (Nat.lt_trans hj hi)
  obtain ⟨hdiv, hmod⟩ := g.label_inj _ htable' _ hrow' _ htable _ hrow hlabel
  have hsame : j = i := by rw [← Nat.div_add_mod j n, hdiv, hmod, Nat.div_add_mod]
  exact Nat.ne_of_lt hj hsame

theorem recordAt_inj (hi : i < m * n) (hj : j < m * n) (h : g.recordAt i = g.recordAt j) :
    i = j := by
  obtain ⟨htable, hrow⟩ := table_lt_and_row_lt hi
  obtain ⟨htable', hrow'⟩ := table_lt_and_row_lt hj
  obtain ⟨hdiv, hmod⟩ := g.record_inj _ htable _ hrow _ htable' _ hrow' h
  rw [← Nat.div_add_mod i n, hdiv, hmod, Nat.div_add_mod]

/-! ### The placements -/

/-- The labelled record at a position. -/
def entryAt (k : Nat) : LabelledRecord :=
  g.entry (k / n) (k % n)

/-- The placement of the record at a position. -/
theorem ofEntry_entryAt (hm : 0 < m) (hn : 0 < n) (hi : i < m * n) :
    Placement.ofEntry .interleaved g.target (g.entryAt i) =
      ⟨g.recordAt i, [i], interleaveIndex i m n⟩ := by
  have hindices : [g.label (i / n) (i % n)].filterMap g.target.indexOf? = [i] := by
    rw [List.filterMap_cons_some (indexOf?_target g hi), List.filterMap_nil]
  have hascending : Ascending.ofList [i] = [i] := rfl
  rw [Placement.ofEntry]
  simp only [entryAt, entry, hindices, hascending, List.map_singleton, rank_target g hm hn]
  rfl

section Filled

variable {g} {source : Artifact} {x : LabelledRecord}

/-- The records of such a source are those at the positions, in some order. -/
theorem FilledBy.perm (h : g.FilledBy source) :
    source.records.Perm ((List.range (m * n)).map g.entryAt) := by
  rw [FilledBy, artifact, flatMap_range_eq_map_range] at h
  exact h

/-- Each record of such a source stands at a position. -/
theorem FilledBy.exists_entryAt (h : g.FilledBy source) (hx : x ∈ source.records) :
    ∃ i < m * n, x = g.entryAt i := by
  obtain ⟨i, hi, rfl⟩ := List.mem_map.mp (h.perm.mem_iff.mp hx)
  exact ⟨i, List.mem_range.mp hi, rfl⟩

/-- The records are emitted at their ranks. -/
theorem FilledBy.emitted_eq (h : g.FilledBy source) (hm : 0 < m) (hn : 0 < n) :
    emitted .interleaved source g.target =
      (List.range (m * n)).map fun rank => g.entryAt (interleaveIndex rank n m) := by
  have hperm : (emitted .interleaved source g.target).Perm
      ((List.range (m * n)).map fun rank => g.entryAt (interleaveIndex rank n m)) := by
    have hlisted := (map_interleaveIndex_perm n m).map g.entryAt
    rw [List.map_map, Nat.mul_comm n m] at hlisted
    exact (emitted_perm _ _ _).trans (h.perm.trans hlisted.symm)
  have hkey : ∀ rank ∈ List.range (m * n),
      (Placement.ofEntry .interleaved g.target
        (g.entryAt (interleaveIndex rank n m))).sortKey = rank := by
    intro rank hrank
    have hrank : rank < m * n := List.mem_range.mp hrank
    rw [ofEntry_entryAt g hm hn (interleaveIndex_exchanged_lt hrank)]
    exact interleaveIndex_exchanged hrank
  -- both lists ascend by key, and a key belongs to one position only
  refine hperm.eq_of_pairwise ?_ (pairwise_emitted _ _ _) ?_
  · intro x y hx hy hxy hyx
    obtain ⟨i, hi, rfl⟩ := h.exists_entryAt (mem_emitted.mp hx)
    obtain ⟨rank, hrank, rfl⟩ := List.mem_map.mp hy
    have hsame := Nat.le_antisymm hxy hyx
    rw [hkey rank hrank, ofEntry_entryAt g hm hn hi] at hsame
    rw [← hsame, interleaveIndex_interleaveIndex hi]
  · rw [List.pairwise_map]
    apply List.pairwise_lt_range.imp_of_mem
    intro a b ha hb hab
    rw [hkey a ha, hkey b hb]
    exact Nat.le_of_lt hab

/-- Read in step, the records are placed in the order of their ranks, which leave no gaps. -/
theorem FilledBy.linearize_eq (h : g.FilledBy source) (hm : 0 < m) (hn : 0 < n) :
    linearize .interleaved source g.target =
      .ok ((List.range (m * n)).map fun rank =>
        ⟨g.recordAt (interleaveIndex rank n m), [interleaveIndex rank n m], rank⟩) := by
  have hlabels : ∀ x ∈ source.records, x.labels ≠ [] := by
    intro x hx
    obtain ⟨i, -, rfl⟩ := h.exists_entryAt hx
    exact List.cons_ne_nil _ _
  rw [linearize_eq_ok_iff hlabels]
  refine ⟨suits_target g hn, ?_, ?_⟩
  · intro x hx label hlabel
    obtain ⟨i, hi, rfl⟩ := h.exists_entryAt hx
    obtain rfl := List.mem_singleton.mp hlabel
    exact exists_indexOf?_iff.mp ⟨i, indexOf?_target g hi⟩
  · rw [h.emitted_eq hm hn, List.map_map]
    apply List.map_congr_left
    intro rank hrank
    have hrank : rank < m * n := List.mem_range.mp hrank
    show _ = Placement.ofEntry .interleaved g.target (g.entryAt _)
    rw [ofEntry_entryAt g hm hn (interleaveIndex_exchanged_lt hrank),
      interleaveIndex_exchanged hrank]

end Filled

/-- The records row by row are those at the positions that reading in step lists. -/
theorem recordMajor_eq :
    g.recordMajor = (List.range (m * n)).map fun rank => g.recordAt (interleaveIndex rank m n) := by
  rw [recordMajor, flatMap_range_eq_map_range (fun r t => g.record t r), Nat.mul_comm n m]
  apply List.map_congr_left
  intro rank hrank
  obtain ⟨hrow, htable⟩ := interleaveIndex_div_mod (List.mem_range.mp hrank)
  rw [recordAt, hrow, htable]

end Grid

/-- Tables of one length, read in step, are placed with tables and rows exchanged, at ranks
without gaps. The records come out row by row just for one table, for tables of one entry
and for as many tables as rows. -/
theorem linearize_interleaved_grid {m n : Nat} (hm : 0 < m) (hn : 0 < n) (g : Grid m n)
    {source : Artifact} (h : g.FilledBy source) :
    ∃ placements, linearize .interleaved source g.target = .ok placements ∧
      placements = ((List.range (m * n)).map fun rank =>
        ⟨g.recordAt (interleaveIndex rank n m), [interleaveIndex rank n m], rank⟩) ∧
      (placements.map (·.record) = g.recordMajor ↔ m = 1 ∨ n = 1 ∨ m = n) := by
  refine ⟨_, h.linearize_eq hm hn, rfl, ?_⟩
  rw [← interleaveIndex_comm_iff hm hn, List.map_map, g.recordMajor_eq, List.map_inj_left]
  constructor
  · intro hsame i hi
    apply g.recordAt_inj (interleaveIndex_exchanged_lt hi) (interleaveIndex_lt hi)
    exact hsame i (List.mem_range.mpr hi)
  · intro hcomm i hi
    show g.recordAt _ = g.recordAt _
    rw [hcomm i (List.mem_range.mp hi)]

set_option synthInstance.maxSize 1000 in
/-- Two tables of three entries. -/
def twoTablesOfThree : Grid 2 3 where
  table t := if t = 0 then "Up" else "Down"
  label t r := s!"{t}_{r}"
  record t r := ⟨1, [Int16.ofNat (3 * t + r)]⟩
  table_inj := by decide
  label_inj := by decide
  record_inj := by decide

/-- Of two tables of three entries the third record is the second one to come out. -/
theorem linearize_interleaved_two_tables :
    (0 < 2 ∧ 0 < 3 ∧ twoTablesOfThree.FilledBy twoTablesOfThree.artifact) ∧
      ∃ placements, linearize .interleaved twoTablesOfThree.artifact twoTablesOfThree.target =
          .ok placements ∧
        placements.map (·.indices) = [[0], [2], [4], [1], [3], [5]] := by
  have hfilled : twoTablesOfThree.FilledBy twoTablesOfThree.artifact := List.Perm.refl _
  refine ⟨⟨by decide, by decide, hfilled⟩, ?_⟩
  obtain ⟨placements, hplaced, hlisted, -⟩ :=
    linearize_interleaved_grid (by decide) (by decide) twoTablesOfThree hfilled
  refine ⟨placements, hplaced, ?_⟩
  rw [hlisted]
  rfl

/-- Reading in step does not always list the records row by row, nor rank a position by its
row first. -/
theorem not_linearize_recordMajor :
    (¬ ∀ (m n : Nat) (g : Grid m n) (source : Artifact), 0 < m → 0 < n → g.FilledBy source →
      ∃ placements, linearize .interleaved source g.target = .ok placements ∧
        placements.map (·.record) = g.recordMajor) ∧
    ¬ ∀ m n t r : Nat, t < m → r < n → interleaveIndex (t * n + r) m n = r * m + t := by
  constructor
  · intro hrowByRow
    have hfilled : twoTablesOfThree.FilledBy twoTablesOfThree.artifact := List.Perm.refl _
    obtain ⟨placements, hplaced, hlisted⟩ := hrowByRow 2 3 twoTablesOfThree
      twoTablesOfThree.artifact (by decide) (by decide) hfilled
    rw [hfilled.linearize_eq (by decide) (by decide)] at hplaced
    cases hplaced
    revert hlisted
    decide
  · intro hrowFirst
    have hrank := hrowFirst 2 3 0 1 (by decide) (by decide)
    revert hrank
    decide

end SpriteTables
