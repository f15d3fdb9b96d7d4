import SpriteTables.Proofs.Guarded.Operation
import SpriteTables.Proofs.Placement.Rank

/-!
# Placements, with checked positions

Placing records divides positions by the number of tables, which is zero for a target without
entries, and marks the positions reached in a list of flags, one for each entry. This module
places records with checked divisions, sums and products, with a check that every rank is a
position, and with checked look-ups of flags. On a target whose size is an address none of them
faults (`linearize_eq`, `uncoveredEntries_eq`): only positions of labels are ranked and marked,
and a target that has one has a table.
-/

set_option autoImplicit false

namespace SpriteTables.Guarded

/-! ## Ranks -/

/-- The rank of a position when tables are read in step. -/
def interleaveIndex (position tableCount recordsPerTable : Nat) : Checked Nat := do
  let row ← div position tableCount
  let table ← mod position tableCount
  let behind ← mul table recordsPerTable
  add row behind

/-- The rank of a position in an offset table, which must be a position, too. -/
def rank (order : IndexOrder) (target : OffsetTable) (position : Nat) : Checked Nat :=
  match order with
  | .sequential => .ok position
  | .interleaved => do
      let rank ← interleaveIndex position target.tableCount (target.size / target.tableCount)
      if rank < target.size then return rank
      else .error .outOfRange

section Ranks

variable {order : IndexOrder} {target : OffsetTable} {position : Nat}

theorem interleaveIndex_eq {m n : Nat} (hm : 0 < m)
    (hbound : SpriteTables.interleaveIndex position m n < sizeBound) :
    interleaveIndex position m n = .ok (SpriteTables.interleaveIndex position m n) := by
  have hle : position % m * n ≤ SpriteTables.interleaveIndex position m n := Nat.le_add_left _ _
  rw [interleaveIndex, div_eq hm, ok_bind, mod_eq hm, ok_bind,
    mul_eq (Nat.lt_of_le_of_lt hle hbound), ok_bind]
  exact add_eq hbound

/-- A position has a rank: where there is one there is a table. -/
theorem rank_eq (hsuits : order.Suits target) (hsize : target.size < sizeBound)
    (hposition : position < target.size) :
    rank order target position = .ok (order.rank target position) := by
  have hlt := rank_lt hsuits hposition
  cases order with
  | sequential => rfl
  | interleaved =>
      have htables := tableCount_pos (Nat.zero_lt_of_lt hposition)
      rw [rank, interleaveIndex_eq htables (Nat.lt_trans hlt hsize), ok_bind]
      exact if_pos hlt

end Ranks

/-! ## Placements -/

/-- The tables of a target must be read in step, and do not divide its entries evenly. -/
def isUneven (order : IndexOrder) (target : OffsetTable) : Checked Bool :=
  if order = .interleaved ∧ 0 < target.tableCount then do
    let rest ← mod target.size target.tableCount
    return decide (rest ≠ 0)
  else .ok false

/-- The placement of a record at some positions. -/
def atIndices? (order : IndexOrder) (target : OffsetTable) (record : Record)
    (indices : List Nat) : Checked (Option Placement) := do
  let ranks ← (Ascending.ofList indices).mapM (rank order target)
  return ranks.min?.map fun sortKey =>
    { record, indices := Ascending.ofList indices, sortKey }

/-- The placements of some records, in the records' order. -/
def ofRecords (order : IndexOrder) (target : OffsetTable) :
    List LabelledRecord → Checked (Except PlacementError (List Placement))
  | [] => .ok (.ok [])
  | entry :: rest =>
      match Placement.indicesOf target entry.labels with
      | .error e => .ok (.error e)
      | .ok indices => do
          let placement ← atIndices? order target entry.record indices
          match ← ofRecords order target rest with
          | .error e => return .error e
          | .ok placements => return .ok (placement.toList ++ placements)

/-- Places all records of an artifact on an offset table, least rank first. -/
def linearize (order : IndexOrder) (source : Artifact) (target : OffsetTable) :
    Checked (Except PlacementError (List Placement)) := do
  if ← isUneven order target then
    return .error (.unevenInterleave target.size target.tableCount)
  else
    match ← ofRecords order target source.records with
    | .error e => return .error e
    | .ok placements => return .ok (placements.mergeSort fun a b => a.sortKey ≤ b.sortKey)

section Placements

variable {order : IndexOrder} {target : OffsetTable} {source : Artifact}

/-- The size of a target is divided only when there is a table. -/
theorem isUneven_eq (order : IndexOrder) (target : OffsetTable) :
    isUneven order target =
      .ok (decide (order = .interleaved ∧ target.isUneven = true)) := by
  rw [isUneven]
  split
  · next h =>
      rw [mod_eq h.2, ok_bind]
      simp [OffsetTable.isUneven, h, pure, Except.pure]
  · next h =>
      have hnot : ¬ (order = .interleaved ∧ target.isUneven = true) := by
        rintro ⟨horder, huneven⟩
        rw [OffsetTable.isUneven, Bool.and_eq_true, decide_eq_true_eq] at huneven
        exact h ⟨horder, huneven.1⟩
      rw [decide_eq_false hnot]

theorem atIndices?_eq (hsuits : order.Suits target) (hsize : target.size < sizeBound)
    {indices : List Nat} (hindices : ∀ i ∈ indices, i < target.size) (record : Record) :
    atIndices? order target record indices =
      .ok (Placement.atIndices? order target record indices) := by
  have hranks : (Ascending.ofList indices).mapM (rank order target) =
      .ok ((Ascending.ofList indices).map (order.rank target)) := by
    apply mapM_eq
    intro i hi
    exact rank_eq hsuits hsize (hindices i (Ascending.mem_ofList.mp hi))
  rw [atIndices?, hranks, ok_bind]
  rfl

theorem ofRecords_eq (hsuits : order.Suits target) (hsize : target.size < sizeBound)
    (records : List LabelledRecord) :
    ofRecords order target records = .ok (Placement.ofRecords order target records) := by
  induction records with
  | nil => rfl
  | cons entry rest ih =>
      rw [ofRecords, Placement.ofRecords]
      cases hindices : Placement.indicesOf target entry.labels with
      | error e => rfl
      | ok indices =>
          -- only positions of labels are ranked
          have hlt : ∀ i ∈ indices, i < target.size := by
            intro i hi
            obtain ⟨-, rfl⟩ := indicesOf_eq_ok_iff.mp hindices
            obtain ⟨label, -, hlabel⟩ := List.mem_filterMap.mp hi
            exact lt_size_of_indexOf? hlabel
          simp only
          rw [atIndices?_eq hsuits hsize hlt, ok_bind, ih, ok_bind]
          cases Placement.ofRecords order target rest <;> rfl

/-- No target whose size is an address makes placing records fault. -/
theorem linearize_eq (hsize : target.size < sizeBound) (order : IndexOrder)
    (source : Artifact) :
    linearize order source target = .ok (SpriteTables.linearize order source target) := by
  rw [linearize, isUneven_eq, ok_bind, SpriteTables.linearize]
  by_cases huneven : order = .interleaved ∧ target.isUneven = true
  · rw [if_pos huneven, if_pos (decide_eq_true huneven)]
    rfl
  · rw [if_neg huneven, if_neg (by simpa using huneven), ofRecords_eq huneven hsize, ok_bind]
    cases Placement.ofRecords order target source.records <;> rfl

/-- The positions of placements are positions of the target. -/
theorem lt_size_of_linearize {entrySize : Nat} (hsource : source.WellFormed entrySize)
    {placements : List Placement}
    (h : SpriteTables.linearize order source target = .ok placements) :
    ∀ p ∈ placements, ∀ i ∈ p.indices, i < target.size := by
  obtain ⟨-, -, rfl⟩ := (linearize_eq_ok_iff hsource.labels_ne_nil).mp h
  intro p hp i hi
  obtain ⟨entry, -, rfl⟩ := List.mem_map.mp hp
  obtain ⟨label, -, hlabel⟩ := Placement.mem_indices_ofEntry.mp hi
  exact lt_size_of_indexOf? hlabel

end Placements

/-! ## Coverage -/

/-- Marks the flags at some positions. -/
def flagAll (flags : List Bool) : List Nat → Checked (List Bool)
  | [] => .ok flags
  | position :: rest => do
      let _ ← index flags position
      flagAll (flags.set position true) rest

/-- The first entry of a label is marked. -/
def isCovered (target : OffsetTable) (flags : List Bool) (label : String) : Checked Bool :=
  match target.indexOf? label with
  | none => .ok false
  | some first => index flags first

/-- The entries whose label has no marked first entry. -/
def uncoveredIn (target : OffsetTable) (flags : List Bool) :
    List OffsetEntry → Checked (List OffsetEntry)
  | [] => .ok []
  | entry :: rest => do
      let covered ← isCovered target flags entry.label
      let others ← uncoveredIn target flags rest
      return if covered then others else entry :: others

/-- The offset entries whose label no placement reaches. -/
def uncoveredEntries (target : OffsetTable) (placements : List Placement) :
    Checked (List OffsetEntry) := do
  let flags ← flagAll (List.replicate target.size false) (placements.flatMap (·.indices))
  uncoveredIn target flags target.entries

section Coverage

variable {target : OffsetTable} {placements : List Placement} {flags : List Bool}

/-- Marking positions marks just these. -/
theorem exists_flagAll_eq {positions : List Nat} (h : ∀ i ∈ positions, i < flags.length) :
    ∃ marked, flagAll flags positions = .ok marked ∧
      ∀ (i : Nat) (flag : Bool), flags[i]? = some flag →
        marked[i]? = some (flag || positions.contains i) := by
  induction positions generalizing flags with
  | nil => exact ⟨flags, rfl, by simp⟩
  | cons position rest ih =>
      obtain ⟨hposition, hrest⟩ := List.forall_mem_cons.mp h
      have hrest' : ∀ i ∈ rest, i < (flags.set position true).length := by
        simpa using hrest
      obtain ⟨marked, hmarked, hflags⟩ := ih hrest'
      refine ⟨marked, ?_, ?_⟩
      · rw [flagAll, index_eq (List.getElem?_eq_getElem hposition), ok_bind, hmarked]
      · intro i flag hflag
        have hset : (flags.set position true)[i]? = some (flag || i == position) := by
          rw [List.getElem?_set]
          by_cases hi : position = i
          · rw [if_pos hi, if_pos hposition, hi, beq_self_eq_true, Bool.or_true]
          · rw [if_neg hi, hflag, beq_eq_false_iff_ne.mpr (Ne.symm hi), Bool.or_false]
        rw [hflags i _ hset, List.contains_cons, Bool.or_assoc]

theorem isCovered_eq
    (hflags : ∀ i, i < target.size →
      flags[i]? = some ((placements.flatMap (·.indices)).contains i)) (label : String) :
    isCovered target flags label = .ok (SpriteTables.isCovered target placements label) := by
  rw [isCovered, SpriteTables.isCovered]
  cases hlabel : target.indexOf? label with
  | none => rfl
  | some first =>
      have hcontains : (placements.flatMap (·.indices)).contains first =
          placements.any (·.indices.contains first) := by
        rw [Bool.eq_iff_iff]
        simp
      simp only
      rw [index_eq (hflags first (lt_size_of_indexOf? hlabel)), hcontains]

/-- No placements on positions of the target make looking for the others fault. -/
theorem uncoveredEntries_eq (h : ∀ p ∈ placements, ∀ i ∈ p.indices, i < target.size) :
    uncoveredEntries target placements = .ok (SpriteTables.uncoveredEntries target placements) := by
  have hpositions : ∀ i ∈ placements.flatMap (·.indices),
      i < (List.replicate target.size false).length := by
    intro i hi
    obtain ⟨p, hp, hmem⟩ := List.mem_flatMap.mp hi
    rw [List.length_replicate]
    exact h p hp i hmem
  obtain ⟨flags, hflags, hmarked⟩ := exists_flagAll_eq hpositions
  have hcovered : ∀ label, isCovered target flags label =
      .ok (SpriteTables.isCovered target placements label) := by
    apply isCovered_eq
    intro i hi
    have hclear : (List.replicate target.size false)[i]? = some false :=
      List.getElem?_replicate_of_lt hi
    rw [hmarked i false hclear, Bool.false_or]
  have hentries : ∀ entries : List OffsetEntry, uncoveredIn target flags entries =
      .ok (entries.filter fun entry => !SpriteTables.isCovered target placements entry.label) := by
    intro entries
    induction entries with
    | nil => rfl
    | cons entry rest ih =>
        rw [uncoveredIn, hcovered, ok_bind, ih, ok_bind, List.filter_cons]
        cases SpriteTables.isCovered target placements entry.label <;> rfl
  rw [uncoveredEntries, hflags, ok_bind, hentries]
  rfl

end Coverage

end SpriteTables.Guarded
