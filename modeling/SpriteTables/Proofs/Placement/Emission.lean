import Mathlib.Data.List.Sort
import SpriteTables.Proofs.Artifact.Blocks
import SpriteTables.Proofs.Ascending

/-!
# The order in which records are emitted

Placing the records of a source on a target looks every label up in the target's offset table.
When all are found, each record is emitted under its own labels, in the order of the least rank
among their positions, records of equal rank in source order (`linearize_eq_ok_iff`). The text is
that of the tables and of one block per record (`render_emitted`).

The order is the one that insertion gives (`linearize_eq_insertionSort`), which evaluates step by
step.
-/

set_option autoImplicit false

namespace SpriteTables

/-! ## Positions of labels -/

/-- The table has an entry for every label of a record. -/
def OffsetTable.Covers (target : OffsetTable) (entry : LabelledRecord) : Prop :=
  ∀ label ∈ entry.labels, ∃ e ∈ target.entries, e.label = label

section Positions

variable {target : OffsetTable} {label : String}

/-- A label has a position when some entry has it. -/
theorem exists_indexOf?_iff :
    (∃ index, target.indexOf? label = some index) ↔ ∃ e ∈ target.entries, e.label = label := by
  rw [← Option.isSome_iff_exists, OffsetTable.indexOf?, List.findIdx?_isSome, List.any_eq_true]
  simp only [decide_eq_true_eq]

/-- The label at the position of a label is that label. -/
theorem labelAt?_of_indexOf? {index : Nat} (h : target.indexOf? label = some index) :
    target.labelAt? index = some label := by
  rw [OffsetTable.indexOf?, List.findIdx?_eq_some_iff_getElem] at h
  obtain ⟨hlt, hlabel, -⟩ := h
  rw [OffsetTable.labelAt?, List.getElem?_eq_getElem hlt, Option.map_some,
    of_decide_eq_true hlabel]

theorem indicesOf_eq_ok_iff {labels : List String} {indices : List Nat} :
    Placement.indicesOf target labels = .ok indices ↔
      (∀ label ∈ labels, ∃ e ∈ target.entries, e.label = label) ∧
        indices = labels.filterMap target.indexOf? := by
  induction labels generalizing indices with
  | nil =>
      constructor
      · intro h
        cases h
        exact ⟨fun _ h => absurd h List.not_mem_nil, rfl⟩
      · rintro ⟨-, rfl⟩
        rfl
  | cons label rest ih =>
      rw [List.forall_mem_cons]
      cases hindex : target.indexOf? label with
      | none =>
          have hfails : Placement.indicesOf target (label :: rest) =
              .error (.unknownLabel label) := by
            rw [Placement.indicesOf, hindex]
          rw [hfails]
          constructor
          · intro h
            cases h
          · rintro ⟨⟨hfound, -⟩, -⟩
            obtain ⟨index, hsome⟩ := exists_indexOf?_iff.mpr hfound
            rw [hindex] at hsome
            cases hsome
      | some index =>
          have hchain : Placement.indicesOf target (label :: rest) =
              (Placement.indicesOf target rest).bind fun indices => .ok (index :: indices) := by
            rw [Placement.indicesOf, hindex]
            cases Placement.indicesOf target rest <;> rfl
          have hfound : ∃ e ∈ target.entries, e.label = label :=
            exists_indexOf?_iff.mp ⟨index, hindex⟩
          rw [hchain, bind_eq_ok_iff, List.filterMap_cons_some hindex]
          constructor
          · rintro ⟨others, hothers, heq⟩
            obtain ⟨hall, rfl⟩ := ih.mp hothers
            cases heq
            exact ⟨⟨hfound, hall⟩, rfl⟩
          · rintro ⟨⟨-, hall⟩, rfl⟩
            exact ⟨_, ih.mpr ⟨hall, rfl⟩, rfl⟩

end Positions

/-! ## Placements of covered records -/

namespace Placement

variable {order : IndexOrder} {target : OffsetTable}

/-- The placement of a covered record. -/
def ofEntry (order : IndexOrder) (target : OffsetTable) (entry : LabelledRecord) : Placement where
  record := entry.record
  indices := Ascending.ofList (entry.labels.filterMap target.indexOf?)
  sortKey :=
    ((Ascending.ofList (entry.labels.filterMap target.indexOf?)).map
      (order.rank target)).min?.getD 0

theorem mem_indices_ofEntry {entry : LabelledRecord} {index : Nat} :
    index ∈ (ofEntry order target entry).indices ↔
      ∃ label ∈ entry.labels, target.indexOf? label = some index := by
  rw [ofEntry, Ascending.mem_ofList, List.mem_filterMap]

/-- A covered record with a label has a placement. -/
theorem atIndices?_eq_some {entry : LabelledRecord} (hne : entry.labels ≠ [])
    (hcovers : target.Covers entry) :
    atIndices? order target entry.record (entry.labels.filterMap target.indexOf?) =
      some (ofEntry order target entry) := by
  obtain ⟨label, hlabel⟩ := List.exists_mem_of_ne_nil _ hne
  obtain ⟨index, hindex⟩ := exists_indexOf?_iff.mpr (hcovers label hlabel)
  have hmem : index ∈ Ascending.ofList (entry.labels.filterMap target.indexOf?) :=
    Ascending.mem_ofList.mpr (List.mem_filterMap.mpr ⟨label, hlabel, hindex⟩)
  obtain ⟨key, hkey⟩ : ∃ key, ((Ascending.ofList (entry.labels.filterMap target.indexOf?)).map
      (order.rank target)).min? = some key :=
    Option.isSome_iff_exists.mp (List.isSome_min?_of_mem (List.mem_map_of_mem hmem))
  rw [atIndices?, ofEntry]
  simp only [hkey, Option.map_some, Option.getD_some]

/-- Records with labels are placed when all of them are covered. -/
theorem ofRecords_eq_ok_iff {records : List LabelledRecord}
    (hne : ∀ entry ∈ records, entry.labels ≠ []) {placements : List Placement} :
    ofRecords order target records = .ok placements ↔
      (∀ entry ∈ records, target.Covers entry) ∧
        placements = records.map (ofEntry order target) := by
  induction records generalizing placements with
  | nil =>
      constructor
      · intro h
        cases h
        exact ⟨fun _ h => absurd h List.not_mem_nil, rfl⟩
      · rintro ⟨-, rfl⟩
        rfl
  | cons entry rest ih =>
      obtain ⟨hentry, hrest⟩ := List.forall_mem_cons.mp hne
      have hchain : ofRecords order target (entry :: rest) =
          (indicesOf target entry.labels).bind fun indices =>
            (ofRecords order target rest).bind fun others =>
              .ok ((atIndices? order target entry.record indices).toList ++ others) := by
        rw [ofRecords]
        cases indicesOf target entry.labels with
        | error e => rfl
        | ok indices => cases ofRecords order target rest <;> rfl
      rw [hchain, bind_eq_ok_iff, List.forall_mem_cons]
      constructor
      · rintro ⟨indices, hindices, hothers⟩
        obtain ⟨hcovers, rfl⟩ := indicesOf_eq_ok_iff.mp hindices
        obtain ⟨others, hothers, heq⟩ := bind_eq_ok_iff.mp hothers
        obtain ⟨hall, rfl⟩ := (ih hrest).mp hothers
        rw [atIndices?_eq_some hentry hcovers] at heq
        cases heq
        exact ⟨⟨hcovers, hall⟩, rfl⟩
      · rintro ⟨⟨hcovers, hall⟩, rfl⟩
        refine ⟨_, indicesOf_eq_ok_iff.mpr ⟨hcovers, rfl⟩, bind_eq_ok_iff.mpr
          ⟨_, (ih hrest).mpr ⟨hall, rfl⟩, ?_⟩⟩
        rw [atIndices?_eq_some hentry hcovers]
        rfl

/-- The positions of a covered record carry exactly its labels. -/
theorem labelsAt_ofEntry {entry : LabelledRecord} (hcovers : target.Covers entry)
    (hascending : entry.labels.Pairwise (· < ·)) :
    Listing.labelsAt target (ofEntry order target entry).indices = entry.labels := by
  rw [Listing.labelsAt]
  apply Ascending.ofList_eq_of_mem_iff hascending
  intro label
  rw [List.mem_filterMap]
  constructor
  · rintro ⟨index, hindex, hlabel⟩
    obtain ⟨other, hother, hfound⟩ := mem_indices_ofEntry.mp hindex
    rw [labelAt?_of_indexOf? hfound] at hlabel
    cases hlabel
    exact hother
  · intro hlabel
    obtain ⟨index, hindex⟩ := exists_indexOf?_iff.mpr (hcovers label hlabel)
    exact ⟨index, mem_indices_ofEntry.mpr ⟨label, hlabel, hindex⟩, labelAt?_of_indexOf? hindex⟩

end Placement

/-! ## Sorting -/

section Sorting

variable {α : Type} (key : α → Nat)

/-- An element is inserted behind those with smaller keys. -/
theorem orderedInsert_append {a : α} {front back : List α} (hfront : ∀ b ∈ front, key b < key a)
    (hback : ∀ b ∈ back, key a ≤ key b) :
    (front ++ back).orderedInsert (fun a b => key a ≤ key b) a = front ++ a :: back := by
  induction front with
  | nil =>
      cases back with
      | nil => rfl
      | cons b rest => exact if_pos (hback b List.mem_cons_self)
  | cons b rest ih =>
      obtain ⟨hb, hrest⟩ := List.forall_mem_cons.mp hfront
      rw [List.cons_append, List.orderedInsert_cons, if_neg (Nat.not_le.mpr hb), ih hrest,
        List.cons_append]

/-- Sorting by keys keeps the order of elements with one key, as inserting them one by one
does. -/
theorem mergeSort_eq_insertionSort_of_key (xs : List α) :
    (xs.mergeSort fun a b => key a ≤ key b) = xs.insertionSort fun a b => key a ≤ key b := by
  have htrans : ∀ a b c : α, decide (key a ≤ key b) = true → decide (key b ≤ key c) = true →
      decide (key a ≤ key c) = true := by
    simp only [decide_eq_true_eq]
    intro a b c hab hbc
    exact Nat.le_trans hab hbc
  have htotal : ∀ a b : α, (decide (key a ≤ key b) || decide (key b ≤ key a)) = true := by
    simp only [Bool.or_eq_true, decide_eq_true_eq]
    exact fun a b => Nat.le_total _ _
  induction xs with
  | nil => simp
  | cons a rest ih =>
      -- the first element stands behind those with smaller keys, wherever these were
      obtain ⟨front, back, hsorted, hrest, hfront⟩ := List.mergeSort_cons htrans htotal a rest
      have hordered := List.pairwise_mergeSort htrans htotal (a :: rest)
      rw [hsorted, List.pairwise_append, List.pairwise_cons] at hordered
      rw [hsorted, List.insertionSort_cons, ← ih, hrest, orderedInsert_append]
      · intro b hb
        simpa using hfront b hb
      · intro b hb
        simpa using hordered.2.1.1 b hb

end Sorting

/-- Placing records inserts their placements one by one, which can be followed step by step. -/
theorem linearize_eq_insertionSort (order : IndexOrder) (source : Artifact)
    (target : OffsetTable) :
    linearize order source target =
      if order = .interleaved ∧ target.isUneven then
        .error (.unevenInterleave target.size target.tableCount)
      else
        (Placement.ofRecords order target source.records).map
          (·.insertionSort fun a b => a.sortKey ≤ b.sortKey) := by
  rw [linearize]
  split
  · rfl
  · cases Placement.ofRecords order target source.records with
    | error e => rfl
    | ok placements => exact congrArg _ (mergeSort_eq_insertionSort_of_key (·.sortKey) placements)

/-! ## Emission -/

/-- The records of a source in the order in which they are written. -/
def emitted (order : IndexOrder) (source : Artifact) (target : OffsetTable) :
    List LabelledRecord :=
  source.records.mergeSort fun x y =>
    (Placement.ofEntry order target x).sortKey ≤ (Placement.ofEntry order target y).sortKey

/-- The block that a labelled record is written as. -/
def LabelledRecord.block (width : Width) (entry : LabelledRecord) : Block :=
  ⟨width, entry.labels, entry.record⟩

section Emission

variable {order : IndexOrder} {source : Artifact} {target : OffsetTable}

theorem emitted_perm (order : IndexOrder) (source : Artifact) (target : OffsetTable) :
    (emitted order source target).Perm source.records :=
  List.mergeSort_perm _ _

theorem mem_emitted {entry : LabelledRecord} :
    entry ∈ emitted order source target ↔ entry ∈ source.records :=
  (emitted_perm order source target).mem_iff

/-- The records are emitted in the order of their keys. -/
theorem pairwise_emitted (order : IndexOrder) (source : Artifact) (target : OffsetTable) :
    (emitted order source target).Pairwise fun x y =>
      (Placement.ofEntry order target x).sortKey ≤ (Placement.ofEntry order target y).sortKey := by
  refine (List.pairwise_mergeSort ?_ ?_ source.records).imp of_decide_eq_true
  · intro x y z hxy hyz
    exact decide_eq_true (Nat.le_trans (of_decide_eq_true hxy) (of_decide_eq_true hyz))
  · intro x y
    simp only [Bool.or_eq_true, decide_eq_true_eq]
    exact Nat.le_total _ _

/-- A source can be placed when every label is known and, for tables read in step, these
divide the entries evenly; the placements are those of the emitted records. -/
theorem linearize_eq_ok_iff (hne : ∀ entry ∈ source.records, entry.labels ≠ [])
    {placements : List Placement} :
    linearize order source target = .ok placements ↔
      ¬ (order = .interleaved ∧ target.isUneven = true) ∧
        (∀ entry ∈ source.records, target.Covers entry) ∧
        placements = (emitted order source target).map (Placement.ofEntry order target) := by
  have hsort : (source.records.map (Placement.ofEntry order target)).mergeSort
      (fun a b => a.sortKey ≤ b.sortKey) =
        (emitted order source target).map (Placement.ofEntry order target) := by
    rw [emitted]
    apply Eq.symm
    apply List.map_mergeSort
    intro x _ y _
    rfl
  by_cases huneven : order = .interleaved ∧ target.isUneven = true
  · rw [linearize, if_pos huneven]
    constructor
    · intro h
      cases h
    · rintro ⟨heven, -⟩
      exact absurd huneven heven
  · have hchain : linearize order source target =
        (Placement.ofRecords order target source.records).bind fun placed =>
          .ok (placed.mergeSort fun a b => a.sortKey ≤ b.sortKey) := by
      rw [linearize, if_neg huneven]
      cases Placement.ofRecords order target source.records <;> rfl
    rw [hchain, bind_eq_ok_iff]
    constructor
    · rintro ⟨placed, hplaced, heq⟩
      obtain ⟨hcovers, rfl⟩ := (Placement.ofRecords_eq_ok_iff hne).mp hplaced
      cases heq
      exact ⟨huneven, hcovers, hsort⟩
    · rintro ⟨-, hcovers, rfl⟩
      exact ⟨_, (Placement.ofRecords_eq_ok_iff hne).mpr ⟨hcovers, rfl⟩, congrArg _ hsort⟩

/-- The text of the emitted records is that of the tables and of their blocks. -/
theorem render_emitted (hcovers : ∀ entry ∈ source.records, target.Covers entry)
    (hascending : ∀ entry ∈ source.records, entry.labels.Pairwise (· < ·)) (width : Width) :
    Listing.render target ((emitted order source target).map (Placement.ofEntry order target))
        width =
      Listing.unlines (Listing.tableLines target ++
        ((emitted order source target).map (LabelledRecord.block width)).flatMap Block.lines) := by
  rw [Listing.render, Listing.lines, List.flatMap_map, List.flatMap_map, List.flatMap_def,
    List.flatMap_def]
  apply congrArg Listing.unlines
  apply congrArg (Listing.tableLines target ++ ·)
  apply congrArg List.flatten
  apply List.map_congr_left
  intro entry hentry
  have hentry := mem_emitted.mp hentry
  rw [Placement.labelsAt_ofEntry (hcovers entry hentry) (hascending entry hentry)]
  rfl

end Emission

end SpriteTables
