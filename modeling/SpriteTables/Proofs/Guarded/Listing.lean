import SpriteTables.Listing
import SpriteTables.Proofs.Guarded.Operation

/-!
# Listings, with checked positions

Every offset table keeps the positions of its entries, at which their labels are looked up when
the table is written, and a record is written as the first of its words and the words behind it.
This module writes listings that way, with checked look-ups. None of them faults (`render_eq`).
-/

set_option autoImplicit false

namespace SpriteTables.Guarded

open Listing (labelLine directiveLine wordText payloadLines labelsAt unlines)

/-! ## Tables -/

/-- The positions of a table's entries among some entries, which begin at a position. -/
def positionsFrom (table : String) (position : Nat) : List OffsetEntry → List Nat
  | [] => []
  | e :: rest =>
      if e.table = table then position :: positionsFrom table (position + 1) rest
      else positionsFrom table (position + 1) rest

/-- The label of the entry at a position. -/
def labelAt (entries : List OffsetEntry) (position : Nat) : Checked String := do
  let entry ← index entries position
  return entry.label

/-- The labels of one table, in order. -/
def labelsOf (target : OffsetTable) (table : String) : Checked (List String) :=
  (positionsFrom table 0 target.entries).mapM (labelAt target.entries)

/-- The lines of one offset table. -/
def tableLinesOf (target : OffsetTable) (table : String) : Checked (List String) := do
  let labels ← labelsOf target table
  return labelLine table :: labels.map fun label => directiveLine .word [label ++ "-" ++ table]

/-- The lines of all offset tables. -/
def tableLines (target : OffsetTable) : Checked (List String) := do
  let blocks ← target.tableNames.mapM (tableLinesOf target)
  return blocks.flatten

section Tables

/-- The positions of a table's entries are those that have its labels. -/
theorem mapM_labelAt_positionsFrom (table : String) (before rest : List OffsetEntry) :
    (positionsFrom table before.length rest).mapM (labelAt (before ++ rest)) =
      .ok ((rest.filter (·.table = table)).map (·.label)) := by
  induction rest generalizing before with
  | nil => rfl
  | cons e rest ih =>
      have hrest := ih (before ++ [e])
      rw [List.length_append, List.length_singleton, List.append_assoc,
        List.singleton_append] at hrest
      rw [positionsFrom]
      by_cases htable : e.table = table
      · have hentry : (before ++ e :: rest)[before.length]? = some e := by simp
        have hlabel : labelAt (before ++ e :: rest) before.length = .ok e.label := by
          rw [labelAt, index_eq hentry]
          rfl
        rw [if_pos htable, List.mapM_cons, hlabel, ok_bind, hrest, ok_bind,
          List.filter_cons_of_pos (by simpa using htable)]
        rfl
      · rw [if_neg htable, hrest, List.filter_cons_of_neg (by simpa using htable)]

theorem labelsOf_eq (target : OffsetTable) (table : String) :
    labelsOf target table = .ok (target.labelsOf table) :=
  mapM_labelAt_positionsFrom table [] target.entries

theorem tableLines_eq (target : OffsetTable) :
    tableLines target = .ok (Listing.tableLines target) := by
  have hblocks : target.tableNames.mapM (tableLinesOf target) =
      .ok (target.tableNames.map (Listing.tableLinesOf target)) := by
    apply mapM_eq
    intro table _
    rw [tableLinesOf, labelsOf_eq, ok_bind]
    rfl
  rw [tableLines, hblocks, ok_bind, Listing.tableLines, List.flatMap_def]
  rfl

end Tables

/-! ## Records -/

/-- The first word of a record. -/
def headerOf (record : Record) : Checked Int16 :=
  index record.words 0

/-- The words of a record behind the first one. -/
def payloadOf (record : Record) : Checked (List Int16) :=
  if 1 ≤ record.words.length then .ok (record.words.drop 1) else .error .outOfRange

/-- The lines of a record under its labels. -/
def recordLines (width : Width) (labels : List String) (record : Record) :
    Checked (List String) := do
  let header ← headerOf record
  let payload ← payloadOf record
  return labels.map labelLine ++ directiveLine .word [wordText header] ::
    payloadLines width payload

/-- The text of a target's tables and of some placements. -/
def render (target : OffsetTable) (placements : List Placement) (width : Width) :
    Checked String := do
  let tables ← tableLines target
  let blocks ← placements.mapM fun p => recordLines width (labelsAt target p.indices) p.record
  return unlines (tables ++ blocks.flatten)

section Records

theorem recordLines_eq (width : Width) (labels : List String) (record : Record) :
    recordLines width labels record = .ok (Listing.recordLines width labels record) :=
  rfl

/-- No listing faults. -/
theorem render_eq (target : OffsetTable) (placements : List Placement) (width : Width) :
    render target placements width = .ok (Listing.render target placements width) := by
  have hblocks : (placements.mapM fun p =>
      recordLines width (labelsAt target p.indices) p.record) =
        .ok (placements.map fun p =>
          Listing.recordLines width (labelsAt target p.indices) p.record) := by
    apply mapM_eq
    intro p _
    exact recordLines_eq width _ p.record
  rw [render, tableLines_eq, ok_bind, hblocks, ok_bind, Listing.render, Listing.lines,
    List.flatMap_def]
  rfl

end Records

end SpriteTables.Guarded
