import SpriteTables.Artifact
import SpriteTables.Log

/-!
# Placements

To write the records of one artifact under the offset table of another, every label of a record is
looked up in that table. The positions found say where the record goes and which labels it gets
there. Parallel tables may be read one after the other or in step (`interleaveIndex`), and
`linearize` lists the placements of all records in the order of output.
-/

set_option autoImplicit false

namespace SpriteTables

/-! ## Orders of positions -/

/-- The rank of a position when tables are read in step. -/
def interleaveIndex (index tableCount recordsPerTable : Nat) : Nat :=
  index / tableCount + (index % tableCount) * recordsPerTable

/-- How positions in an offset table are ranked: one table after the other, or all tables in step.
-/
inductive IndexOrder where
  | sequential
  | interleaved
deriving DecidableEq, Repr, Inhabited

/-- The rank of a position in an offset table. -/
def IndexOrder.rank (order : IndexOrder) (target : OffsetTable) (index : Nat) : Nat :=
  match order with
  | sequential => index
  | interleaved => interleaveIndex index target.tableCount (target.size / target.tableCount)

/-! ## Placements -/

/-- Why records cannot be placed: the target has no entry for a label, or its entries do not
divide evenly among the tables. -/
inductive PlacementError where
  | unknownLabel (label : String)
  | unevenInterleave (labels tables : Nat)
deriving DecidableEq, Repr

/-- The text of a placement error. -/
def PlacementError.message : PlacementError → String
  | unknownLabel label => s!"label '{label}' is not declared in the target offset table"
  | unevenInterleave labels tables =>
      s!"cannot interleave {labels} offset entries across {tables} tables: "
        ++ "the tables differ in length"

/-- A record with its place in an offset table: the positions of its labels, ascending, and the
least rank of these positions. -/
structure Placement where
  record : Record
  indices : List Nat
  sortKey : Nat
deriving DecidableEq, Repr, Inhabited

namespace Placement

/-- The positions of some labels in an offset table. -/
def indicesOf (target : OffsetTable) : List String → Except PlacementError (List Nat)
  | [] => .ok []
  | label :: rest =>
      match target.indexOf? label with
      | none => .error (.unknownLabel label)
      | some index =>
          match indicesOf target rest with
          | .error e => .error e
          | .ok indices => .ok (index :: indices)

/-- The placement of a record at some positions; without a position there is
none. -/
def atIndices? (order : IndexOrder) (target : OffsetTable) (record : Record)
    (indices : List Nat) : Option Placement :=
  let ascending := Ascending.ofList indices
  (ascending.map (order.rank target)).min?.map fun sortKey =>
    { record, indices := ascending, sortKey }

/-- The placements of some records, in the records' order. -/
def ofRecords (order : IndexOrder) (target : OffsetTable) :
    List LabelledRecord → Except PlacementError (List Placement)
  | [] => .ok []
  | entry :: rest =>
      match indicesOf target entry.labels with
      | .error e => .error e
      | .ok indices =>
          match ofRecords order target rest with
          | .error e => .error e
          | .ok placements =>
              .ok ((atIndices? order target entry.record indices).toList ++ placements)

end Placement

/-! ## The order of output -/

/-- The entries of a table cannot be read in step: they do not divide evenly. -/
def OffsetTable.isUneven (target : OffsetTable) : Bool :=
  decide (0 < target.tableCount) && decide (target.size % target.tableCount ≠ 0)

/-- Places all records of an artifact on an offset table, least rank first. -/
def linearize (order : IndexOrder) (source : Artifact) (target : OffsetTable) :
    Except PlacementError (List Placement) :=
  if order = .interleaved ∧ target.isUneven then
    .error (.unevenInterleave target.size target.tableCount)
  else
    match Placement.ofRecords order target source.records with
    | .error e => .error e
    | .ok placements => .ok (placements.mergeSort fun a b => a.sortKey ≤ b.sortKey)

/-! ## Coverage -/

/-- Some placement reaches the first entry of a label. -/
def isCovered (target : OffsetTable) (placements : List Placement) (label : String) : Bool :=
  match target.indexOf? label with
  | none => false
  | some index => placements.any (·.indices.contains index)

/-- The offset entries whose label no placement reaches. A repeated entry counts
as reached when its first one is. -/
def uncoveredEntries (target : OffsetTable) (placements : List Placement) :
    List OffsetEntry :=
  target.entries.filter fun entry => !isCovered target placements entry.label

/-- The remarks on a placing: one for every offset entry it does not reach. -/
def coverageRemarks (target : OffsetTable) (placements : List Placement) : List LogEvent :=
  (uncoveredEntries target placements).map fun entry => .uncovered entry.label entry.table

end SpriteTables
