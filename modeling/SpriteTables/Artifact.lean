import SpriteTables.Ascending
import SpriteTables.OffsetTable
import SpriteTables.Record

/-!
# Artifacts

An artifact is an offset table and records under labels. Records with the same words are one
record, under the labels of all of them: `LabelledRecord.gather` makes the distinct records, in
order of first appearance, out of single bindings of labels. Two artifacts can be compared up to
the order of their records (`Artifact.sameContent`).
-/

set_option autoImplicit false

namespace SpriteTables

open Text (Span)

/-! ## Records under labels -/

/-- A record and all labels that name it, ascending. -/
structure LabelledRecord where
  record : Record
  labels : List String
deriving DecidableEq, Repr, Inhabited

/-- A label bound to a record, with the place where it was bound `first`. -/
structure Binding where
  label : String
  first : Span
  record : Record
deriving DecidableEq, Repr

namespace LabelledRecord

/-- Adds a label to a record, appending the record if it is new. -/
def add (record : Record) (label : String) : List LabelledRecord → List LabelledRecord
  | [] => [⟨record, [label]⟩]
  | entry :: rest =>
      if entry.record = record then
        { entry with labels := Ascending.insert label entry.labels } :: rest
      else entry :: add record label rest

/-- The distinct records of some bindings, in order of first appearance. -/
def gather (bindings : List Binding) : List LabelledRecord :=
  bindings.foldl (fun records b => add b.record b.label records) []

end LabelledRecord

/-! ## Artifacts -/

/-- An offset table and the records it refers to: each different record once, in order of first
appearance, with all its labels. -/
structure Artifact where
  offsets : OffsetTable
  records : List LabelledRecord
deriving DecidableEq, Repr, Inhabited

namespace Artifact

/-- How many distinct records there are. -/
def recordCount (a : Artifact) : Nat :=
  a.records.length

/-- How many labels there are, over all records. -/
def labelCount (a : Artifact) : Nat :=
  (a.records.flatMap (·.labels)).length

/-- The labels of a record. -/
def labelsOf? (a : Artifact) (record : Record) : Option (List String) :=
  (a.records.find? (·.record = record)).map (·.labels)

/-- The record that a label names. -/
def recordOf? (a : Artifact) (label : String) : Option Record :=
  (a.records.find? (·.labels.contains label)).map (·.record)

/-- Two artifacts have the same offset entries in the same order and the same
records under the same labels in any order. -/
def sameContent (a b : Artifact) : Bool :=
  decide (a.offsets = b.offsets) && a.records.isPerm b.records

end Artifact

end SpriteTables
