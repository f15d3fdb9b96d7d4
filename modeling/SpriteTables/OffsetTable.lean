import SpriteTables.Diagnostic

/-!
# Offset tables

An offset table lists entries, each a label and the table that it belongs to. All tables of an
artifact share one sequence of entries; everything else is a view of that sequence. The table
grows by declarations. A label is declared once, with one exception: the first label of all may be
repeated in any table but the first (`OffsetTable.declare`).
-/

set_option autoImplicit false

namespace SpriteTables

open Text (Span)

/-- A label whose offset is stored, and the table that the offset is relative to. -/
structure OffsetEntry where
  label : String
  table : String
deriving DecidableEq, Repr, Inhabited

/-- The offset entries of an artifact: all those of all tables, in the order of declaration. -/
structure OffsetTable where
  entries : List OffsetEntry := []
deriving DecidableEq, Repr, Inhabited

/-! ## Views -/

namespace OffsetTable

/-- The table of the first entry. -/
def mainTable? (t : OffsetTable) : Option String :=
  t.entries.head?.map (·.table)

/-- The label of the first entry, which other tables may repeat. -/
def sharedRoot? (t : OffsetTable) : Option String :=
  t.entries.head?.map (·.label)

/-- The names of the tables, in order of first appearance. -/
def tableNames (t : OffsetTable) : List String :=
  (t.entries.map (·.table)).eraseDups

/-- How many tables there are. -/
def tableCount (t : OffsetTable) : Nat :=
  t.tableNames.length

/-- How many entries there are. -/
def size (t : OffsetTable) : Nat :=
  t.entries.length

/-- The labels of one table, in order. -/
def labelsOf (t : OffsetTable) (table : String) : List String :=
  (t.entries.filter (·.table = table)).map (·.label)

/-- The position of the first entry with a label. -/
def indexOf? (t : OffsetTable) (label : String) : Option Nat :=
  t.entries.findIdx? (·.label = label)

/-- Some entry has the label. -/
def declares (t : OffsetTable) (label : String) : Bool :=
  t.entries.any (·.label = label)

/-- The label at a position. -/
def labelAt? (t : OffsetTable) (index : Nat) : Option String :=
  t.entries[index]?.map (·.label)

end OffsetTable

/-! ## Growth -/

/-- An entry together with the place of the operand that declares it. -/
structure Declaration extends OffsetEntry where
  span : Span
deriving DecidableEq, Repr, Inhabited

namespace OffsetTable

/-- The table that some declarations make. -/
def ofDeclarations (declared : List Declaration) : OffsetTable :=
  ⟨declared.map (·.toOffsetEntry)⟩

/-- An entry repeats the label of the first declaration, in another table. -/
def repeatsRoot (declared : List Declaration) (entry : OffsetEntry) : Bool :=
  match declared with
  | [] => false
  | root :: _ => decide (entry.label = root.label) && decide (entry.table ≠ root.table)

/-- Adds a declaration, unless its label was declared before and may not be
repeated. -/
def declare (declared : List Declaration) (new : Declaration) :
    Except Diagnostic (List Declaration) :=
  match declared.find? (·.label = new.label) with
  | none => .ok (declared ++ [new])
  | some first =>
      if repeatsRoot declared new.toOffsetEntry then .ok (declared ++ [new])
      else
        .error (((Diagnostic.of new.span (.duplicateLabel new.label)).relate first.span
          .firstDeclared).advise .sharedRootOnly)

end OffsetTable

end SpriteTables
