import SpriteTables.Listing.Numeral
import SpriteTables.Placement
import SpriteTables.Width

/-!
# Listings

A listing is the text of an artifact: its offset tables, each under its name, and then one block
per record, its labels above its words. The header is a word, and the payload is written as words
or as rows of bytes (`Listing.render`).
-/

set_option autoImplicit false

namespace SpriteTables.Listing

/-! ## Lines -/

/-- The line that declares a label or a table. -/
def labelLine (name : String) : String :=
  name ++ ":"

/-- The line of a directive with its operands. -/
def directiveLine (width : Width) (operands : List String) : String :=
  "\t\t" ++ width.keyword ++ " " ++ ",".intercalate operands

/-- The lines of one offset table. -/
def tableLinesOf (target : OffsetTable) (table : String) : List String :=
  labelLine table ::
    (target.labelsOf table).map fun label => directiveLine .word [label ++ "-" ++ table]

/-- The lines of all offset tables. -/
def tableLines (target : OffsetTable) : List String :=
  target.tableNames.flatMap (tableLinesOf target)

/-! ## Records -/

/-- How many bytes stand in a row. -/
def bytesPerRow : Nat := 6

/-- Cuts bytes into rows, of which only the last may be shorter. -/
def rowsOf : List UInt8 → List (List UInt8)
  | [] => []
  | byte :: rest =>
      (byte :: rest.take (bytesPerRow - 1)) :: rowsOf (rest.drop (bytesPerRow - 1))
termination_by bytes => bytes.length
decreasing_by
  simp only [List.length_drop, List.length_cons]
  omega

/-- The high and the low byte of a word. -/
def bytesOfWord (word : Int16) : List UInt8 :=
  let n := word.toUInt16.toNat
  [UInt8.ofNat (n / 256), UInt8.ofNat (n % 256)]

/-- The lines of a record's payload. -/
def payloadLines (width : Width) (payload : List Int16) : List String :=
  match width with
  | .word => payload.map fun word => directiveLine .word [wordText word]
  | .byte =>
      (rowsOf (payload.flatMap bytesOfWord)).map fun row =>
        directiveLine .byte (row.map byteText)

/-- The lines of a record under its labels. -/
def recordLines (width : Width) (labels : List String) (record : Record) : List String :=
  labels.map labelLine ++
    directiveLine .word [wordText record.header] :: payloadLines width record.payload

/-- The labels that a placement's positions carry, ascending. -/
def labelsAt (target : OffsetTable) (indices : List Nat) : List String :=
  Ascending.ofList (indices.filterMap target.labelAt?)

/-! ## The whole text -/

/-- The lines of a target's tables and of some placements. -/
def lines (target : OffsetTable) (placements : List Placement) (width : Width) :
    List String :=
  tableLines target ++
    placements.flatMap fun p => recordLines width (labelsAt target p.indices) p.record

/-- The text of some lines, each ended by a line feed. -/
def unlines (texts : List String) : String :=
  String.join (texts.map (· ++ "\n"))

/-- The text of a target's tables and of some placements. -/
def render (target : OffsetTable) (placements : List Placement) (width : Width) : String :=
  unlines (lines target placements width)

end SpriteTables.Listing
