import SpriteTables.Artifact
import SpriteTables.Log
import SpriteTables.Record.Reading

/-!
# Reading an artifact

An artifact is read line by line. First come offset tables, whose own labels are
table headers; the first label that an offset entry refers to ends the tables for
good, and from it on labels name the records after them.

## What this module delivers

- `Mode`, `Mode.afterLabel`: the one-way switch from tables to records.
- `Draft`: an artifact of which some lines have been read.
- `Draft.declareLabel`, `Draft.declareOffsets`, `Draft.bind`: what a label, a
  directive among the tables and a complete record do to it.
- `Draft.read`, `Draft.run`: one line, and all lines until the reading ends.
- `Artifact.parse`: the artifact in a text, or the first diagnostic.
-/

set_option autoImplicit false

namespace SpriteTables

open Text (Span Line linesOf)

/-! ## The switch -/

/-- What directives mean at some point of an artifact: in `table` mode they declare offset
entries, in `data` mode they hold records. -/
inductive Mode where
  | table
  | data
deriving DecidableEq, Repr, Inhabited

/-- The mode after a label, told whether an offset entry refers to it. -/
def Mode.afterLabel (mode : Mode) (referred : Bool) : Mode :=
  match mode with
  | table => if referred then data else table
  | data => data

/-! ## Artifacts in the making -/

/-- What some lines of an artifact have come to. `declared` and `bindings` are in the order of the
text, `pending` are the labels that wait for a record, and `underway` is the record being read,
with the place of the directive that began it. Records have `entrySize` payload words per unit of
their count. -/
structure Draft where
  entrySize : Nat
  mode : Mode := .table
  declared : List Declaration := []
  bindings : List Binding := []
  pending : List Label := []
  underway : Option (Span × Reading) := none
  log : List LogEvent := []
deriving Repr

/-- Whether a reading goes on, has `ended` at the ending word, or was stopped by a diagnostic. -/
inductive Verdict where
  | reading
  | ended
  | failed (diagnostic : Diagnostic)
deriving DecidableEq, Repr

namespace Draft

/-! ## Labels and tables -/

/-- Some offset entry refers to the label. -/
def refersTo (d : Draft) (label : String) : Bool :=
  d.declared.any (·.label = label)

/-- Takes in a label. When it switches to records, the labels before it were
table headers and are forgotten. -/
def declareLabel (d : Draft) (label : Label) : Draft :=
  let next := d.mode.afterLabel (d.refersTo label.name)
  if next = d.mode then { d with pending := d.pending ++ [label] }
  else
    { d with
      mode := next
      pending := [label]
      log := d.log ++ [.switchedToData label.name] }

/-- Adds the entries that some operands declare. -/
def declareEntries (declared : List Declaration) :
    List Operand → Except Diagnostic (List Declaration)
  | [] => .ok declared
  | o :: rest =>
      match o.entry with
      | .error e => .error e
      | .ok (label, table) =>
          match OffsetTable.declare declared ⟨⟨label, table⟩, o.span⟩ with
          | .error e => .error e
          | .ok next => declareEntries next rest

/-- Takes in a directive among the offset tables. -/
def declareOffsets (d : Draft) (directive : Directive) : Except Diagnostic Draft :=
  match directive.width with
  | .byte =>
      .error ((Diagnostic.of directive.span
        (.malformedDirective .bytesInOffsetTable)).advise .offsetForm)
  | .word =>
      match declareEntries d.declared directive.operands with
      | .error e => .error e
      | .ok declared => .ok { d with declared }

/-! ## Records -/

/-- The binding of a label. -/
def bindingOf? (bindings : List Binding) (label : String) : Option Binding :=
  bindings.find? (·.label = label)

/-- The first label that is bound to a record other than a given one. -/
def conflict? (bindings : List Binding) (record : Record) :
    List Label → Option (Label × Binding)
  | [] => none
  | label :: rest =>
      match bindingOf? bindings label.name with
      | none => conflict? bindings record rest
      | some binding =>
          if binding.record = record then conflict? bindings record rest
          else some (label, binding)

/-- Binds a label to a record, unless it is bound already. -/
def bindLabel (record : Record) (bindings : List Binding) (label : Label) : List Binding :=
  match bindingOf? bindings label.name with
  | none => bindings ++ [⟨label.name, label.span, record⟩]
  | some _ => bindings

/-- Binds the waiting labels to a record that began at a directive. -/
def bind (d : Draft) (start : Span) (record : Record) : Except Diagnostic Draft :=
  if d.pending = [] then
    .error ((Diagnostic.of start .unlabelledRecord).advise .labelBeforeRecord)
  else
    match conflict? d.bindings record d.pending with
    | some (label, binding) =>
        .error ((Diagnostic.of label.span (.duplicateLabel label.name)).relate binding.first
          .boundElsewhere)
    | none =>
        .ok { d with
          bindings := d.pending.foldl (bindLabel record) d.bindings
          pending := []
          underway := none }

/-! ## Lines -/

/-- Takes in what a line has come to for the record that began at a directive. -/
def settle (d : Draft) (start : Span) : Except Diagnostic Progress → Draft × Verdict
  | .error e => (d, .failed e)
  | .ok (.underway reading) => ({ d with underway := some (start, reading) }, .reading)
  | .ok (.complete record) =>
      match d.bind start record with
      | .error e => (d, .failed e)
      | .ok next => (next, .reading)

/-- Takes in a directive that begins a line of its own. -/
def readDirective (d : Draft) (directive : Directive) : Draft × Verdict :=
  match d.mode with
  | .table =>
      match d.declareOffsets directive with
      | .error e => (d, .failed e)
      | .ok next => (next, .reading)
  | .data =>
      d.settle directive.span
        ((Reading.begin directive).feed d.entrySize directive.width directive.operands)

/-- Takes in a statement outside of any record. -/
def readStatement (d : Draft) (s : Statement) : Draft × Verdict :=
  let labelled := match s.label with
    | none => d
    | some label => d.declareLabel label
  match s.body with
  | .empty => (labelled, .reading)
  | .sentinel => (labelled, .ended)
  | .directive directive => labelled.readDirective directive

/-- Takes in one line. -/
def read (d : Draft) (line : Line) : Draft × Verdict :=
  match Statement.ofLine line with
  | .error e => (d, .failed e)
  | .ok s =>
      match d.underway with
      | some (start, reading) => d.settle start (reading.resume d.entrySize s)
      | none => d.readStatement s

/-- Takes in lines until the reading ends. -/
def run (d : Draft) : List Line → Draft × Verdict
  | [] => (d, .reading)
  | line :: rest =>
      match d.read line with
      | (next, .reading) => next.run rest
      | (next, verdict) => (next, verdict)

/-! ## The end -/

/-- The artifact that was read. -/
def artifact (d : Draft) : Artifact where
  offsets := .ofDeclarations d.declared
  records := LabelledRecord.gather d.bindings

/-- The remarks at the end: labels among the records that still wait for one. -/
def closingRemarks (d : Draft) : List LogEvent :=
  if d.mode = .data ∧ d.pending ≠ [] then [.droppedLabels d.pending.length] else []

/-- What a reading has come to once it has ended or the text has. -/
def conclude : Draft × Verdict → Logged (Except Diagnostic Artifact)
  | (d, .failed e) => ⟨d.log, .error e⟩
  | (d, .ended) => ⟨d.log ++ d.closingRemarks, .ok d.artifact⟩
  | (d, .reading) =>
      match d.underway with
      | some (_, reading) => ⟨d.log, .error reading.cutOff⟩
      | none => ⟨d.log ++ d.closingRemarks, .ok d.artifact⟩

end Draft

/-- Reads the artifact in a text, with a number of payload words per unit of a
record's count. -/
def Artifact.parse (entrySize : Nat) (text : String) :
    Logged (Except Diagnostic Artifact) :=
  Draft.conclude (Draft.run { entrySize } (linesOf text))

end SpriteTables
