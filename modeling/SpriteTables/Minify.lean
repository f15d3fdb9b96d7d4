import SpriteTables.Artifact.Parser
import SpriteTables.Diagnostic.Location
import SpriteTables.Listing
import SpriteTables.Text.Shelf

/-!
# Minifying

Minifying writes the records of a source artifact under the offset tables of a target artifact,
every distinct record once: `minify` for two artifacts, `minifyTexts` for two texts. A text that
is no artifact is reported with the place of the diagnostic in that text.
-/

set_option autoImplicit false

namespace SpriteTables

open Text (NamedText positionAt)

/-! ## Failures -/

/-- A diagnostic together with the text it is about. -/
structure ParseFailure where
  artifact : NamedText
  diagnostic : Diagnostic
deriving DecidableEq, Repr

namespace ParseFailure

/-- The line on which the primary span begins. -/
def line (f : ParseFailure) : Nat :=
  (positionAt f.artifact.text f.diagnostic.primary.start).line

/-- The failure in one line. -/
def message (f : ParseFailure) : String :=
  s!"{f.artifact.name}:{f.line}: {f.diagnostic.cause.message}"

/-- The place that a report shows. -/
def location (f : ParseFailure) : String :=
  let place := Diagnostic.viewedPosition f.artifact.text f.diagnostic.primary.start
  s!"{f.artifact.name}:{place.line}:{place.column}"

/-- The first line of a report, its first word red on request. -/
def reportHead (colored : Bool) (f : ParseFailure) : String :=
  let mark := if colored then "\x1b[31mError:\x1b[0m" else "Error:"
  s!"{mark} {f.diagnostic.cause.message}"

/-- The lines of a report: the head, the place and the hints. -/
def report (colored : Bool) (f : ParseFailure) : String :=
  let hints := f.diagnostic.hints.map fun hint =>
    match hint.kind with
    | .help => s!"Help: {hint.message}"
    | .note => s!"Note: {hint.message}"
  "\n".intercalate (f.reportHead colored :: s!" --> {f.location}" :: hints)

end ParseFailure

/-- Why texts cannot be minified: one of them is no artifact, or the records have no place in the
target. -/
inductive Failure where
  | parse (failure : ParseFailure)
  | placement (error : PlacementError)
deriving DecidableEq, Repr

namespace Failure

/-- The failure in one line. -/
def message : Failure → String
  | parse failure => failure.message
  | placement error => error.message

/-- The failure as it is shown to a person. -/
def report (colored : Bool) : Failure → String
  | parse failure => failure.report colored
  | placement error => s!"error: {error.message}"

end Failure

/-! ## Minifying -/

/-- Reads the artifact in a named text. -/
def parseNamed (entrySize : Nat) (artifact : NamedText) : Logged (Except Failure Artifact) :=
  (Artifact.parse entrySize artifact.text).mapError fun diagnostic =>
    .parse { artifact, diagnostic }

/-- How to minify: the payload words per unit of a record's count, the width in which payloads are
written, and how positions in the target are ranked. -/
structure Options where
  entrySize : Nat
  payload : Width := .word
  order : IndexOrder := .sequential
deriving DecidableEq, Repr

/-- What was counted while minifying: the tables and the offset entries of the target, the labels
bound in the source, the records written, and the offset entries that no record of the source
covers. -/
structure Statistics where
  tables : Nat
  offsetEntries : Nat
  sourceLabels : Nat
  distinctRecords : Nat
  uncoveredEntries : Nat
deriving DecidableEq, Repr

/-- A minified artifact, and what was counted. -/
structure Output where
  text : String
  statistics : Statistics
deriving DecidableEq, Repr

/-- The text and the counts that placements on a target give. -/
def Output.ofPlacements (source : Artifact) (target : OffsetTable) (width : Width)
    (placements : List Placement) : Output where
  text := Listing.render target placements width
  statistics :=
    { tables := target.tableCount
      offsetEntries := target.size
      sourceLabels := source.labelCount
      distinctRecords := placements.length
      uncoveredEntries := (uncoveredEntries target placements).length }

/-- Writes the records of a source under the offset tables of a target. -/
def minify (options : Options) (source target : Artifact) :
    Logged (Except Failure Output) :=
  match linearize options.order source target.offsets with
  | .error e => ⟨[], .error (.placement e)⟩
  | .ok placements =>
      ⟨coverageRemarks target.offsets placements,
        .ok (.ofPlacements source target.offsets options.payload placements)⟩

/-- Reads a source and a target, the source first, and minifies them. -/
def minifyTexts (options : Options) (source target : NamedText) :
    Logged (Except Failure Output) :=
  (parseNamed options.entrySize source).andThen fun sourceArtifact =>
    (parseNamed options.entrySize target).andThen fun targetArtifact =>
      minify options sourceArtifact targetArtifact

end SpriteTables
