import SpriteTables.Artifact.Parser
import SpriteTables.Batch
import SpriteTables.Batch.ConfigText
import SpriteTables.CommandLine
import SpriteTables.Diagnostic.Location
import SpriteTables.Files.Store
import SpriteTables.Files.Tree
import SpriteTables.Main
import SpriteTables.Minify
import SpriteTables.Statement
import SpriteTables.Text.Line
import SpriteTables.Text.Shelf
import SpriteTables.Proofs.Steps
import SpriteTables.Proofs.Artifact.Gathering
import SpriteTables.Proofs.OffsetTable.Growth
import SpriteTables.Proofs.Text.Cuts
import SpriteTables.Proofs.Text.Lines
import SpriteTables.Proofs.Listing.Numeral
import SpriteTables.Proofs.Statement.Written
import SpriteTables.Proofs.Record.Length
import SpriteTables.Proofs.Artifact.Invariant
import SpriteTables.Proofs.Record.Written
import SpriteTables.Proofs.Artifact.Lines
import SpriteTables.Proofs.Artifact.Blocks
import SpriteTables.Proofs.Artifact.Dialect
import SpriteTables.Proofs.OffsetTable.Regrouped
import SpriteTables.Proofs.Artifact.Tables
import SpriteTables.Proofs.Placement.Emission
import SpriteTables.Proofs.Minify.RoundTrip
import SpriteTables.Proofs.Minify.Rerun
import SpriteTables.Proofs.Placement.Rank
import SpriteTables.Proofs.Minify.SameRecords
import SpriteTables.Proofs.Text.Places
import SpriteTables.Proofs.Text.Numbered
import SpriteTables.Proofs.Statement.Places
import SpriteTables.Proofs.Artifact.Declared
import SpriteTables.Proofs.Artifact.Stepwise
import SpriteTables.Proofs.Artifact.History
import SpriteTables.Proofs.Artifact.Switch
import SpriteTables.Proofs.Record.Places
import SpriteTables.Proofs.Artifact.Places
import SpriteTables.Proofs.Diagnostic.Places
import SpriteTables.Proofs.Artifact.Sizes
import SpriteTables.Proofs.Guarded.Operation
import SpriteTables.Proofs.Guarded.Lines
import SpriteTables.Proofs.Guarded.Statement
import SpriteTables.Proofs.Guarded.Record
import SpriteTables.Proofs.Guarded.Artifact
import SpriteTables.Proofs.Guarded.Placement
import SpriteTables.Proofs.Guarded.Listing
import SpriteTables.Proofs.Guarded.Minify
import SpriteTables.Proofs.Text.Joined
import SpriteTables.Proofs.Artifact.Continued
import SpriteTables.Proofs.Statement.Layout
import SpriteTables.Proofs.Statement.Alike
import SpriteTables.Proofs.Record.Alike
import SpriteTables.Proofs.Artifact.Alike
import SpriteTables.Proofs.Artifact.Layout
import SpriteTables.Proofs.Placement.Interleaving
import SpriteTables.Proofs.Batch.Jobs
import SpriteTables.Proofs.Batch.Run
import SpriteTables.Proofs.Batch.Rehearsal
import SpriteTables.Proofs.Files.Keys
import SpriteTables.Proofs.Batch.Sources
import SpriteTables.Proofs.Placement.Uneven
import SpriteTables.Proofs.Placement.Outcome
import SpriteTables.Proofs.Minify.Coverage
import SpriteTables.Proofs.OffsetTable.Indexed
import SpriteTables.Proofs.Record.Spelling
import SpriteTables.Proofs.Record.Operands
import SpriteTables.Proofs.Record.Decoding
import SpriteTables.Proofs.Record.Endings
import SpriteTables.Proofs.Text.LineEndings
import SpriteTables.Proofs.Text.Trims
import SpriteTables.Proofs.Operand.Spelling
import SpriteTables.Proofs.Operand.Grammar
import SpriteTables.Proofs.Statement.Grammar
import SpriteTables.Proofs.Statement.Slices
import SpriteTables.Proofs.Batch.Faults
import SpriteTables.Proofs.Record.Fingerprint
import SpriteTables.Proofs.Files.System
import SpriteTables.Proofs.CommandLine.Pair
