import SpriteTables.Minify
import SpriteTables.Proofs.Artifact.Sizes
import SpriteTables.Proofs.Diagnostic.Places
import SpriteTables.Proofs.Guarded.Artifact
import SpriteTables.Proofs.Guarded.Listing
import SpriteTables.Proofs.Guarded.Placement

/-!
# Minifying never faults

Put together, the checked operations minify two texts: they read both, look up the line of a
diagnostic if there is one, place the records, write the listing and count what was done. Whatever
the texts hold, whatever the entry size, width and order, none of the checks fails, and the result
is the one without them (`minifyTexts_eq`). Texts have to fit into memory, as every text does.
-/

set_option autoImplicit false

namespace SpriteTables.Guarded

open Text (NamedText byteSize)

/-! ## Reports -/

/-- Why texts cannot be minified, as it is reported: a text is no artifact, as the diagnostic on a
line says, or the records have no place in the target. -/
inductive Report where
  | parse (failure : ParseFailure) (line : Nat)
  | placement (error : PlacementError)
deriving DecidableEq, Repr

/-- The report of a failure. -/
def Report.of : Failure → Report
  | .parse failure => .parse failure failure.line
  | .placement error => .placement error

/-- Goes on from a success of a computation that may fault. -/
def andThen {ε α β : Type} (first : Checked (Logged (Except ε α)))
    (next : α → Checked (Logged (Except ε β))) : Checked (Logged (Except ε β)) := do
  let before ← first
  match before.value with
  | .error e => return ⟨before.log, .error e⟩
  | .ok a => do
      let after ← next a
      return ⟨before.log ++ after.log, after.value⟩

section Steps

variable {ε δ α β : Type}

theorem andThen_eq {first : Logged (Except ε α)} {next : α → Checked (Logged (Except ε β))}
    {g : α → Logged (Except ε β)} (h : ∀ a, first.value = .ok a → next a = .ok (g a)) :
    andThen (.ok first) next = .ok (first.andThen g) := by
  obtain ⟨log, value⟩ := first
  cases value with
  | error e => rfl
  | ok a =>
      rw [andThen, ok_bind]
      simp only
      rw [h a rfl]
      rfl

/-- Renaming the errors of two steps renames that of both. -/
theorem mapError_andThen (f : ε → δ) (first : Logged (Except ε α))
    (next : α → Logged (Except ε β)) :
    (first.andThen next).mapError f =
      (first.mapError f).andThen fun a => (next a).mapError f := by
  obtain ⟨log, value⟩ := first
  cases value <;> rfl

end Steps

/-! ## Reading -/

/-- Reads the artifact in a named text. A diagnostic is reported with its line. -/
def parseNamed (entrySize : Nat) (artifact : NamedText) :
    Checked (Logged (Except Report Artifact)) := do
  let parsed ← parse entrySize artifact.text
  match parsed.value with
  | .ok found => return ⟨parsed.log, .ok found⟩
  | .error diagnostic => do
      let position ← positionAt artifact.text diagnostic.primary.start
      return ⟨parsed.log, .error (.parse { artifact, diagnostic } position.line)⟩

section Reading

variable {entrySize : Nat} {artifact : NamedText}

/-- The primary span of a diagnostic begins inside the text. -/
theorem start_le_of_parse {text : String} {e : Diagnostic}
    (h : (Artifact.parse entrySize text).value = .error e) :
    e.primary.start ≤ byteSize text.toList := by
  obtain ⟨line, hline, q, hq, hspan⟩ := Draft.primary_onLines_of_parse h
  rw [← hspan]
  exact Nat.le_trans q.start_le_stop (hq.trans (Text.line_in_whole hline)).stop_le_byteSize

/-- No text that fits into memory makes reading and reporting it fault. -/
theorem parseNamed_eq (h : Addressable artifact.text) (entrySize : Nat) :
    parseNamed entrySize artifact =
      .ok ((SpriteTables.parseNamed entrySize artifact).mapError Report.of) := by
  rw [parseNamed, parse_eq h, ok_bind, SpriteTables.parseNamed]
  cases hparse : (Artifact.parse entrySize artifact.text).value with
  | ok found =>
      simp only [Logged.mapError, hparse]
      rfl
  | error e =>
      simp only [Logged.mapError, hparse]
      rw [positionAt_eq h (start_le_of_parse hparse), ok_bind]
      rfl

end Reading

/-! ## Minifying -/

/-- Counts the labels of some records on top of others. -/
def countLabels (total : Nat) : List LabelledRecord → Checked Nat
  | [] => .ok total
  | entry :: rest => do
      let next ← add total entry.labels.length
      countLabels next rest

/-- Writes the records of a source under the offset tables of a target. -/
def minify (options : Options) (source target : Artifact) :
    Checked (Logged (Except Report Output)) := do
  match ← linearize options.order source target.offsets with
  | .error e => return ⟨[], .error (.placement e)⟩
  | .ok placements => do
      let uncovered ← uncoveredEntries target.offsets placements
      let text ← render target.offsets placements options.payload
      let sourceLabels ← countLabels 0 source.records
      let statistics : Statistics :=
        { tables := target.offsets.tableCount
          offsetEntries := target.offsets.size
          sourceLabels
          distinctRecords := placements.length
          uncoveredEntries := uncovered.length }
      return ⟨uncovered.map fun entry => .uncovered entry.label entry.table,
        .ok { text, statistics }⟩

/-- Reads a source and a target, the source first, and minifies them. -/
def minifyTexts (options : Options) (source target : NamedText) :
    Checked (Logged (Except Report Output)) :=
  andThen (parseNamed options.entrySize source) fun sourceArtifact =>
    andThen (parseNamed options.entrySize target) fun targetArtifact =>
      minify options sourceArtifact targetArtifact

section Minifying

variable {options : Options}

theorem countLabels_eq {total : Nat} {records : List LabelledRecord}
    (h : total + (records.flatMap (·.labels)).length < sizeBound) :
    countLabels total records = .ok (total + (records.flatMap (·.labels)).length) := by
  induction records generalizing total with
  | nil => rfl
  | cons entry rest ih =>
      rw [List.flatMap_cons, List.length_append, ← Nat.add_assoc] at h ⊢
      rw [countLabels, add_eq (Nat.lt_of_le_of_lt (Nat.le_add_right _ _) h), ok_bind, ih h]

/-- A sound source and a target whose labels and entries can be counted are minified
without a fault. -/
theorem minify_eq {source target : Artifact} (hsource : source.WellFormed options.entrySize)
    (hcount : source.labelCount < sizeBound) (hsize : target.offsets.size < sizeBound) :
    minify options source target =
      .ok ((SpriteTables.minify options source target).mapError Report.of) := by
  rw [minify, linearize_eq hsize, ok_bind, SpriteTables.minify]
  cases hplaced : SpriteTables.linearize options.order source target.offsets with
  | error e => rfl
  | ok placements =>
      have hlabels : countLabels 0 source.records = .ok source.labelCount := by
        rw [countLabels_eq (by rwa [Nat.zero_add]), Nat.zero_add]
        rfl
      simp only
      rw [uncoveredEntries_eq (lt_size_of_linearize hsource hplaced), ok_bind, render_eq, ok_bind,
        hlabels, ok_bind]
      rfl

/-- No text that fits into memory makes minifying fault, for any entry size, width and order.
The result is an output or a failure, the one that minifying without checks gives, and the
line of a diagnostic is found. -/
theorem minifyTexts_eq {source target : NamedText} (hsource : Addressable source.text)
    (htarget : Addressable target.text) (options : Options) :
    minifyTexts options source target =
      .ok ((SpriteTables.minifyTexts options source target).mapError Report.of) := by
  have hbound : ∀ {text : String} {n : Nat}, Addressable text → n ≤ byteSize text.toList + 1 →
      n < sizeBound := by
    intro text n htext hn
    rw [Addressable] at htext
    rw [sizeBound]
    omega
  rw [minifyTexts, SpriteTables.minifyTexts, mapError_andThen, parseNamed_eq hsource]
  apply andThen_eq
  intro s hs
  have hs := Logged.mapError_eq_ok_iff.mp (Logged.mapError_eq_ok_iff.mp hs)
  rw [mapError_andThen, parseNamed_eq htarget]
  apply andThen_eq
  intro t ht
  have ht := Logged.mapError_eq_ok_iff.mp (Logged.mapError_eq_ok_iff.mp ht)
  apply minify_eq (wellFormed_of_parse hs)
  · exact hbound hsource (labelCount_le_of_parse hs)
  · exact hbound htarget (size_le_of_parse ht)

end Minifying

/-- With the greatest entry size a text with a character of two bytes is minified onto two
tables read in step and onto a target without tables. -/
theorem minifyTexts_eq_of_greatest_entrySize :
    minifyTexts ⟨0xFFFFFFFFFFFFFFFF, .byte, .interleaved⟩
      ⟨"s.asm", "\tdc.w A-T,B-T\nA: dc.w 0 ; \u00e9\nB:\n\tdc.b 0,-0\n"⟩
      ⟨"t.asm", "\tdc.w B-T,A-U\n"⟩ =
        .ok ⟨[.switchedToData "A"],
          .ok ⟨"T:\n\t\tdc.w B-T\nU:\n\t\tdc.w A-U\nA:\nB:\n\t\tdc.w 0\n", ⟨2, 2, 2, 1, 0⟩⟩⟩ ∧
    minifyTexts ⟨0xFFFFFFFFFFFFFFFF, .byte, .interleaved⟩
      ⟨"s.asm", "\tdc.w A-T,B-T\nA: dc.w 0 ; \u00e9\nB:\n\tdc.b 0,-0\n"⟩ ⟨"t.asm", ""⟩ =
        .ok ⟨[.switchedToData "A"], .error (.placement (.unknownLabel "A"))⟩ := by
  have hsource : Addressable (NamedText.text
      ⟨"s.asm", "\tdc.w A-T,B-T\nA: dc.w 0 ; \u00e9\nB:\n\tdc.b 0,-0\n"⟩) := by
    rw [Addressable]
    decide +kernel
  have htarget : Addressable (NamedText.text ⟨"t.asm", "\tdc.w B-T,A-U\n"⟩) := by
    rw [Addressable]
    decide +kernel
  have hempty : Addressable (NamedText.text ⟨"t.asm", ""⟩) := by
    rw [Addressable]
    decide +kernel
  constructor
  · rw [minifyTexts_eq hsource htarget]
    apply congrArg Except.ok
    simp only [SpriteTables.minifyTexts, SpriteTables.minify, linearize_eq_insertionSort]
    decide +kernel
  · rw [minifyTexts_eq hsource hempty]
    apply congrArg Except.ok
    simp only [SpriteTables.minifyTexts, SpriteTables.minify, linearize_eq_insertionSort]
    decide +kernel

end SpriteTables.Guarded
