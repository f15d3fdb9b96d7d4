import SpriteTables.Proofs.Artifact.History

/-!
# Tables first, then records

An artifact that can be read has two parts. The line that separates them is the first one to
declare a label that an offset entry before it refers to. Above it directives declare offset
entries, and labels name nothing; from it on directives hold records, and labels name the records
below them. `tables_before_records_of_parse` states both parts and the one switch between them.
-/

set_option autoImplicit false

namespace SpriteTables

open Text (Span Line linesOf)

namespace Draft

variable {entrySize : Nat} {d : Draft} {verdict : Verdict} {done : List Line}

/-! ## The draft of an artifact -/

theorem Reaches.sound (h : Reaches entrySize done d verdict) : d.Sound entrySize := by
  induction h with
  | start => exact sound_start entrySize
  | @line done d next verdict line hdone hread ih =>
      have hsound := sound_read ih line
      rw [hread] at hsound
      exact hsound

/-- The last line of a reading that ended is the one that ends the artifact. -/
theorem Reaches.exists_endsArtifact (h : Reaches entrySize done d .ended) :
    ∃ front last, done = front ++ [last] ∧ endsArtifact last = true := by
  cases h with
  | @line front d' _ _ last hdone hread =>
      obtain ⟨s, hstatement, hbody, -⟩ := read_eq_ended hread
      exact ⟨front, last, rfl, endsArtifact_iff.mpr ⟨s, hstatement, hbody⟩⟩

/-- An artifact is made of the draft that the lines up to its end lead to. -/
theorem reaches_of_parse {text : String} {a : Artifact}
    (h : (Artifact.parse entrySize text).value = .ok a) :
    ∃ d verdict, Reaches entrySize (linesRead text) d verdict ∧ (∀ e, verdict ≠ .failed e) ∧
      d.artifact = a ∧ (Artifact.parse entrySize text).log = d.log ++ d.closingRemarks := by
  rw [Artifact.parse, ← run_upToEnd] at h ⊢
  generalize hrun : Draft.run { entrySize } (upToEnd (linesOf text)) = outcome at h ⊢
  obtain ⟨d, verdict⟩ := outcome
  obtain ⟨front, back, hlines, hreaches, hback⟩ := exists_reaches_of_run hrun
  -- whatever the verdict, all lines up to the end were read
  have hall : back = [] → Reaches entrySize (linesRead text) d verdict := by
    intro hnil
    rw [linesRead, hlines, hnil, List.append_nil]
    exact hreaches
  cases verdict with
  | failed e => cases h
  | ended =>
      cases h
      obtain ⟨front', last, rfl, hends⟩ := hreaches.exists_endsArtifact
      rw [List.append_assoc, List.singleton_append] at hlines
      exact ⟨d, .ended, hall (eq_nil_of_upToEnd hlines hends), by simp, rfl, rfl⟩
  | reading =>
      rw [conclude.eq_def] at h ⊢
      cases hunderway : d.underway with
      | some begun =>
          simp only [hunderway] at h
          cases h
      | none =>
          simp only [hunderway] at h ⊢
          cases h
          exact ⟨d, .reading, hall (hback rfl), by simp, rfl, rfl⟩

/-- A label names the record at its first place. -/
theorem recordOf?_artifact_iff (h : d.Sound entrySize) {name : String} {record : Record} :
    d.artifact.recordOf? name = some record ↔
      ∃ span, d.placeOf? [] name = some (span, some record) := by
  rw [Artifact.recordOf?_eq_some_iff h.wellFormed]
  refine ((LabelledRecord.gathered_gather d.bindings).mem_labels_iff record name).trans ?_
  simp only [placeOf?_nil_eq_some_iff]
  constructor
  · intro hbinds
    cases hfound : bindingOf? d.bindings name with
    | none => exact absurd hbinds (bindingOf?_eq_none_iff.mp hfound record)
    | some binding =>
        exact ⟨binding.first, binding, rfl, rfl,
          h.functional _ _ _ (binds_of_bindingOf? hfound) hbinds⟩
  · rintro ⟨span, binding, hfound, -, rfl⟩
    exact binds_of_bindingOf? hfound

/-- The entries that operands declare have the labels and tables that these name. -/
theorem map_reference?_of_declared {operands : List Operand} {declared : List Declaration}
    (h : operands.map declarationOf? = declared.map some) :
    operands.map Operand.reference? =
      (OffsetTable.ofDeclarations declared).entries.map fun e => some (e.label, e.table) := by
  have hnames : ∀ o : Operand,
      (declarationOf? o).map (fun e => (e.label, e.table)) = o.reference? := by
    intro o
    rw [declarationOf?, Option.map_map]
    exact Option.map_id'
  calc operands.map Operand.reference?
      = (operands.map declarationOf?).map (Option.map fun e => (e.label, e.table)) := by
        simp only [List.map_map, Function.comp_def, hnames]
    _ = (OffsetTable.ofDeclarations declared).entries.map fun e => some (e.label, e.table) := by
        rw [h, OffsetTable.ofDeclarations]
        simp only [List.map_map, Function.comp_def, Option.map_some]

/-- A reading holds records once it has read the line that switches, and not before. -/
theorem mode_eq_data_iff_of_run {before after : List Line} {line : Line}
    (hswitches : Switches before line) (hdone : done <+: before ++ line :: after)
    (hrun : Draft.run { entrySize } done = (d, .reading)) :
    d.mode = .data ↔ before.length < done.length := by
  obtain ⟨back, hback⟩ := hdone
  rcases (reaches_of_run hrun).inTables_or_among (by simp) with ⟨hstay, htables⟩ |
    ⟨before', line', after', _, rfl, hswitches', -, hamong, -⟩
  · rw [htables.mode_eq]
    simp only [reduceCtorEq, false_iff, Nat.not_lt]
    rcases List.append_eq_append_iff.mp hback with ⟨more, rfl, -⟩ | ⟨more, rfl, hmore⟩
    · simp
    · cases more with
      | nil => simp
      | cons first more =>
          obtain ⟨rfl, -⟩ := List.cons.inj hmore
          exact absurd hswitches.2 (hstay before line more rfl)
  · rw [List.append_assoc, List.cons_append] at hback
    obtain ⟨rfl, -, -⟩ := hswitches'.unique hswitches hback
    simp [hamong.mode_eq]

end Draft

/-! ## The switch -/

/-- The labels at which a log remarks that the records begin. -/
def switchLabels (log : List LogEvent) : List String :=
  log.filterMap fun
    | .switchedToData label => some label
    | _ => none

/-- Closing remarks are about other things. -/
theorem switchLabels_append_closingRemarks (log : List LogEvent) (d : Draft) :
    switchLabels (log ++ d.closingRemarks) = switchLabels log := by
  rw [Draft.closingRemarks]
  split <;> simp [switchLabels]

/-- An artifact has tables first and records after them. If a line is the first to declare a
label that an entry before it refers to, the offset entries are those that the operands of
all directives above it name, in order, and a label names the record below the first line
from this one on that declares it, so that every record begins on this line or below. A
reading holds records from this line on and never before, and it remarks the switch once, by
the label of the line. If there is no such line, there is no record, all operands name offset
entries, and no switch is remarked. -/
theorem tables_before_records_of_parse {entrySize : Nat} {text : String} {a : Artifact}
    (h : (Artifact.parse entrySize text).value = .ok a) :
    (∀ before line after, linesRead text = before ++ line :: after → Switches before line →
      (operandsOf before).map Operand.reference? =
        a.offsets.entries.map (fun e => some (e.label, e.table)) ∧
      (∀ name record, a.recordOf? name = some record ↔
        ∃ span, firstPlace? entrySize name (line :: after) = some (span, some record)) ∧
      (∀ entry ∈ a.records, entry.labels ≠ [] ∧ ∀ name ∈ entry.labels,
        ∃ above declaring below label, line :: after = above ++ declaring :: below ∧
          labelOf? declaring = some label ∧ label.name = name ∧
          recordBelow? entrySize (declaring :: below) = some entry.record) ∧
      (∀ front d, front <+: linesRead text → Draft.run { entrySize } front = (d, .reading) →
        (d.mode = .data ↔ before.length < front.length)) ∧
      ∃ label, labelOf? line = some label ∧
        switchLabels (Artifact.parse entrySize text).log = [label.name]) ∧
    (StayInTables (linesRead text) →
      a.records = [] ∧
      (operandsOf (linesRead text)).map Operand.reference? =
        a.offsets.entries.map (fun e => some (e.label, e.table)) ∧
      switchLabels (Artifact.parse entrySize text).log = []) := by
  obtain ⟨d, verdict, hreaches, hverdict, rfl, hlog⟩ := Draft.reaches_of_parse h
  have hsound := hreaches.sound
  rw [hlog, switchLabels_append_closingRemarks]
  constructor
  · intro before line after hlines hswitches
    rcases hreaches.inTables_or_among hverdict with ⟨hstay, -⟩ |
      ⟨before', line', after', label, hlines', hswitches', hlabel, hamong, hplaces⟩
    · exact absurd hswitches.2 (hstay before line after hlines)
    obtain ⟨rfl, rfl, rfl⟩ := hswitches.unique hswitches' (hlines.symm.trans hlines')
    have hrecord : ∀ name record, d.artifact.recordOf? name = some record ↔
        ∃ span, firstPlace? entrySize name (line :: after) = some (span, some record) := by
      intro name record
      have hplace := hplaces name [] (Or.inr rfl)
      rw [List.append_nil] at hplace
      rw [Draft.recordOf?_artifact_iff hsound, hplace]
    refine ⟨Draft.map_reference?_of_declared hamong.declared_eq, hrecord, ?_, ?_, ?_⟩
    · intro entry hentry
      refine ⟨hsound.wellFormed.labels_ne_nil entry hentry, ?_⟩
      intro name hname
      have hfound : d.artifact.recordOf? name = some entry.record :=
        (Artifact.recordOf?_eq_some_iff hsound.wellFormed).mpr ⟨entry, hentry, rfl, hname⟩
      obtain ⟨span, hplace⟩ := (hrecord name entry.record).mp hfound
      obtain ⟨above, declaring, below, label', hsplit, hlabel', hname', heq⟩ :=
        exists_line_of_firstPlace? hplace
      obtain ⟨-, hbelow⟩ := Prod.mk.inj heq
      exact ⟨above, declaring, below, label', hsplit, hlabel', hname', hbelow.symm⟩
    · intro front d' hprefix hrun
      rw [hlines] at hprefix
      exact Draft.mode_eq_data_iff_of_run hswitches hprefix hrun
    · exact ⟨label, hlabel, by rw [hamong.log_eq]; rfl⟩
  · intro hstay
    rcases hreaches.inTables_or_among hverdict with ⟨-, htables⟩ |
      ⟨before, line, after, -, hlines, hswitches, -, -, -⟩
    · refine ⟨?_, Draft.map_reference?_of_declared htables.declared_eq, ?_⟩
      · rw [Draft.artifact, htables.bindings_eq]
        rfl
      · rw [htables.log_eq]
        rfl
    · exact absurd hswitches.2 (hstay before line after hlines)

/-- Labels may stand on the line of a directive. The first line declares a label before its
own operand refers to it, the second one declares a label that names nothing, and the third
one switches. -/
theorem tables_before_records_of_labelled_directives :
    ∃ (a : Artifact) (before after : List Line) (line : Line),
      (Artifact.parse 1
        "A: dc.w A-T, B-T\nX:\nB: dc.w 1, 5\nA:\n\tdc.b 0,0\nX: even\nrest").value = .ok a ∧
      linesRead "A: dc.w A-T, B-T\nX:\nB: dc.w 1, 5\nA:\n\tdc.b 0,0\nX: even\nrest" =
        before ++ line :: after ∧
      before.length = 2 ∧ after.length = 3 ∧ Switches before line ∧
      (operandsOf before).map Operand.reference? =
        a.offsets.entries.map (fun e => some (e.label, e.table)) ∧
      (∀ name record, a.recordOf? name = some record ↔
        ∃ span, firstPlace? 1 name (line :: after) = some (span, some record)) ∧
      switchLabels (Artifact.parse 1
        "A: dc.w A-T, B-T\nX:\nB: dc.w 1, 5\nA:\n\tdc.b 0,0\nX: even\nrest").log = ["B"] := by
  have h : (Artifact.parse 1
      "A: dc.w A-T, B-T\nX:\nB: dc.w 1, 5\nA:\n\tdc.b 0,0\nX: even\nrest").value = .ok
      ⟨⟨[⟨"A", "T"⟩, ⟨"B", "T"⟩]⟩, [⟨⟨1, [5]⟩, ["B"]⟩, ⟨⟨0, []⟩, ["A"]⟩]⟩ := by
    decide +kernel
  let first : Line := ⟨⟨0, "A: dc.w A-T, B-T".toList⟩, 1⟩
  let second : Line := ⟨⟨17, "X:".toList⟩, 2⟩
  let third : Line := ⟨⟨20, "B: dc.w 1, 5".toList⟩, 3⟩
  let others : List Line :=
    [⟨⟨33, "A:".toList⟩, 4⟩, ⟨⟨36, "\tdc.b 0,0".toList⟩, 5⟩, ⟨⟨46, "X: even".toList⟩, 6⟩]
  have hlines : linesRead "A: dc.w A-T, B-T\nX:\nB: dc.w 1, 5\nA:\n\tdc.b 0,0\nX: even\nrest" =
      [first, second] ++ third :: others := by
    decide +kernel
  have hsecond : labelOf? second = some ⟨⟨17, ['X']⟩⟩ := by
    decide +kernel
  have hthird : labelOf? third = some ⟨⟨20, ['B']⟩⟩ := by
    decide +kernel
  have hdeclared : declarationsOf [first] = [⟨⟨"A", "T"⟩, ⟨8, 11⟩⟩, ⟨⟨"B", "T"⟩, ⟨13, 16⟩⟩] := by
    decide +kernel
  have hswitches : Switches [first, second] third := by
    refine ⟨?_, ⟨⟨20, ['B']⟩⟩, hthird, ⟨⟨"B", "T"⟩, ⟨13, 16⟩⟩, ?_, rfl⟩
    · have hstay : StayInTables [first] := by
        refine stayInTables_concat_iff.mpr ⟨stayInTables_nil, ?_⟩
        rintro ⟨label, -, e, he, -⟩
        cases he
      refine stayInTables_concat_iff.mpr ⟨hstay, ?_⟩
      rintro ⟨label, hlabel, e, he, hrefers⟩
      rw [hsecond] at hlabel
      cases hlabel
      rw [hdeclared] at he
      simp only [List.mem_cons, List.not_mem_nil, or_false] at he
      rcases he with rfl | rfl
      · exact absurd hrefers (by decide)
      · exact absurd hrefers (by decide)
    · show _ ∈ declarationsOf ([first] ++ [second])
      rw [declarationsOf_append, hdeclared]
      simp
  obtain ⟨hoffsets, hrecords, -, -, label, hlabel, hlog⟩ :=
    (tables_before_records_of_parse h).1 [first, second] third others hlines hswitches
  rw [hthird] at hlabel
  cases hlabel
  exact ⟨_, [first, second], others, third, h, hlines, rfl, rfl, hswitches, hoffsets, hrecords,
    hlog⟩

end SpriteTables
