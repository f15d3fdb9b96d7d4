import SpriteTables.Proofs.Artifact.Switch
import SpriteTables.Proofs.Statement.Places
import SpriteTables.Proofs.Text.Numbered

/-!
# How much a text can hold

Lines and operands stand one after the other in their text, so there are not many more of them
than the text has bytes (`length_linesOf_le`, `length_operandsOf_le`). Every offset entry has an
operand of its own and every label a line of its own, and so the text bounds what is counted in
the artifact read from it (`size_le_of_parse`, `labelCount_le_of_parse`).
-/

set_option autoImplicit false

namespace SpriteTables

open Text (Line Piece Span byteSize linesOf)

/-! ## Lines and operands -/

/-- Stretches between two offsets that stand one after the other take a byte each, the last
one excepted. -/
theorem Text.Piece.length_le {pieces : List Piece} {start stop : Nat}
    (h : pieces.Pairwise Piece.Before) (hstart : ∀ p ∈ pieces, start ≤ p.start)
    (hstop : ∀ p ∈ pieces, p.span.stop ≤ stop) : pieces.length ≤ stop + 1 - start := by
  induction pieces generalizing start with
  | nil => exact Nat.zero_le _
  | cons p rest ih =>
      obtain ⟨hp, hrest⟩ := List.pairwise_cons.mp h
      obtain ⟨hfirst, -⟩ := List.forall_mem_cons.mp hstart
      obtain ⟨hend, hends⟩ := List.forall_mem_cons.mp hstop
      have hle : p.start ≤ p.span.stop := p.start_le_stop
      have hbehind : ∀ q ∈ rest, start + 1 ≤ q.start := by
        intro q hq
        have hlt : p.span.stop < q.start := hp q hq
        omega
      have hlength := ih hrest hbehind hends
      rw [List.length_cons]
      omega

/-- Stretches of a text that stand one after the other are at most one more than its bytes. -/
theorem Text.Piece.length_le_of_whole {text : String} {pieces : List Piece}
    (h : pieces.Pairwise Piece.Before) (hin : ∀ p ∈ pieces, p.In (Piece.whole text)) :
    pieces.length ≤ byteSize text.toList + 1 := by
  have hstart : ∀ p ∈ pieces, 0 ≤ p.start := fun p _ => Nat.zero_le p.start
  have hstop : ∀ p ∈ pieces, p.span.stop ≤ byteSize text.toList := fun p hp =>
    (hin p hp).stop_le_byteSize
  exact Text.Piece.length_le h hstart hstop

section Texts

variable {text : String} {line : Line}

theorem length_linesOf_le (text : String) : (linesOf text).length ≤ byteSize text.toList + 1 := by
  rw [← List.length_map (·.toPiece)]
  apply Text.Piece.length_le_of_whole
  · exact List.pairwise_map.mpr (Text.pairwise_before_linesOf text)
  · intro p hp
    obtain ⟨line, hline, rfl⟩ := List.mem_map.mp hp
    exact Text.line_in_whole hline

/-- The operands of a line are stretches of it, one after the other. -/
theorem operandsOn_in (line : Line) :
    (∀ o ∈ operandsOn line, o.toPiece.In line.toPiece) ∧
      (operandsOn line).Pairwise fun a b => a.toPiece.Before b.toPiece := by
  rw [operandsOn]
  split
  · next hs => exact (Statement.directive_in hs rfl).2
  · exact ⟨fun o ho => absurd ho List.not_mem_nil, List.Pairwise.nil⟩

theorem length_operandsOf_le (text : String) :
    (operandsOf (linesOf text)).length ≤ byteSize text.toList + 1 := by
  rw [← List.length_map (·.toPiece)]
  apply Text.Piece.length_le_of_whole
  · refine List.pairwise_map.mpr (List.pairwise_flatMap.mpr ⟨?_, ?_⟩)
    · intro line _
      exact (operandsOn_in line).2
    · -- operands of different lines stand as the lines do
      apply (Text.pairwise_before_linesOf text).imp
      intro a b hab o ho p hp
      exact hab.of_in ((operandsOn_in a).1 o ho) ((operandsOn_in b).1 p hp)
  · intro p hp
    obtain ⟨o, ho, rfl⟩ := List.mem_map.mp hp
    obtain ⟨line, hline, hon⟩ := List.mem_flatMap.mp ho
    exact ((operandsOn_in line).1 o hon).trans (Text.line_in_whole hline)

theorem upToEnd_isPrefix (lines : List Line) : upToEnd lines <+: lines := by
  induction lines with
  | nil => exact List.prefix_refl []
  | cons line rest ih =>
      rw [upToEnd]
      split
      · exact ⟨rest, rfl⟩
      · exact List.prefix_cons_inj line |>.mpr ih

end Texts

/-! ## Offset entries -/

namespace Draft

variable {entrySize : Nat} {d next : Draft} {done : List Line} {line : Line} {verdict : Verdict}

/-- Every offset entry has an operand of its own. -/
theorem Reaches.length_declared_le (h : Reaches entrySize done d verdict)
    (hverdict : ∀ e, verdict ≠ .failed e) : d.declared.length ≤ (operandsOf done).length := by
  have hlength : ∀ {operands : List Operand} {declared : List Declaration},
      operands.map declarationOf? = declared.map some → operands.length = declared.length := by
    intro operands declared heq
    simpa using congrArg List.length heq
  rcases h.inTables_or_among hverdict with ⟨-, htables⟩ | ⟨before, other, after, _, rfl, -, -,
    hamong, -⟩
  · exact Nat.le_of_eq (hlength htables.declared_eq).symm
  · rw [operandsOf_append, List.length_append, ← hlength hamong.declared_eq]
    exact Nat.le_add_right _ _

/-! ## Labels -/

/-- How many labels are bound or wait. -/
def labelTotal (d : Draft) : Nat :=
  d.bindings.length + d.pending.length

theorem length_bindAll_le (bindings : List Binding) (record : Record) (labels : List Label) :
    (bindAll bindings record labels).length ≤ bindings.length + labels.length := by
  induction labels generalizing bindings with
  | nil => exact Nat.le_refl _
  | cons label rest ih =>
      have hrest := ih (bindLabel record bindings label)
      have hlabel : (bindLabel record bindings label).length ≤ bindings.length + 1 := by
        rw [bindLabel]
        split
        · simp
        · exact Nat.le_succ _
      have hstep : bindAll bindings record (label :: rest) =
          bindAll (bindLabel record bindings label) record rest := rfl
      rw [hstep, List.length_cons]
      omega

theorem labelTotal_labelled_le (d : Draft) (label : Option Label) :
    (d.labelled label).labelTotal ≤ d.labelTotal + 1 := by
  cases label with
  | none => exact Nat.le_succ _
  | some label =>
      rw [labelled, declareLabel]
      split
      · simp [labelTotal, Nat.add_assoc]
      · simp [labelTotal]

/-- A record binds the labels that waited. -/
theorem labelTotal_settle_le (d : Draft) (start : Span) (outcome : Except Diagnostic Progress) :
    (d.settle start outcome).1.labelTotal ≤ d.labelTotal := by
  rcases outcome with e | reading | record
  · exact Nat.le_refl _
  · exact Nat.le_refl _
  · rw [settle]
    split
    · exact Nat.le_refl _
    · next hbind =>
        obtain ⟨-, -, rfl⟩ := bind_eq_ok hbind
        exact length_bindAll_le d.bindings record d.pending

theorem labelTotal_readDirective_le (d : Draft) (directive : Directive) :
    (d.readDirective directive).1.labelTotal ≤ d.labelTotal := by
  rw [readDirective]
  split
  · split
    · exact Nat.le_refl _
    · next hdeclare =>
        obtain ⟨news, -, rfl⟩ := declareOffsets_eq_ok hdeclare
        exact Nat.le_refl _
  · exact labelTotal_settle_le d _ _

/-- A line adds at most one label. -/
theorem labelTotal_read_le (d : Draft) (line : Line) :
    (d.read line).1.labelTotal ≤ d.labelTotal + 1 := by
  rw [read]
  split
  · exact Nat.le_succ _
  · next s _ =>
      split
      · exact Nat.le_succ_of_le (labelTotal_settle_le d _ _)
      · have hlabelled := labelTotal_labelled_le d s.label
        rw [readStatement_eq]
        split
        · exact hlabelled
        · exact hlabelled
        · exact Nat.le_trans (labelTotal_readDirective_le _ _) hlabelled

/-- Every label has a line of its own. -/
theorem Reaches.labelTotal_le (h : Reaches entrySize done d verdict) :
    d.labelTotal ≤ done.length := by
  induction h with
  | start => exact Nat.le_refl 0
  | @line done d next verdict line hdone hread ih =>
      have hline := labelTotal_read_le d line
      rw [hread] at hline
      rw [List.length_append, List.length_singleton]
      exact Nat.le_trans hline (Nat.succ_le_succ ih)

end Draft

/-! ## Artifacts -/

section Artifacts

variable {entrySize : Nat} {text : String} {a : Artifact}

/-- An artifact has at most one offset entry more than its text has bytes. -/
theorem size_le_of_parse (h : (Artifact.parse entrySize text).value = .ok a) :
    a.offsets.size ≤ byteSize text.toList + 1 := by
  obtain ⟨d, verdict, hreaches, hverdict, rfl, -⟩ := Draft.reaches_of_parse h
  have hread : (operandsOf (linesRead text)).length ≤ (operandsOf (linesOf text)).length := by
    obtain ⟨back, hback⟩ : linesRead text <+: linesOf text := upToEnd_isPrefix (linesOf text)
    rw [← hback, operandsOf_append, List.length_append]
    exact Nat.le_add_right _ _
  have hdeclared := hreaches.length_declared_le hverdict
  have hsize : d.artifact.offsets.size = d.declared.length := List.length_map _
  rw [hsize]
  exact Nat.le_trans hdeclared (Nat.le_trans hread (length_operandsOf_le text))

/-- An artifact has at most one label more than its text has bytes. -/
theorem labelCount_le_of_parse (h : (Artifact.parse entrySize text).value = .ok a) :
    a.labelCount ≤ byteSize text.toList + 1 := by
  have hwell := wellFormed_of_parse h
  obtain ⟨d, verdict, hreaches, -, rfl, -⟩ := Draft.reaches_of_parse h
  have hlines : (linesRead text).length ≤ byteSize text.toList + 1 :=
    Nat.le_trans (upToEnd_isPrefix (linesOf text)).length_le (length_linesOf_le text)
  -- the labels of the records are different, and each of them is bound
  have hlabels : d.artifact.labelCount ≤ (d.bindings.map (·.label)).length := by
    apply (Artifact.nodup_flatMap_labels hwell).length_le_of_subset
    intro label hlabel
    obtain ⟨entry, hentry, hmem⟩ := List.mem_flatMap.mp hlabel
    obtain ⟨b, hb, -, hbound⟩ :=
      ((LabelledRecord.gathered_gather d.bindings).mem_labels hentry).mp hmem
    exact List.mem_map.mpr ⟨b, hb, hbound⟩
  have htotal := hreaches.labelTotal_le
  rw [Draft.labelTotal] at htotal
  rw [List.length_map] at hlabels
  omega

end Artifacts

end SpriteTables
