import SpriteTables.Proofs.Artifact.Stepwise
import SpriteTables.Proofs.Text.Joined

/-!
# Nothing after the end is read

A reading that stops before its text does never sees what follows. So a text whose reading comes
to the line that ends the artifact, or to a diagnostic about one of its lines, may be followed by
any other text, and what is read or reported stays the same (`parse_append_of_stopped`). A record
that the text cuts off is no such diagnostic, and is told from the others by its hint
(`hints_cutOff`).
-/

set_option autoImplicit false

namespace SpriteTables

open Text (Line linesOf)

section Stopping

variable {entrySize : Nat} {text : String} {d next : Draft}

/-- A reading that goes on has not come to the line that ends the artifact. -/
theorem Draft.endsArtifact_of_run {lines : List Line} (h : d.run lines = (next, .reading)) :
    ∀ line ∈ lines, endsArtifact line = false := by
  induction lines generalizing d with
  | nil =>
      intro line hline
      cases hline
  | cons first rest ih =>
      rw [run] at h
      generalize hread : d.read first = outcome at h
      obtain ⟨after, verdict⟩ := outcome
      cases verdict with
      | reading =>
          intro line hline
          rcases List.mem_cons.mp hline with rfl | hline
          · exact endsArtifact_of_read hread
          · exact ih h line hline
      | ended => cases h
      | failed e => cases h

/-- The diagnostic of a record that the text cuts off says that the text ends. -/
theorem Reading.hints_cutOff (r : Reading) :
    Hint.endsMidWord ∈ r.cutOff.hints ∨ Hint.endsMidRecord ∈ r.cutOff.hints := by
  rw [cutOff]
  cases r.half with
  | none => right; simp [Diagnostic.advise]
  | some high => left; simp [Diagnostic.advise]

/-- The reading of a text stops before the text does: it comes to the line that ends the
artifact, or to a diagnostic other than that the text ends inside a record. -/
def Artifact.StopsEarly (entrySize : Nat) (text : String) : Prop :=
  match (Artifact.parse entrySize text).value with
  | .ok _ => ∃ line ∈ linesOf text, endsArtifact line = true
  | .error e => Hint.endsMidWord ∉ e.hints ∧ Hint.endsMidRecord ∉ e.hints

/-- A reading that stops before its text does is not still reading at the last line. -/
theorem stopped_of_parse (h : Artifact.StopsEarly entrySize text) :
    ∀ next, Draft.run { entrySize } (linesOf text) ≠ (next, .reading) := by
  intro next hrun
  rw [Artifact.StopsEarly, Artifact.parse, hrun, Draft.conclude.eq_def] at h
  cases hunderway : next.underway with
  | none =>
      simp only [hunderway] at h
      obtain ⟨line, hline, hends⟩ := h
      rw [Draft.endsArtifact_of_run hrun line hline] at hends
      cases hends
  | some begun =>
      simp only [hunderway] at h
      rcases begun.2.hints_cutOff with hword | hrecord
      · exact h.1 hword
      · exact h.2 hrecord

end Stopping

/-- Nothing after the place where a reading stopped matters: if the text ends with a line
feed, any other text may follow it, and the artifact or the diagnostic with all its places
and hints stays the same, as do the remarks. -/
theorem parse_append_of_stopped {entrySize : Nat} {text : String}
    (hfeed : text.toList.getLast? = some '\n') (hstops : Artifact.StopsEarly entrySize text)
    (rest : String) :
    Artifact.parse entrySize (text ++ rest) = Artifact.parse entrySize text := by
  obtain ⟨more, hlines⟩ := Text.linesOf_append hfeed rest
  have hrun : Draft.run { entrySize } (linesOf text ++ more) =
      Draft.run { entrySize } (linesOf text) := by
    rw [Draft.run_append]
    generalize hstopped : Draft.run { entrySize } (linesOf text) = outcome
    obtain ⟨next, verdict⟩ := outcome
    cases verdict with
    | reading => exact absurd hstopped (stopped_of_parse hstops next)
    | ended => rfl
    | failed e => rfl
  rw [Artifact.parse, Artifact.parse, hlines, hrun]

/-- A text that ends its artifact on the line of a label is read as before, whatever
follows. -/
theorem parse_append_of_stopped_on_label :
    "\tdc.w A-T\nA: dc.w 0\nB: even\n".toList.getLast? = some '\n' ∧
      Artifact.StopsEarly 1 "\tdc.w A-T\nA: dc.w 0\nB: even\n" ∧
      Artifact.parse 1 ("\tdc.w A-T\nA: dc.w 0\nB: even\n" ++ "A:\n\tdc.l ?:;") =
        Artifact.parse 1 "\tdc.w A-T\nA: dc.w 0\nB: even\n" := by
  have hfeed : "\tdc.w A-T\nA: dc.w 0\nB: even\n".toList.getLast? = some '\n' := by decide
  have hstops : Artifact.StopsEarly 1 "\tdc.w A-T\nA: dc.w 0\nB: even\n" := by
    have hvalue : (Artifact.parse 1 "\tdc.w A-T\nA: dc.w 0\nB: even\n").value =
        .ok ⟨⟨[⟨"A", "T"⟩]⟩, [⟨⟨0, []⟩, ["A"]⟩]⟩ := by
      decide +kernel
    have hlast : ⟨⟨20, "B: even".toList⟩, 3⟩ ∈ linesOf "\tdc.w A-T\nA: dc.w 0\nB: even\n" := by
      decide
    rw [Artifact.StopsEarly, hvalue]
    exact ⟨_, hlast, by decide +kernel⟩
  exact ⟨hfeed, hstops, parse_append_of_stopped hfeed hstops _⟩

end SpriteTables
