import SpriteTables.Proofs.Text.Places
import SpriteTables.Text.Line

/-!
# Lines in their text

The lines of a text come with numbers and offsets. A byte offset has a line of its own, found by
counting the offsets at which lines begin. This module says that both views agree: inside a line,
its end included, every offset is on the line with that number (`line_positionAt`). Lines are
stretches of the text, one after the other (`pairwise_before_linesOf`).
-/

set_option autoImplicit false

namespace SpriteTables.Text

variable {text : String} {line : Line}

/-! ## Numbered pieces -/

theorem Piece.dropFinalReturn_in (p : Piece) : p.dropFinalReturn.In p := by
  rw [dropFinalReturn]
  split
  · next hlast =>
      obtain ⟨front, hfront⟩ := List.getLast?_eq_some_iff.mp hlast
      exact ⟨[], ['\r'], by simp [hfront], by simp⟩
  · exact In.refl p

/-- A numbered line is one of the pieces, less a final return, and its number tells how
many pieces come before it. -/
theorem mem_numberLines {number : Nat} {pieces : List Piece}
    (h : line ∈ numberLines number pieces) :
    ∃ front piece back, pieces = front ++ piece :: back ∧
      line.toPiece = piece.dropFinalReturn ∧ line.number = number + front.length := by
  induction pieces generalizing number with
  | nil => cases h
  | cons piece rest ih =>
      cases rest with
      | nil =>
          rw [numberLines] at h
          split at h
          · cases h
          · rw [List.mem_singleton.mp h]
            exact ⟨[], piece, [], rfl, rfl, rfl⟩
      | cons next others =>
          rw [numberLines] at h
          · rcases List.mem_cons.mp h with rfl | h
            · exact ⟨[], piece, next :: others, rfl, rfl, rfl⟩
            · obtain ⟨front, found, back, hsplit, hpiece, hnumber⟩ := ih h
              refine ⟨piece :: front, found, back, by rw [hsplit, List.cons_append], hpiece, ?_⟩
              rw [hnumber, List.length_cons]
              omega
          · exact List.cons_ne_nil next others

/-- Lines are stretches of their text. -/
theorem line_in_whole (h : line ∈ linesOf text) : line.toPiece.In (Piece.whole text) := by
  obtain ⟨front, piece, back, hsplit, hpiece, -⟩ := mem_numberLines h
  have hmem : piece ∈ (Piece.whole text).splitOn '\n' := by simp [hsplit]
  rw [hpiece]
  exact piece.dropFinalReturn_in.trans (Piece.in_of_mem_splitOn hmem)

theorem pairwise_before_numberLines {pieces : List Piece} (h : pieces.Pairwise Piece.Before)
    (number : Nat) :
    (numberLines number pieces).Pairwise fun a b => a.toPiece.Before b.toPiece := by
  induction pieces generalizing number with
  | nil => exact List.Pairwise.nil
  | cons piece rest ih =>
      obtain ⟨hpiece, hrest⟩ := List.pairwise_cons.mp h
      cases rest with
      | nil =>
          rw [numberLines]
          split
          · exact List.Pairwise.nil
          · exact List.pairwise_singleton _ _
      | cons next others =>
          rw [numberLines]
          · refine List.pairwise_cons.mpr ⟨?_, ih hrest _⟩
            intro line hline
            obtain ⟨front, found, back, hsplit, hfound, -⟩ := mem_numberLines hline
            have hmem : found ∈ next :: others := by simp [hsplit]
            rw [hfound]
            exact (hpiece found hmem).of_in piece.dropFinalReturn_in found.dropFinalReturn_in
          · exact List.cons_ne_nil next others

/-- Lines stand one after the other. -/
theorem pairwise_before_linesOf (text : String) :
    (linesOf text).Pairwise fun a b => a.toPiece.Before b.toPiece :=
  pairwise_before_numberLines (Piece.pairwise_before_splitOn _) 1

/-! ## Offsets at which lines begin -/

/-- Pieces between line feeds begin at the start and after each line feed. -/
theorem map_start_locate_splitOn (start : Nat) (cs : List Char) :
    (Piece.locate '\n' start (cs.splitOn '\n')).map (·.start) =
      start :: startsAfterFeeds start cs := by
  induction cs generalizing start with
  | nil => rfl
  | cons c cs ih =>
      obtain ⟨piece, others, hsplit⟩ := List.exists_cons_of_ne_nil (List.splitOn_ne_nil '\n' cs)
      simp only [List.splitOn_cons_eq_if_modifyHead, beq_iff_eq, startsAfterFeeds]
      by_cases hc : c = '\n'
      · subst hc
        rw [if_pos rfl, if_pos rfl, ← ih]
        rfl
      · -- the first piece grows by the character, and the others stay where they are
        have hrest := ih (start + c.utf8Size)
        rw [hsplit, Piece.locate, List.map_cons, List.cons.injEq] at hrest
        rw [if_neg hc, if_neg hc, hsplit, ← hrest.2, List.modifyHead_cons, Piece.locate,
          List.map_cons, byteSize_cons,
          ← Nat.add_assoc start]

theorem map_start_splitOn (text : String) :
    ((Piece.whole text).splitOn '\n').map (·.start) = lineStarts text :=
  map_start_locate_splitOn 0 text.toList

/-- The line of an offset inside a piece between line feeds: the starts up to the piece's
own are at or before the offset, and the next one is after it. -/
theorem takeWhile_starts {front back : List Piece} {piece : Piece} {offset : Nat}
    (h : (front ++ piece :: back).Pairwise Piece.Before) (hstart : piece.span.start ≤ offset)
    (hstop : offset ≤ piece.span.stop) :
    ((front ++ piece :: back).map (·.start)).takeWhile (· ≤ offset) =
      (front ++ [piece]).map (·.start) := by
  obtain ⟨-, hback, hfront⟩ := List.pairwise_append.mp h
  have hpass : ∀ start ∈ front.map (·.start), decide (start ≤ offset) = true := by
    intro start hmem
    obtain ⟨earlier, hearlier, rfl⟩ := List.mem_map.mp hmem
    have hlt : earlier.span.stop < piece.start := hfront earlier hearlier piece (by simp)
    have hle := earlier.start_le_stop
    simp only [Piece.span] at hlt hle hstart
    simp only [decide_eq_true_eq]
    omega
  have hown : piece.start ≤ offset := hstart
  rw [List.map_append, List.takeWhile_append_of_pos hpass, List.map_append, List.map_cons,
    List.takeWhile_cons_of_pos (by simpa using hown)]
  cases back with
  | nil => rfl
  | cons next others =>
      have hlt : piece.span.stop < next.start :=
        (List.pairwise_cons.mp hback).1 next List.mem_cons_self
      rw [List.map_cons, List.takeWhile_cons_of_neg]
      · rfl
      · simp only [decide_eq_true_eq]
        omega

/-- An offset within a line, its end included, is on the line of that number. -/
theorem line_positionAt (h : line ∈ linesOf text) {offset : Nat}
    (hstart : line.span.start ≤ offset) (hstop : offset ≤ line.span.stop) :
    (positionAt text offset).line = line.number := by
  obtain ⟨front, piece, back, hsplit, hpiece, hnumber⟩ := mem_numberLines h
  have hin : line.toPiece.In piece := by
    rw [hpiece]
    exact piece.dropFinalReturn_in
  have hordered : ((Piece.whole text).splitOn '\n').Pairwise Piece.Before :=
    Piece.pairwise_before_splitOn _
  rw [hsplit] at hordered
  have hbegun := takeWhile_starts hordered (Nat.le_trans hin.start_le hstart)
    (Nat.le_trans hstop hin.stop_le)
  rw [← hsplit, map_start_splitOn] at hbegun
  rw [positionAt, hbegun, hnumber]
  simp [Nat.add_comm]

end SpriteTables.Text
