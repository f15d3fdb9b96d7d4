import SpriteTables.Proofs.Text.Cuts
import SpriteTables.Listing
import SpriteTables.Text.Line

/-!
# Lines of a written text

Writing ends every line with a line feed, and reading the text gives those lines back, whatever
numbers and offsets they get (`map_chars_linesOf_unlines`).
-/

set_option autoImplicit false

namespace SpriteTables.Text

open Listing (unlines)

/-- A text that holds nothing that ends a line. -/
structure OneLine (text : String) : Prop where
  no_feed : '\n' ∉ text.toList
  no_return : '\r' ∉ text.toList

/-- A written text is its lines, each with a line feed. -/
theorem toList_unlines (texts : List String) :
    (unlines texts).toList = texts.flatMap fun text => text.toList ++ ['\n'] := by
  rw [unlines, String.toList_join, List.flatMap_map]
  simp

/-- A text in which every line ends with a line feed splits into the lines and an
empty rest. -/
theorem splitOn_flatMap {pieces : List (List Char)} (h : ∀ piece ∈ pieces, '\n' ∉ piece) :
    (pieces.flatMap (· ++ ['\n'])).splitOn '\n' = pieces ++ [[]] := by
  induction pieces with
  | nil => rfl
  | cons piece rest ih =>
      obtain ⟨hpiece, hrest⟩ := List.forall_mem_cons.mp h
      rw [List.flatMap_cons, List.append_assoc, List.singleton_append,
        List.splitOn_append_cons_self_of_not_mem hpiece, ih hrest, List.cons_append]

theorem Piece.dropFinalReturn_eq_self {p : Piece} (h : '\r' ∉ p.chars) :
    p.dropFinalReturn = p := by
  rw [Piece.dropFinalReturn, if_neg]
  intro hlast
  exact h (List.mem_of_getLast? hlast)

/-- Numbering leaves out the empty rest and keeps every line before it. -/
theorem map_chars_numberLines {pieces : List (List Char)} (h : ∀ piece ∈ pieces, '\r' ∉ piece)
    (number start : Nat) :
    (numberLines number (Piece.locate '\n' start (pieces ++ [[]]))).map (·.chars) = pieces := by
  induction pieces generalizing number start with
  | nil => rfl
  | cons piece rest ih =>
      obtain ⟨hpiece, hrest⟩ := List.forall_mem_cons.mp h
      -- the empty rest makes sure that another piece follows
      obtain ⟨next, others, hlocate⟩ : ∃ next others, Piece.locate '\n'
          (start + byteSize piece + '\n'.utf8Size) (rest ++ [[]]) = next :: others := by
        cases rest with
        | nil => exact ⟨_, _, rfl⟩
        | cons second others => exact ⟨_, _, rfl⟩
      have ih := ih hrest (number + 1) (start + byteSize piece + '\n'.utf8Size)
      rw [List.cons_append, Piece.locate]
      rw [hlocate] at ih ⊢
      rw [numberLines, List.map_cons, ih, Piece.dropFinalReturn_eq_self hpiece]
      exact List.cons_ne_nil _ _

/-- The lines of a written text are the lines it was written from. -/
theorem map_chars_linesOf_unlines {texts : List String} (h : ∀ text ∈ texts, OneLine text) :
    (linesOf (unlines texts)).map (·.chars) = texts.map (·.toList) := by
  have hfeed : ∀ piece ∈ texts.map (·.toList), '\n' ∉ piece :=
    List.forall_mem_map.mpr fun text htext => (h text htext).no_feed
  have hreturn : ∀ piece ∈ texts.map (·.toList), '\r' ∉ piece :=
    List.forall_mem_map.mpr fun text htext => (h text htext).no_return
  have hsplit : (unlines texts).toList.splitOn '\n' = texts.map (·.toList) ++ [[]] := by
    rw [toList_unlines, ← splitOn_flatMap hfeed, List.flatMap_map]
  rw [linesOf, Piece.splitOn, Piece.whole, hsplit]
  exact map_chars_numberLines hreturn 1 0

end SpriteTables.Text
