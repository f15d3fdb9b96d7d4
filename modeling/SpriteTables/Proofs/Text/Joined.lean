import SpriteTables.Proofs.Text.Lines

/-!
# Lines of joined texts

A text that ends with a line feed may be followed by another one. Splitting at the line feed gives
the pieces of both, and the lines of the first text, with their numbers and offsets, are the first
lines of the whole (`linesOf_append`).
-/

set_option autoImplicit false

namespace SpriteTables.Text

/-- The last line of some characters is all of them, or stands behind a line feed. -/
theorem exists_last_line (cs : List Char) :
    '\n' ∉ cs ∨ ∃ front line, cs = front ++ '\n' :: line ∧ '\n' ∉ line := by
  by_cases hmem : '\n' ∈ cs
  · right
    have hreverse : '\n' ∈ cs.reverse := List.mem_reverse.mpr hmem
    obtain ⟨line, front, hsplit, hline⟩ := List.eq_append_cons_of_mem hreverse
    refine ⟨front.reverse, line.reverse, ?_, by simpa using hline⟩
    rw [← List.reverse_reverse cs, hsplit]
    simp
  · exact Or.inl hmem

/-- Pieces that others follow are numbered as they are before an empty rest. -/
theorem numberLines_locate_append {rest : List (List Char)} (hrest : rest ≠ [])
    (pieces : List (List Char)) (number start : Nat) :
    ∃ more, numberLines number (Piece.locate '\n' start (pieces ++ rest)) =
      numberLines number (Piece.locate '\n' start (pieces ++ [[]])) ++ more := by
  induction pieces generalizing number start with
  | nil => exact ⟨_, rfl⟩
  | cons piece others ih =>
      have hcons : ∀ tail : List (List Char), tail ≠ [] →
          numberLines number (Piece.locate '\n' start (piece :: (others ++ tail))) =
            ⟨(⟨start, piece⟩ : Piece).dropFinalReturn, number⟩ ::
              numberLines (number + 1) (Piece.locate '\n'
                (start + byteSize piece + '\n'.utf8Size) (others ++ tail)) := by
        intro tail htail
        obtain ⟨next, after, hnext⟩ : ∃ next after, others ++ tail = next :: after :=
          List.exists_cons_of_ne_nil (List.append_ne_nil_of_right_ne_nil others htail)
        rw [hnext, Piece.locate, Piece.locate, numberLines]
        exact List.cons_ne_nil _ _
      obtain ⟨more, hmore⟩ := ih (number + 1) (start + byteSize piece + '\n'.utf8Size)
      refine ⟨more, ?_⟩
      rw [List.cons_append, List.cons_append, hcons rest hrest, hcons [[]] (List.cons_ne_nil _ _),
        hmore, List.cons_append]

/-- The lines of a text that ends with a line feed are the first lines of any text that it
begins. -/
theorem linesOf_append {text : String} (h : text.toList.getLast? = some '\n') (rest : String) :
    ∃ more, linesOf (text ++ rest) = linesOf text ++ more := by
  obtain ⟨front, hfront⟩ := List.getLast?_eq_some_iff.mp h
  have hwhole : text.toList.splitOn '\n' = front.splitOn '\n' ++ [[]] := by
    rw [hfront, List.splitOn_append_cons_self]
    rfl
  have hjoined : (text ++ rest).toList.splitOn '\n' =
      front.splitOn '\n' ++ rest.toList.splitOn '\n' := by
    rw [String.toList_append, hfront, List.append_assoc, List.singleton_append,
      List.splitOn_append_cons_self]
  rw [linesOf, linesOf, Piece.splitOn, Piece.splitOn, Piece.whole, Piece.whole, hwhole, hjoined]
  exact numberLines_locate_append (List.splitOn_ne_nil '\n' rest.toList) _ 1 0

end SpriteTables.Text
