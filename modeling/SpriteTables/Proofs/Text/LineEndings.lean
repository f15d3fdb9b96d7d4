import SpriteTables.Proofs.Text.Joined
import SpriteTables.Proofs.Text.Numbered

/-!
# Lines and their endings

The lines of a text leave out the characters that end them. This module puts these back
(`endLines`): a line with its ending begins where the one before it stops, all of them together
are the text, and every byte of them has the number of its line and its distance from the start of
the line as its position (`lines_and_positions`). Lines are cut off going forward, and a position
is looked up among all offsets at which lines begin, so the agreement of the two is proved here.
-/

set_option autoImplicit false

namespace SpriteTables.Text

/-! ## Lines with endings -/

/-- A line with the characters that end it, which stand between it and the next one. -/
structure EndedLine extends Line where
  ending : List Char
deriving DecidableEq

namespace EndedLine

/-- The characters of a line and of its ending. -/
def whole (line : EndedLine) : List Char :=
  line.chars ++ line.ending

/-- How a line ends, told which lines follow it. The line itself has no line feed. Its ending is a
line feed with or without a carriage return before it, and the last line may lack the line feed. A
carriage return in front of the ending would belong to it. -/
structure Ends (line : EndedLine) (others : List EndedLine) : Prop where
  no_feed : '\n' ∉ line.chars
  ending_eq : line.ending = ['\n'] ∨ line.ending = ['\r', '\n'] ∨
    others = [] ∧ (line.ending = ['\r'] ∨ line.ending = [])
  no_return : '\r' ∉ line.ending → line.chars.getLast? ≠ some '\r'

end EndedLine

/-- The carriage return at the end of a piece, if there is one. -/
def Piece.finalReturn (p : Piece) : List Char :=
  if p.chars.getLast? = some '\r' then ['\r'] else []

/-- A piece between line feeds as a line, with the line feed after it, if there is one. -/
def EndedLine.ofPiece (number : Nat) (feed : List Char) (p : Piece) : EndedLine :=
  ⟨⟨p.dropFinalReturn, number⟩, p.finalReturn ++ feed⟩

/-- Numbers the pieces between line feeds and puts back what ends each of them. -/
def endLines (number : Nat) : List Piece → List EndedLine
  | [] => []
  | [last] => if last.chars = [] then [] else [.ofPiece number [] last]
  | piece :: rest => .ofPiece number ['\n'] piece :: endLines (number + 1) rest

section EndLines

variable {number start : Nat} {p : Piece} {feed : List Char}

theorem Piece.dropFinalReturn_append (p : Piece) :
    p.dropFinalReturn.chars ++ p.finalReturn = p.chars := by
  rw [dropFinalReturn, finalReturn]
  split
  · next hlast =>
      obtain ⟨front, hfront⟩ := List.getLast?_eq_some_iff.mp hlast
      simp [hfront]
  · exact List.append_nil _

@[simp] theorem Piece.start_dropFinalReturn (p : Piece) : p.dropFinalReturn.start = p.start := by
  rw [dropFinalReturn]
  split <;> rfl

@[simp] theorem EndedLine.whole_ofPiece (number : Nat) (feed : List Char) (p : Piece) :
    (ofPiece number feed p).whole = p.chars ++ feed := by
  rw [whole, ofPiece, ← List.append_assoc, p.dropFinalReturn_append]

@[simp] theorem EndedLine.start_ofPiece (number : Nat) (feed : List Char) (p : Piece) :
    (ofPiece number feed p).start = p.start :=
  p.start_dropFinalReturn

/-- A piece without line feeds is a line that ends with what follows. -/
theorem EndedLine.ends_ofPiece {others : List EndedLine} (h : '\n' ∉ p.chars)
    (hfeed : feed = ['\n'] ∨ feed = [] ∧ others = []) : (ofPiece number feed p).Ends others := by
  have hsplit := p.dropFinalReturn_append
  refine ⟨?_, ?_, ?_⟩
  · intro hmem
    apply h
    rw [← hsplit]
    exact List.mem_append_left _ hmem
  · simp only [ofPiece, Piece.finalReturn]
    rcases hfeed with rfl | ⟨rfl, rfl⟩
    · split <;> simp
    · split <;> simp
  · intro hreturn hlast
    simp only [ofPiece, Piece.finalReturn, Piece.dropFinalReturn] at hreturn hlast
    split at hreturn
    · simp at hreturn
    · next hnone =>
        rw [if_neg hnone] at hlast
        exact hnone hlast

/-- Without their endings they are the numbered lines. -/
theorem map_toLine_endLines (number : Nat) (pieces : List Piece) :
    (endLines number pieces).map (·.toLine) = numberLines number pieces := by
  induction pieces generalizing number with
  | nil => rfl
  | cons piece rest ih =>
      cases rest with
      | nil =>
          rw [endLines, numberLines]
          split <;> rfl
      | cons next others =>
          rw [endLines, numberLines, List.map_cons, ih]
          · rfl
          · exact List.cons_ne_nil _ _
          · exact List.cons_ne_nil _ _

/-- With their endings they are the whole text. -/
theorem flatMap_whole_endLines (number start : Nat) (pieces : List (List Char)) :
    (endLines number (Piece.locate '\n' start pieces)).flatMap EndedLine.whole =
      ['\n'].intercalate pieces := by
  induction pieces generalizing number start with
  | nil => rfl
  | cons piece rest ih =>
      cases rest with
      | nil =>
          rw [Piece.locate, Piece.locate, endLines, List.intercalate_singleton]
          split
          · next hempty => exact hempty.symm
          · simp
      | cons next others =>
          have hrest := ih (number + 1) (start + byteSize piece + '\n'.utf8Size)
          rw [Piece.locate] at hrest ⊢
          rw [Piece.locate, endLines, List.flatMap_cons, hrest, List.intercalate_cons_cons]
          · simp
          · exact List.cons_ne_nil _ _

/-- A line with its ending is one of the pieces. It has as many lines before it as there are
pieces, and begins behind these lines. -/
theorem endLines_eq_append_cons {pieces : List (List Char)} {front back : List EndedLine}
    {line : EndedLine}
    (h : endLines number (Piece.locate '\n' start pieces) = front ++ line :: back) :
    ∃ before piece after feed, Piece.locate '\n' start pieces = before ++ piece :: after ∧
      before.length = front.length ∧ line = .ofPiece (number + front.length) feed piece ∧
      piece.start = start + byteSize (front.flatMap EndedLine.whole) ∧
      (feed = ['\n'] ∨ feed = [] ∧ back = []) := by
  induction pieces generalizing number start front with
  | nil => simp [Piece.locate, endLines] at h
  | cons piece rest ih =>
      cases rest with
      | nil =>
          rw [Piece.locate, Piece.locate, endLines] at h
          split at h
          · simp at h
          · -- a single line has none before it and none after it
            obtain ⟨rfl, hcons⟩ := List.append_eq_singleton_iff.mp h.symm |>.resolve_right (by simp)
            obtain ⟨rfl, rfl⟩ := List.cons.inj hcons
            exact ⟨[], _, [], [], rfl, rfl, rfl, by simp, Or.inr ⟨rfl, rfl⟩⟩
      | cons next others =>
          rw [Piece.locate] at h ⊢
          rw [endLines] at h
          · cases front with
            | nil =>
                obtain ⟨rfl, rfl⟩ := List.cons.inj h
                exact ⟨[], _, _, ['\n'], rfl, rfl, rfl, by simp, Or.inl rfl⟩
            | cons first front =>
                obtain ⟨rfl, hrest⟩ := List.cons.inj h
                obtain ⟨before, found, after, feed, hsplit, hlength, hline, hstart, hfeed⟩ :=
                  ih hrest
                refine ⟨_ :: before, found, after, feed, by rw [hsplit]; rfl, by simp [hlength],
                  ?_, ?_, hfeed⟩
                · rw [hline, List.length_cons]
                  congr 1
                  omega
                · rw [hstart]
                  simp [Nat.add_assoc]
          · simp [Piece.locate]

end EndLines

/-! ## The number of lines -/

/-- All pieces but an empty last one are lines. -/
theorem length_numberLines_concat (number : Nat) (pieces : List Piece) (last : Piece) :
    (numberLines number (pieces ++ [last])).length =
      pieces.length + if last.chars = [] then 0 else 1 := by
  induction pieces generalizing number with
  | nil =>
      rw [List.nil_append, numberLines]
      split <;> simp
  | cons piece rest ih =>
      have hne : rest ++ [last] ≠ [] := List.append_ne_nil_of_right_ne_nil _ (by simp)
      rw [List.cons_append, numberLines.eq_3 _ _ _ hne, List.length_cons, ih, List.length_cons]
      omega

/-- The last piece is empty when the text is empty or ends with a line feed. -/
theorem exists_splitOn_eq_concat (cs : List Char) :
    ∃ pieces last, cs.splitOn '\n' = pieces ++ [last] ∧
      (last = [] ↔ cs = [] ∨ cs.getLast? = some '\n') := by
  rcases exists_last_line cs with hmem | ⟨front, line, rfl, hmem⟩
  · refine ⟨[], cs, List.splitOn_eq_singleton hmem, ?_⟩
    constructor
    · intro hempty
      exact Or.inl hempty
    · rintro (hempty | hlast)
      · exact hempty
      · exact absurd (List.mem_of_getLast? hlast) hmem
  · refine ⟨front.splitOn '\n', line, ?_, ?_⟩
    · rw [List.splitOn_append_cons_self, List.splitOn_eq_singleton hmem]
    · -- behind the last line feed there is nothing, or a character that is none
      rw [List.getLast?_append]
      cases line with
      | nil => simp
      | cons c rest =>
          have hlast : (c :: rest).getLast? ≠ some '\n' := by
            intro heq
            exact hmem (List.mem_of_getLast? heq)
          simpa using hlast

/-- There are as many lines as line feeds, and one more unless nothing stands behind the last
one. -/
theorem length_linesOf (text : String) :
    lineCount text = (linesOf text).length +
      if text.toList = [] ∨ text.toList.getLast? = some '\n' then 1 else 0 := by
  obtain ⟨pieces, last, hsplit, hlast⟩ := exists_splitOn_eq_concat text.toList
  have hchars := Piece.map_chars_splitOn '\n' (Piece.whole text)
  rw [Piece.whole, hsplit] at hchars
  obtain ⟨located, _, hlocated, hfront, hback⟩ := List.map_eq_append_iff.mp hchars
  obtain ⟨piece, rfl, hpiece⟩ := List.map_eq_singleton_iff.mp hback
  have hcount : lineCount text = located.length + 1 := by
    rw [lineCount, ← map_start_splitOn, Piece.whole, hlocated]
    simp
  rw [hcount, linesOf, Piece.whole, hlocated, length_numberLines_concat, hpiece]
  by_cases hempty : last = []
  · rw [if_pos hempty, if_pos (hlast.mp hempty)]
  · rw [if_neg hempty, if_neg (mt hlast.mpr hempty)]

/-! ## Positions in lines -/

/-- The position of an offset within a piece between line feeds, its end included. -/
theorem positionAt_of_split {text : String} {before after : List Piece} {piece : Piece}
    {offset : Nat} (hsplit : (Piece.whole text).splitOn '\n' = before ++ piece :: after)
    (hstart : piece.start ≤ offset) (hstop : offset ≤ piece.span.stop) :
    positionAt text offset = ⟨before.length + 1, offset - piece.start + 1⟩ := by
  have hordered : ((Piece.whole text).splitOn '\n').Pairwise Piece.Before :=
    Piece.pairwise_before_splitOn _
  rw [hsplit] at hordered
  have hbegun := takeWhile_starts hordered hstart hstop
  rw [← hsplit, map_start_splitOn] at hbegun
  rw [positionAt, hbegun]
  simp

/-- The lines of a text and the positions in it agree. With their endings the lines are the
text, each begins where those before it stop, and every byte of a line and of its ending has
the line's number and its distance from the start of the line as position. A last line without
a line feed also has the position of the end of the text. -/
theorem lines_and_positions (text : String) :
    ∃ lines : List EndedLine, lines.map (·.toLine) = linesOf text ∧
      lines.flatMap EndedLine.whole = text.toList ∧
      (∀ front line back, lines = front ++ line :: back →
        line.number = front.length + 1 ∧
        line.start = byteSize (front.flatMap EndedLine.whole) ∧
        line.span.Covers text line.chars ∧ line.Ends back ∧
        ∀ offset, line.start ≤ offset →
          (offset < line.start + byteSize line.whole ∨
            '\n' ∉ line.ending ∧ offset ≤ byteSize text.toList) →
          positionAt text offset = ⟨line.number, offset - line.start + 1⟩) ∧
      lineCount text = (linesOf text).length +
        if text.toList = [] ∨ text.toList.getLast? = some '\n' then 1 else 0 := by
  have hwhole : (endLines 1 ((Piece.whole text).splitOn '\n')).flatMap EndedLine.whole =
      text.toList := by
    rw [Piece.splitOn, flatMap_whole_endLines, List.intercalate_splitOn]
    rfl
  refine ⟨endLines 1 ((Piece.whole text).splitOn '\n'), map_toLine_endLines _ _, hwhole, ?_,
    length_linesOf text⟩
  intro front line back hlines
  obtain ⟨before, piece, after, feed, hsplit, hlength, rfl, hstart, hfeed⟩ :=
    endLines_eq_append_cons hlines
  rw [← Piece.splitOn] at hsplit
  replace hstart : piece.start = byteSize (front.flatMap EndedLine.whole) :=
    hstart.trans (Nat.zero_add _)
  have hmem : piece ∈ (Piece.whole text).splitOn '\n' := by simp [hsplit]
  have hchars : piece.chars ∈ text.toList.splitOn '\n' := by
    have hmap := List.mem_map_of_mem (f := (·.chars)) hmem
    rwa [Piece.map_chars_splitOn] at hmap
  refine ⟨Nat.add_comm _ _, by rw [EndedLine.start_ofPiece, hstart], ?_,
    EndedLine.ends_ofPiece (not_mem_of_mem_splitOn hchars) hfeed, ?_⟩
  · exact (piece.dropFinalReturn_in.trans (Piece.in_of_mem_splitOn hmem)).covers
  · intro offset hfrom hupto
    rw [EndedLine.start_ofPiece] at hfrom ⊢
    rw [EndedLine.whole_ofPiece, EndedLine.start_ofPiece] at hupto
    have hstop : offset ≤ piece.span.stop := by
      rcases hfeed with rfl | ⟨rfl, rfl⟩
      · rcases hupto with hlt | ⟨hnone, -⟩
        · rw [byteSize_append] at hlt
          exact Nat.le_of_lt_succ hlt
        · exact absurd (List.mem_append_right _ List.mem_cons_self) hnone
      · rw [List.append_nil] at hupto
        rcases hupto with hlt | ⟨-, hle⟩
        · exact Nat.le_of_lt hlt
        · rw [← hwhole, hlines, List.flatMap_append, List.flatMap_cons, List.flatMap_nil,
            EndedLine.whole_ofPiece, List.append_nil, List.append_nil, byteSize_append,
            ← hstart] at hle
          exact hle
    rw [positionAt_of_split hsplit hfrom hstop, hlength, EndedLine.ofPiece, Nat.add_comm 1]

end SpriteTables.Text
