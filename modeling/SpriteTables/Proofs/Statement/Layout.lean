import Mathlib.Logic.Relation
import SpriteTables.Proofs.Text.Joined
import SpriteTables.Statement

/-!
# The layout of a text

Blanks at the end of a line, comments, lines of nothing else and the way in which lines are
terminated make up the layout of an artifact (`LayoutStep`). What a text says beyond its layout
are the `contents` of its lines, the empty ones left out. A change of layout keeps them
(`contents_of_layoutStep`).
-/

set_option autoImplicit false

namespace SpriteTables

open Text (Piece Line linesOf isBlank trimEnd numberLines)

/-! ## Contents -/

/-- What a line says: its characters without a comment and without trailing blanks. -/
def contentChars (cs : List Char) : List Char :=
  trimEnd (cs.takeWhile (· != ';'))

/-- The contents of the lines of a text, without those that say nothing. -/
def contents (cs : List Char) : List (List Char) :=
  ((cs.splitOn '\n').map contentChars).filter (· ≠ [])

/-- A text says what it says before a line feed and what it says after it. -/
theorem contents_append_feed (cs ds : List Char) :
    contents (cs ++ '\n' :: ds) = contents cs ++ contents ds := by
  simp only [contents, List.splitOn_append_cons_self, List.map_append, List.filter_append]

theorem contents_of_not_mem {cs : List Char} (h : '\n' ∉ cs) :
    contents cs = [contentChars cs].filter (· ≠ []) := by
  rw [contents, List.splitOn_eq_singleton h]
  rfl

section Contents

variable {cs blanks : List Char}

/-- A line without comment and trailing blanks is its own content. -/
theorem contentChars_eq_self (hcomment : ';' ∉ cs)
    (htrim : trimEnd cs = cs) : contentChars cs = cs := by
  have hpass : ∀ c ∈ cs, (c != ';') = true := by
    intro c hc
    have hne : c ≠ ';' := fun heq => hcomment (heq ▸ hc)
    simpa using hne
  rw [contentChars, List.takeWhile_eq_self_iff.mpr hpass, htrim]

/-- A comment behind a line adds nothing to what it says. -/
theorem contentChars_append_comment (cs comment : List Char) :
    contentChars (cs ++ ';' :: comment) = contentChars cs := by
  have hcode : (cs ++ ';' :: comment).takeWhile (· != ';') = cs.takeWhile (· != ';') := by
    rw [List.takeWhile_append]
    split
    · next hall =>
        have hself : cs.takeWhile (· != ';') = cs :=
          (List.takeWhile_prefix _).eq_of_length hall
        simp [hself]
    · rfl
  rw [contentChars, hcode, contentChars]

theorem trimEnd_append_blanks (h : ∀ c ∈ blanks, isBlank c = true) (cs : List Char) :
    trimEnd (cs ++ blanks) = trimEnd cs := by
  have hreverse : ∀ c ∈ blanks.reverse, isBlank c = true := by simpa using h
  rw [trimEnd, trimEnd, List.reverse_append, List.dropWhile_append_of_pos hreverse]

/-- Blanks behind a line add nothing to what it says. -/
theorem contentChars_append_blanks (h : ∀ c ∈ blanks, isBlank c = true) (cs : List Char) :
    contentChars (cs ++ blanks) = contentChars cs := by
  -- blanks are no semicolons, so they are cut off with a comment or trimmed
  have hpass : ∀ c ∈ blanks, (c != ';') = true := by
    intro c hc
    have hne : c ≠ ';' := by
      rintro rfl
      exact absurd (h ';' hc) (by decide)
    simpa using hne
  rw [contentChars, List.takeWhile_append]
  split
  · next hall =>
      have hself : cs.takeWhile (· != ';') = cs :=
        (List.takeWhile_prefix _).eq_of_length hall
      rw [List.takeWhile_eq_self_iff.mpr hpass, trimEnd_append_blanks h, contentChars, hself]
  · rfl

end Contents

/-! ## Contents of the lines -/

/-- A carriage return is a blank. -/
theorem isBlank_of_mem_return : ∀ c ∈ ['\r'], isBlank c = true :=
  List.forall_mem_singleton.mpr rfl

theorem contentChars_dropFinalReturn (p : Piece) :
    contentChars p.dropFinalReturn.chars = contentChars p.chars := by
  rw [Piece.dropFinalReturn]
  split
  · next hlast =>
      obtain ⟨front, hfront⟩ := List.getLast?_eq_some_iff.mp hlast
      simp only [hfront, List.dropLast_concat]
      exact (contentChars_append_blanks isBlank_of_mem_return front).symm
  · rfl

/-- Numbering the pieces between line feeds leaves out no content. -/
theorem contents_numberLines (number : Nat) (pieces : List Piece) :
    ((numberLines number pieces).map fun line => contentChars line.chars).filter (· ≠ []) =
      (pieces.map fun piece => contentChars piece.chars).filter (· ≠ []) := by
  induction pieces generalizing number with
  | nil => rfl
  | cons piece rest ih =>
      cases rest with
      | nil =>
          rw [numberLines]
          split
          · next hempty =>
              rw [List.map_singleton, hempty]
              rfl
          · simp only [List.map_singleton, contentChars_dropFinalReturn]
      | cons next others =>
          rw [numberLines]
          · simp only [List.map_cons, List.filter_cons, contentChars_dropFinalReturn] at ih ⊢
            rw [ih]
          · exact List.cons_ne_nil _ _

/-- The contents of a text are those of its lines. -/
theorem contents_linesOf (text : String) :
    ((linesOf text).map fun line => contentChars line.chars).filter (· ≠ []) =
      contents text.toList := by
  have hpieces : ((Piece.whole text).splitOn '\n').map (fun piece => contentChars piece.chars) =
      (text.toList.splitOn '\n').map contentChars := by
    have hchars := Piece.map_chars_splitOn '\n' (Piece.whole text)
    rw [Piece.whole] at hchars ⊢
    rw [← hchars, List.map_map]
    rfl
  rw [linesOf, contents_numberLines, hpieces, contents]

/-! ## Changes of layout -/

/-- A line ends in front of some characters: they are a line feed with what follows, or
nothing, with or without a carriage return before. -/
def EndsLine (rest : List Char) : Prop :=
  ∃ terminator tail, rest = terminator ++ tail ∧ (terminator = [] ∨ terminator = ['\r']) ∧
    (tail = [] ∨ ∃ others, tail = '\n' :: others)

/-- A line begins behind some characters: they are nothing or end with a line feed. -/
def BeginsLine (front : List Char) : Prop :=
  front = [] ∨ ∃ others, front = others ++ ['\n']

/-- A line says nothing: it is blank, or a comment with or without blanks before it. -/
def SaysNothing (line : List Char) : Prop :=
  ∃ blanks rest, line = blanks ++ rest ∧ (∀ c ∈ blanks, isBlank c = true) ∧
    (rest = [] ∨ ∃ comment, rest = ';' :: comment)

/-- One change of the layout of a text: blanks, or a semicolon and any text, are added at the end
of a line; a line that says nothing is put in front of a line or of the end of the text, or behind
the last line; a line feed gets a carriage return before it. -/
inductive LayoutStep : List Char → List Char → Prop where
  | blanks {before after blanks : List Char} (hafter : EndsLine after)
      (hblanks : ∀ c ∈ blanks, isBlank c = true) (hfeed : '\n' ∉ blanks) :
      LayoutStep (before ++ after) (before ++ blanks ++ after)
  | comment {before after comment : List Char} (hafter : EndsLine after)
      (hfeed : '\n' ∉ comment) :
      LayoutStep (before ++ after) (before ++ ';' :: comment ++ after)
  | line {before after line : List Char} (hbefore : BeginsLine before)
      (hline : SaysNothing line) (hfeed : '\n' ∉ line) :
      LayoutStep (before ++ after) (before ++ line ++ '\n' :: after)
  | lastLine {before line : List Char} (hline : SaysNothing line) (hfeed : '\n' ∉ line) :
      LayoutStep before (before ++ '\n' :: line)
  | returned {before after : List Char} :
      LayoutStep (before ++ '\n' :: after) (before ++ '\r' :: '\n' :: after)

section Steps

variable {before after added line : List Char}

/-- A line that says nothing has no content. -/
theorem contents_of_saysNothing (hline : SaysNothing line) (hfeed : '\n' ∉ line) :
    contents line = [] := by
  obtain ⟨blanks, rest, rfl, hblanks, hrest⟩ := hline
  have hempty : contentChars (blanks ++ rest) = [] := by
    have hblank : contentChars blanks = [] := contentChars_append_blanks hblanks []
    rcases hrest with rfl | ⟨comment, rfl⟩
    · rw [List.append_nil, hblank]
    · rw [contentChars_append_comment, hblank]
  rw [contents_of_not_mem hfeed, hempty]
  rfl

/-- What is added at the end of a line keeps the contents of the text if it adds nothing to
what a line says. -/
theorem contents_insert (hafter : EndsLine after) (hfeed : '\n' ∉ added)
    (hadded : ∀ cs, contentChars (cs ++ added) = contentChars cs) :
    contents (before ++ added ++ after) = contents (before ++ after) := by
  obtain ⟨terminator, tail, rfl, hterminator, htail⟩ := hafter
  have hreturn : ∀ c ∈ terminator, isBlank c = true := by
    rcases hterminator with rfl | rfl
    · simp
    · exact isBlank_of_mem_return
  have hno : '\n' ∉ terminator := by
    rcases hterminator with rfl | rfl
    · simp
    · decide
  have hline : ∀ line, '\n' ∉ line →
      contents (line ++ added ++ terminator) = contents (line ++ terminator) := by
    intro line hmem
    rw [contents_of_not_mem (by simp [hmem, hfeed, hno]),
      contents_of_not_mem (by simp [hmem, hno]), contentChars_append_blanks hreturn, hadded,
      contentChars_append_blanks hreturn]
  have hlines : contents (before ++ added ++ terminator) = contents (before ++ terminator) := by
    rcases Text.exists_last_line before with hmem | ⟨front, line, rfl, hmem⟩
    · exact hline before hmem
    · simp only [List.append_assoc, List.cons_append, contents_append_feed]
      rw [← List.append_assoc, hline line hmem]
  rcases htail with rfl | ⟨others, rfl⟩
  · simpa using hlines
  · rw [← List.append_assoc, ← List.append_assoc, contents_append_feed, hlines,
      contents_append_feed]

/-- A change of layout keeps the contents. -/
theorem contents_of_layoutStep {cs ds : List Char} (h : LayoutStep cs ds) :
    contents ds = contents cs := by
  cases h with
  | blanks hafter hblanks hfeed =>
      apply contents_insert hafter hfeed
      exact contentChars_append_blanks hblanks
  | comment hafter hfeed =>
      apply contents_insert hafter (by simpa using hfeed)
      intro cs
      exact contentChars_append_comment cs _
  | line hbefore hline hfeed =>
      have hempty := contents_of_saysNothing hline hfeed
      rcases hbefore with rfl | ⟨others, rfl⟩
      · rw [List.nil_append, List.nil_append, contents_append_feed, hempty, List.nil_append]
      · simp only [List.append_assoc, List.cons_append, contents_append_feed, hempty,
          List.nil_append]
  | lastLine hline hfeed =>
      rw [contents_append_feed, contents_of_saysNothing hline hfeed, List.append_nil]
  | @returned before after =>
      have hends : EndsLine ('\n' :: after) := ⟨[], _, rfl, Or.inl rfl, Or.inr ⟨after, rfl⟩⟩
      have hinsert : contents (before ++ ['\r'] ++ '\n' :: after) =
          contents (before ++ '\n' :: after) := by
        apply contents_insert hends (by decide)
        exact contentChars_append_blanks isBlank_of_mem_return
      simpa using hinsert

end Steps

end SpriteTables
