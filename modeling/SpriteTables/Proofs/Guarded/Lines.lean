import SpriteTables.Proofs.Guarded.Operation
import SpriteTables.Proofs.Steps
import SpriteTables.Text.Line

/-!
# Lines, taken from a text by offsets

The lines of a text are cut out of it one after the other, each at the byte offset behind the line
feed of the one before. This module takes them with checked cuts and sums, and looks up the line
of an offset in the list of offsets at which lines begin. No text that fits into memory makes
either fault (`linesOf_eq`, `positionAt_eq`).
-/

set_option autoImplicit false

namespace SpriteTables.Guarded

open Text (Piece Line Position byteSize numberLines startsAfterFeeds)

/-- A text has fewer bytes than the greatest distance in memory, as every text in memory
has. -/
def Addressable (text : String) : Prop :=
  byteSize text.toList < 0x8000000000000000

/-! ## The line at an offset -/

/-- The byte offset of the first occurrence of a character. -/
def offsetOf? (c : Char) : List Char → Option Nat
  | [] => none
  | d :: rest => if d = c then some 0 else (offsetOf? c rest).map (d.utf8Size + ·)

/-- The characters up to the first line feed, with the bytes that they and the line feed
take. -/
def firstLine (rest : List Char) : Checked (List Char × Nat) :=
  match offsetOf? '\n' rest with
  | none => .ok (rest, byteSize rest)
  | some feed => do
      let chars ← sliceTo rest feed
      let consumed ← add feed 1
      return (chars, consumed)

/-- The line at an offset, told how many lines are before it, with the offset behind its
line feed. -/
def lineAt (text : List Char) (offset number : Nat) : Checked (Option (Line × Nat)) :=
  if byteSize text ≤ offset then .ok none
  else do
    let rest ← sliceFrom text offset
    let parts ← firstLine rest
    -- the end of the line is an address, too
    let _ ← add offset (byteSize (Piece.dropFinalReturn ⟨offset, parts.1⟩).chars)
    let next ← add offset parts.2
    let number ← add number 1
    return some (⟨Piece.dropFinalReturn ⟨offset, parts.1⟩, number⟩, next)

section LineAt

variable {c : Char} {text before chars rest : List Char} {offset number next : Nat} {line : Line}

theorem offsetOf?_append (h : c ∉ chars) :
    offsetOf? c (chars ++ c :: rest) = some (byteSize chars) := by
  induction chars with
  | nil => simp [offsetOf?]
  | cons d ds ih =>
      obtain ⟨hd, hds⟩ := List.ne_and_not_mem_of_not_mem_cons h
      rw [List.cons_append, offsetOf?, if_neg (Ne.symm hd), ih hds]
      rfl

theorem offsetOf?_of_not_mem (h : c ∉ chars) : offsetOf? c chars = none := by
  induction chars with
  | nil => rfl
  | cons d ds ih =>
      obtain ⟨hd, hds⟩ := List.ne_and_not_mem_of_not_mem_cons h
      rw [offsetOf?, if_neg (Ne.symm hd), ih hds]
      rfl

/-- A first line takes some bytes. -/
theorem pos_of_firstLine {parts : List Char × Nat} (hrest : rest ≠ [])
    (h : firstLine rest = .ok parts) : 0 < parts.2 := by
  rw [firstLine] at h
  split at h
  · cases h
    exact Nat.pos_of_ne_zero fun hzero => hrest (Text.byteSize_eq_zero_iff.mp hzero)
  · obtain ⟨chars, -, h⟩ := bind_eq_ok_iff.mp h
    obtain ⟨consumed, hadd, h⟩ := bind_eq_ok_iff.mp h
    cases h
    rw [eq_of_add hadd]
    exact Nat.succ_pos _

/-- The next line begins behind the one at an offset. -/
theorem lt_of_lineAt (h : lineAt text offset number = .ok (some (line, next))) :
    offset < byteSize text ∧ offset < next := by
  rw [lineAt] at h
  split at h
  · cases h
  · next hlt =>
      refine ⟨Nat.not_le.mp hlt, ?_⟩
      obtain ⟨rest, hrest, h⟩ := bind_eq_ok_iff.mp h
      obtain ⟨parts, hparts, h⟩ := bind_eq_ok_iff.mp h
      obtain ⟨stop, -, h⟩ := bind_eq_ok_iff.mp h
      obtain ⟨next', hnext, h⟩ := bind_eq_ok_iff.mp h
      obtain ⟨number', -, h⟩ := bind_eq_ok_iff.mp h
      cases h
      have hne : rest ≠ [] := by
        rintro rfl
        have hsize := byteSize_of_sliceFrom hrest
        simp only [Text.byteSize_nil] at hsize
        omega
      rw [eq_of_add hnext]
      exact Nat.lt_add_of_pos_right (pos_of_firstLine hne hparts)

end LineAt

/-- The lines from an offset on, told how many lines are before them. -/
def linesFrom (text : List Char) (offset number : Nat) : Checked (List Line) :=
  match h : lineAt text offset number with
  | .error fault => .error fault
  | .ok none => .ok []
  | .ok (some (line, next)) =>
      have : byteSize text - next < byteSize text - offset := by
        have hlt := lt_of_lineAt h
        omega
      match linesFrom text next line.number with
      | .error fault => .error fault
      | .ok lines => .ok (line :: lines)
termination_by byteSize text - offset

/-- The lines of a text. -/
def linesOf (text : String) : Checked (List Line) :=
  linesFrom text.toList 0 0

section Lines

variable {text before chars rest : List Char} {number : Nat}

theorem byteSize_dropFinalReturn (p : Piece) :
    byteSize p.dropFinalReturn.chars ≤ byteSize p.chars := by
  rw [Piece.dropFinalReturn]
  split
  · next hlast =>
      obtain ⟨front, hfront⟩ := List.getLast?_eq_some_iff.mp hlast
      simp [hfront]
  · exact Nat.le_refl _

/-- The line at an offset is what the first line of the rest is. -/
theorem lineAt_eq {parts : List Char × Nat} (hsize : byteSize (before ++ rest) < sizeBound - 1)
    (hnumber : number ≤ byteSize before) (hrest : rest ≠ []) (hparts : firstLine rest = .ok parts)
    (hchars : byteSize parts.1 ≤ byteSize rest) (hconsumed : parts.2 ≤ byteSize rest) :
    lineAt (before ++ rest) (byteSize before) number =
      .ok (some (⟨Piece.dropFinalReturn ⟨byteSize before, parts.1⟩, number + 1⟩,
        byteSize before + parts.2)) := by
  have hline := byteSize_dropFinalReturn ⟨byteSize before, parts.1⟩
  have hpos : byteSize rest ≠ 0 := fun hzero => hrest (Text.byteSize_eq_zero_iff.mp hzero)
  rw [Text.byteSize_append] at hsize
  simp only at hline
  rw [lineAt, if_neg, sliceFrom_eq rfl, ok_bind, hparts, ok_bind, add_eq (by omega), ok_bind,
    add_eq (by omega), ok_bind, add_eq (by omega), ok_bind]
  · rfl
  · rw [Text.byteSize_append]
    omega

theorem firstLine_append (hsize : byteSize chars + 1 < sizeBound) (hchars : '\n' ∉ chars) :
    firstLine (chars ++ '\n' :: rest) = .ok (chars, byteSize chars + 1) := by
  simp only [firstLine, offsetOf?_append hchars]
  rw [sliceTo_eq rfl, ok_bind, add_eq hsize, ok_bind]
  rfl

theorem firstLine_of_not_mem (hchars : '\n' ∉ chars) :
    firstLine chars = .ok (chars, byteSize chars) := by
  simp only [firstLine, offsetOf?_of_not_mem hchars]

theorem linesFrom_of_some {offset next : Nat} {line : Line}
    (h : lineAt text offset number = .ok (some (line, next))) :
    linesFrom text offset number = (linesFrom text next line.number).map (line :: ·) := by
  rw [linesFrom.eq_def]
  split
  · next hfault =>
      rw [h] at hfault
      cases hfault
  · next hnone =>
      rw [h] at hnone
      cases hnone
  · next hsome =>
      rw [h] at hsome
      cases hsome
      cases linesFrom text next line.number <;> rfl

theorem linesFrom_of_end {offset : Nat} (h : byteSize text ≤ offset) :
    linesFrom text offset number = .ok [] := by
  have hnone : lineAt text offset number = .ok none := by
    rw [lineAt, if_pos h]
  rw [linesFrom.eq_def]
  split
  · next hfault =>
      rw [hnone] at hfault
      cases hfault
  · rfl
  · next hsome =>
      rw [hnone] at hsome
      cases hsome

/-- Behind the first line feed the lines go on with the rest. -/
theorem linesFrom_append_feed {others : List Char} (hchars : '\n' ∉ chars)
    (hsize : byteSize (before ++ (chars ++ '\n' :: others)) < sizeBound - 1)
    (hnumber : number ≤ byteSize before) :
    linesFrom (before ++ (chars ++ '\n' :: others)) (byteSize before) number =
      (linesFrom ((before ++ chars ++ ['\n']) ++ others) (byteSize (before ++ chars ++ ['\n']))
        (number + 1)).map (⟨Piece.dropFinalReturn ⟨byteSize before, chars⟩, number + 1⟩ :: ·) := by
  have hfeed : Char.utf8Size '\n' = 1 := rfl
  have hbytes : byteSize (chars ++ '\n' :: others) = byteSize chars + 1 + byteSize others := by
    simp [hfeed, Nat.add_assoc]
  have hfirst : firstLine (chars ++ '\n' :: others) = .ok (chars, byteSize chars + 1) := by
    rw [Text.byteSize_append, hbytes] at hsize
    exact firstLine_append (by omega) hchars
  have hle : byteSize chars + 1 ≤ byteSize (chars ++ '\n' :: others) := by
    rw [hbytes]
    exact Nat.le_add_right _ _
  have hline := lineAt_eq hsize hnumber (by simp) hfirst (Nat.le_of_succ_le hle) hle
  have hnext : byteSize (before ++ chars ++ ['\n']) = byteSize before + (byteSize chars + 1) := by
    simp [hfeed]
  have htext : before ++ chars ++ ['\n'] ++ others = before ++ (chars ++ '\n' :: others) := by
    simp
  rw [linesFrom_of_some hline, htext, hnext]

/-- The lines from an offset on are the pieces between the line feeds behind it. -/
theorem linesFrom_eq (hsize : byteSize (before ++ rest) < sizeBound - 1)
    (hnumber : number ≤ byteSize before) :
    linesFrom (before ++ rest) (byteSize before) number =
      .ok (numberLines (number + 1)
        (Piece.locate '\n' (byteSize before) (rest.splitOn '\n'))) := by
  induction hlength : rest.length using Nat.strongRecOn generalizing before rest number with
  | ind n ih =>
      by_cases hmem : '\n' ∈ rest
      · obtain ⟨chars, others, rfl, hchars⟩ := List.eq_append_cons_of_mem hmem
        have hshorter : others.length < n := by
          rw [← hlength, List.length_append, List.length_cons]
          omega
        have hsize' : byteSize (before ++ chars ++ ['\n'] ++ others) < sizeBound - 1 := by
          simpa using hsize
        have hfeed : 0 < Char.utf8Size '\n' := Char.utf8Size_pos _
        have hnumber' : number + 1 ≤ byteSize (before ++ chars ++ ['\n']) := by
          simp only [Text.byteSize_append, Text.byteSize_cons]
          omega
        rw [linesFrom_append_feed hchars hsize hnumber, ih _ hshorter hsize' hnumber' rfl,
          List.splitOn_append_cons_self_of_not_mem hchars]
        obtain ⟨piece, pieces, hpieces⟩ :=
          List.exists_cons_of_ne_nil (List.splitOn_ne_nil '\n' others)
        simp only [hpieces, Piece.locate, numberLines, Text.byteSize_append, Text.byteSize_cons,
          Text.byteSize_nil, Nat.add_zero, Except.map]
      · rw [List.splitOn_eq_singleton hmem]
        by_cases hrest : rest = []
        · rw [hrest, List.append_nil, linesFrom_of_end (Nat.le_refl _)]
          rfl
        · have hline := lineAt_eq hsize hnumber hrest (firstLine_of_not_mem hmem) (Nat.le_refl _)
            (Nat.le_refl _)
          have hend := Text.byteSize_append before rest
          rw [linesFrom_of_some hline, linesFrom_of_end (Nat.le_of_eq hend)]
          simp only [Piece.locate, numberLines, if_neg hrest]
          rfl

/-- No text that fits into memory makes taking its lines fault. -/
theorem linesOf_eq {text : String} (h : Addressable text) :
    linesOf text = .ok (Text.linesOf text) := by
  have hsize : byteSize ([] ++ text.toList) < sizeBound - 1 := by
    rw [Addressable] at h
    rw [List.nil_append, sizeBound]
    omega
  exact linesFrom_eq hsize (Nat.zero_le _)

end Lines

/-! ## The line of an offset -/

/-- The offsets behind the line feeds of some characters that begin at an offset. -/
def startsFrom (offset : Nat) : List Char → Checked (List Nat)
  | [] => .ok []
  | c :: cs => do
      let rest ← startsFrom (offset + c.utf8Size) cs
      if c = '\n' then
        let start ← add offset 1
        return start :: rest
      else return rest

/-- The row of the last line that begins at or before an offset, counted from zero. -/
def rowOf (starts : List Nat) (offset : Nat) : Nat :=
  (starts.takeWhile (· ≤ offset)).length - 1

/-- Line and column of an offset, looked up in the list of all offsets at which lines
begin. -/
def positionAt (text : String) (offset : Nat) : Checked Position := do
  let behind ← startsFrom 0 text.toList
  let start ← index (0 :: behind) (rowOf (0 :: behind) offset)
  let line ← add (rowOf (0 :: behind) offset) 1
  let column ← add (offset - start) 1
  return ⟨line, column⟩

section Positions

variable {text : String} {cs : List Char} {offset : Nat}

theorem startsFrom_eq (h : offset + byteSize cs < sizeBound) :
    startsFrom offset cs = .ok (startsAfterFeeds offset cs) := by
  induction cs generalizing offset with
  | nil => rfl
  | cons c cs ih =>
      rw [Text.byteSize_cons] at h
      rw [startsFrom, startsAfterFeeds, ih (by omega), ok_bind]
      by_cases hc : c = '\n'
      · subst hc
        have hfeed : Char.utf8Size '\n' = 1 := rfl
        rw [if_pos rfl, if_pos rfl, add_eq (by omega)]
        rfl
      · rw [if_neg hc, if_neg hc]
        rfl

theorem length_startsAfterFeeds_le (offset : Nat) (cs : List Char) :
    (startsAfterFeeds offset cs).length ≤ byteSize cs := by
  induction cs generalizing offset with
  | nil => exact Nat.le_refl 0
  | cons c cs ih =>
      have hrest := ih (offset + c.utf8Size)
      have hc : 0 < c.utf8Size := Char.utf8Size_pos c
      rw [startsAfterFeeds, Text.byteSize_cons]
      split
      · rw [List.length_cons]
        omega
      · omega

/-- The line of every offset into a text that fits into memory is found. -/
theorem positionAt_eq (h : Addressable text) (hoffset : offset ≤ byteSize text.toList) :
    positionAt text offset = .ok (Text.positionAt text offset) := by
  have hbound : byteSize text.toList + 1 < sizeBound := by
    rw [Addressable] at h
    rw [sizeBound]
    omega
  -- the first line begins before every offset, so some line does
  obtain ⟨others, hothers⟩ : ∃ others,
      (0 :: startsAfterFeeds 0 text.toList).takeWhile (· ≤ offset) = 0 :: others :=
    ⟨_, List.takeWhile_cons_of_pos (by simp)⟩
  have hprefix := List.takeWhile_prefix (l := 0 :: startsAfterFeeds 0 text.toList) (· ≤ offset)
  rw [hothers] at hprefix
  have hstart : (0 :: startsAfterFeeds 0 text.toList)[others.length]? =
      some ((0 :: others).getLastD 0) := by
    obtain ⟨more, hmore⟩ := hprefix
    have hlast := List.getLast?_eq_getElem? (l := 0 :: others)
    rw [List.length_cons, Nat.add_sub_cancel, List.getLast?_cons] at hlast
    rw [← hmore, List.getElem?_append_left (by simp), ← hlast, List.getLastD_cons,
      List.getLastD_eq_getLast?]
  have hlength := length_startsAfterFeeds_le 0 text.toList
  have hrow : others.length ≤ byteSize text.toList := by
    have hle := hprefix.length_le
    simp only [List.length_cons] at hle
    omega
  have hrowOf : rowOf (0 :: startsAfterFeeds 0 text.toList) offset = others.length := by
    rw [rowOf, hothers, List.length_cons, Nat.add_sub_cancel]
  rw [positionAt, startsFrom_eq (by omega), ok_bind, hrowOf, index_eq hstart, ok_bind,
    add_eq (by omega), ok_bind, add_eq (by omega), ok_bind, Text.positionAt, Text.lineStarts,
    hothers]
  rfl

end Positions

end SpriteTables.Guarded
