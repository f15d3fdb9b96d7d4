import SpriteTables.Proofs.Text.Trims

/-!
# Cutting written texts

A written line is put together from stretches of plain characters, which are the visible ASCII
characters other than comma, semicolon and colon (`isPlain`), and reading it cuts it at the same
places again. This module holds what trimming, splitting and cutting do to a text that was put
together that way.
-/

set_option autoImplicit false

namespace SpriteTables.Text

/-! ## Plain characters -/

/-- A visible ASCII character that separates nothing. -/
def isPlain (c : Char) : Bool :=
  0x21 ≤ c.toNat && c.toNat ≤ 0x7E && c != ',' && c != ';' && c != ':'

/-- A plain character is not blank. -/
theorem isBlank_eq_false_of_isPlain {c : Char} (h : isPlain c = true) : isBlank c = false := by
  simp only [isPlain, Bool.and_eq_true, decide_eq_true_eq] at h
  simp only [isBlank, blankRanges, List.any_cons, List.any_nil, Bool.or_false,
    Bool.or_eq_false_iff, Bool.and_eq_false_iff, decide_eq_false_iff_not]
  omega

/-- A plain text holds no character that is not plain. -/
theorem not_mem_of_isPlain {cs : List Char} {c : Char} (h : ∀ d ∈ cs, isPlain d = true)
    (hc : isPlain c = false) : c ∉ cs := by
  intro hmem
  rw [h c hmem] at hc
  cases hc

/-! ## Trimming -/

theorem trimStart_cons {c : Char} {cs : List Char} (h : isBlank c = false) :
    trimStart (c :: cs) = c :: cs := by
  rw [trimStart, List.dropWhile_cons, h]
  rfl

theorem trimEnd_concat {cs : List Char} {c : Char} (h : isBlank c = false) :
    trimEnd (cs ++ [c]) = cs ++ [c] := by
  rw [trimEnd, List.reverse_append, List.reverse_singleton, List.singleton_append,
    List.dropWhile_cons, h]
  simp

/-- A text that ends in plain characters has no trailing blanks. -/
theorem trimEnd_append_of_isPlain {cs core : List Char} (hne : core ≠ [])
    (h : ∀ c ∈ core, isPlain c = true) : trimEnd (cs ++ core) = cs ++ core := by
  obtain ⟨front, c, rfl⟩ : ∃ front c, core = front ++ [c] :=
    ⟨core.dropLast, core.getLast hne, (List.dropLast_concat_getLast hne).symm⟩
  have hc : isPlain c = true := h c (List.mem_append_right _ List.mem_cons_self)
  rw [← List.append_assoc]
  exact trimEnd_concat (isBlank_eq_false_of_isPlain hc)

/-- A core of plain characters, not empty, after any number of spaces. -/
structure Padded (cs core : List Char) : Prop where
  spaces : ∃ count, cs = List.replicate count ' ' ++ core
  ne_nil : core ≠ []
  plain : ∀ c ∈ core, isPlain c = true

/-- Plain characters without spaces before them. -/
theorem Padded.refl {core : List Char} (hne : core ≠ []) (h : ∀ c ∈ core, isPlain c = true) :
    Padded core core :=
  ⟨⟨0, rfl⟩, hne, h⟩

section Padded

variable {cs core : List Char}

/-- Trimming leaves the core. -/
theorem Padded.trim (h : Padded cs core) : trimStart (trimEnd cs) = core := by
  obtain ⟨⟨count, rfl⟩, hne, hplain⟩ := h
  rw [trimEnd_append_of_isPlain hne hplain]
  induction count with
  | zero =>
      cases core with
      | nil => exact absurd rfl hne
      | cons c rest =>
          exact trimStart_cons (isBlank_eq_false_of_isPlain (hplain c List.mem_cons_self))
  | succ count ih =>
      rw [List.replicate_succ, List.cons_append, trimStart, List.dropWhile_cons]
      exact ih

/-- A character that is neither plain nor a space does not occur. -/
theorem Padded.not_mem (h : Padded cs core) {c : Char} (hc : isPlain c = false)
    (hspace : c ≠ ' ') : c ∉ cs := by
  obtain ⟨⟨count, rfl⟩, -, hplain⟩ := h
  intro hmem
  rcases List.mem_append.mp hmem with hmem | hmem
  · exact hspace (List.eq_of_mem_replicate hmem)
  · exact not_mem_of_isPlain hplain hc hmem

/-- The text ends in plain characters. -/
theorem Padded.trimEnd_append (h : Padded cs core) (before : List Char) :
    trimEnd (before ++ cs) = before ++ cs := by
  obtain ⟨⟨count, rfl⟩, hne, hplain⟩ := h
  rw [← List.append_assoc]
  exact trimEnd_append_of_isPlain hne hplain

/-- The text is not all blank. -/
theorem Padded.isAllBlank_append (h : Padded cs core) (before : List Char) :
    isAllBlank (before ++ cs) = false := by
  obtain ⟨⟨count, rfl⟩, hne, hplain⟩ := h
  obtain ⟨c, hc⟩ := List.exists_mem_of_ne_nil _ hne
  refine List.all_eq_false.mpr ⟨c, ?_, ?_⟩
  · exact List.mem_append_right _ (List.mem_append_right _ hc)
  · rw [isBlank_eq_false_of_isPlain (hplain c hc)]
    exact Bool.false_ne_true

end Padded

/-! ## Splitting -/

section Splitting

variable {separator : Char}

/-- The pieces between separators hold none. -/
theorem not_mem_of_mem_splitOn {cs piece : List Char}
    (h : piece ∈ cs.splitOn separator) : separator ∉ piece := by
  induction cs generalizing piece with
  | nil =>
      obtain rfl := List.mem_singleton.mp h
      exact List.not_mem_nil
  | cons c cs ih =>
      simp only [List.splitOn_cons_eq_if_modifyHead, beq_iff_eq] at h
      split at h
      · rcases List.mem_cons.mp h with rfl | h
        · exact List.not_mem_nil
        · exact ih h
      · next hc =>
          obtain ⟨first, others, hsplit⟩ :=
            List.exists_cons_of_ne_nil (List.splitOn_ne_nil separator cs)
          rw [hsplit] at h ih
          rcases List.mem_cons.mp h with rfl | h
          · -- the first piece grows by a character that is no separator
            intro hmem
            rcases List.mem_cons.mp hmem with heq | hmem
            · exact hc heq.symm
            · exact ih List.mem_cons_self hmem
          · exact ih (List.mem_cons_of_mem _ h)

/-- A joined text holds the separator and the characters of its pieces. -/
theorem mem_intercalate {pieces : List (List Char)} {c : Char}
    (h : c ∈ [separator].intercalate pieces) : c = separator ∨ ∃ piece ∈ pieces, c ∈ piece := by
  induction pieces with
  | nil => cases h
  | cons piece rest ih =>
      cases rest with
      | nil =>
          rw [List.intercalate_singleton] at h
          exact Or.inr ⟨piece, List.mem_cons_self, h⟩
      | cons next others =>
          rw [List.intercalate_cons_cons] at h
          rcases List.mem_append.mp h with h | h
          · rcases List.mem_append.mp h with h | h
            · exact Or.inr ⟨piece, List.mem_cons_self, h⟩
            · exact Or.inl (List.mem_singleton.mp h)
          · rcases ih h with h | ⟨p, hp, hc⟩
            · exact Or.inl h
            · exact Or.inr ⟨p, List.mem_cons_of_mem _ hp, hc⟩

/-- A joined text ends with one of its pieces. -/
theorem exists_intercalate_eq_append {pieces : List (List Char)} (hne : pieces ≠ []) :
    ∃ before, ∃ last ∈ pieces, [separator].intercalate pieces = before ++ last := by
  induction pieces with
  | nil => exact absurd rfl hne
  | cons piece rest ih =>
      cases rest with
      | nil =>
          refine ⟨[], piece, List.mem_cons_self, ?_⟩
          rw [List.intercalate_singleton, List.nil_append]
      | cons next others =>
          obtain ⟨before, last, hlast, hrest⟩ := ih (List.cons_ne_nil _ _)
          refine ⟨piece ++ [separator] ++ before, last, List.mem_cons_of_mem _ hlast, ?_⟩
          rw [List.intercalate_cons_cons, hrest, List.append_assoc _ before]

/-- Joined pieces that hold no separator are one more than the separators between them. -/
theorem count_intercalate {pieces : List (List Char)} (hne : pieces ≠ [])
    (h : ∀ piece ∈ pieces, separator ∉ piece) :
    ([separator].intercalate pieces).count separator + 1 = pieces.length := by
  induction pieces with
  | nil => exact absurd rfl hne
  | cons piece others ih =>
      obtain ⟨hpiece, hothers⟩ := List.forall_mem_cons.mp h
      cases others with
      | nil => simp [List.count_eq_zero.mpr hpiece]
      | cons next rest =>
          rw [List.intercalate_cons_cons, List.count_append, List.count_append,
            List.count_eq_zero.mpr hpiece, List.count_singleton_self, List.length_cons,
            ← ih (List.cons_ne_nil _ _) hothers]
          omega

end Splitting

/-! ## Pieces -/

namespace Piece

/-- Located stretches hold the stretches. -/
@[simp] theorem map_chars_locate (separator : Char) (start : Nat) (pieces : List (List Char)) :
    (locate separator start pieces).map (·.chars) = pieces := by
  induction pieces generalizing start with
  | nil => rfl
  | cons piece rest ih => rw [locate, List.map_cons, ih]

@[simp] theorem map_chars_splitOn (separator : Char) (p : Piece) :
    (p.splitOn separator).map (·.chars) = p.chars.splitOn separator :=
  map_chars_locate separator p.start _

/-- A piece is cut at the first character that passes the test. -/
theorem cutAt_append {test : Char → Bool} {cs rest : List Char} {c : Char} (start : Nat)
    (hcs : ∀ d ∈ cs, test d = false) (hc : test c = true) :
    cutAt test ⟨start, cs ++ c :: rest⟩ =
      some (⟨start, cs⟩, ⟨start + byteSize cs + c.utf8Size, rest⟩) := by
  have hpass : ∀ d ∈ cs, (!test d) = true := fun d hd => by rw [hcs d hd]; rfl
  have hstop : ∀ d ∈ (c :: rest).head?, (!test d) = false := by simpa using hc
  obtain ⟨htake, hdrop⟩ := span_append hpass hstop
  rw [cutAt, dropWhile, takeWhile, htake, hdrop]

/-- A piece is not cut when no character passes the test. -/
theorem cutAt_eq_none {test : Char → Bool} {cs : List Char} (start : Nat)
    (h : ∀ c ∈ cs, test c = false) : cutAt test ⟨start, cs⟩ = none := by
  have hpass : ∀ c ∈ cs, (!test c) = true := by
    intro c hc
    rw [h c hc]
    rfl
  rw [cutAt, dropWhile, List.dropWhile_eq_nil_iff.mpr hpass]

/-- A cut leaves the word in front and what follows, whether or not there is a character to cut
at. -/
theorem getD_cutAt_append {test : Char → Bool} {word rest : List Char} (start : Nat)
    (hword : ∀ c ∈ word, test c = false) (hrest : ∀ c ∈ rest.head?, test c = true) :
    ∃ place, (cutAt test ⟨start, word ++ rest⟩).getD
      (⟨start, word ++ rest⟩, ⟨(span ⟨start, word ++ rest⟩).stop, []⟩) =
        (⟨start, word⟩, ⟨place, rest.tail⟩) := by
  cases rest with
  | nil =>
      rw [List.append_nil, cutAt_eq_none start hword]
      exact ⟨_, rfl⟩
  | cons c rest =>
      rw [cutAt_append start hword (hrest c rfl)]
      exact ⟨_, rfl⟩

/-- Blanks in front are trimmed up to a character that is none. -/
theorem trimStart_append {gap body : List Char} (start : Nat) (hgap : Blanks gap)
    (hbody : ∀ c ∈ body.head?, isBlank c = false) :
    trimStart ⟨start, gap ++ body⟩ = ⟨start + byteSize gap, body⟩ := by
  obtain ⟨htake, hdrop⟩ := span_append hgap hbody
  rw [trimStart, dropWhile, htake, hdrop]

/-- Blanks behind are trimmed down to a character that is none. -/
theorem trimEnd_append {core blanks : List Char} (start : Nat) (hblanks : Blanks blanks)
    (hcore : ∀ c ∈ core.getLast?, isBlank c = false) :
    trimEnd ⟨start, core ++ blanks⟩ = ⟨start, core⟩ := by
  rw [trimEnd, trimEnd_eq_iff.mpr ⟨blanks, rfl, hblanks, hcore⟩]

end Piece

end SpriteTables.Text
