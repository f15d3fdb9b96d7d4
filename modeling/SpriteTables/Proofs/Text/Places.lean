import SpriteTables.Proofs.Text.Cuts

/-!
# Stretches of a piece

A piece that is cut or trimmed leaves stretches of itself. This module says what a stretch is, by
the characters before and after it (`Piece.In`), and that every cut gives one with the right
offset. The spans of stretches lie inside the piece and between characters. The pieces between
separators stand one after the other, the separators between them (`pairwise_before_splitOn`,
`consecutive_of_splitOn`).
-/

set_option autoImplicit false

namespace SpriteTables.Text

/-! ## Sizes and spans -/

theorem byteSize_eq_zero_iff {cs : List Char} : byteSize cs = 0 ↔ cs = [] := by
  cases cs with
  | nil => simp
  | cons c cs =>
      have hc : 0 < c.utf8Size := Char.utf8Size_pos c
      simp only [byteSize_cons, reduceCtorEq, iff_false]
      omega

/-- Of two beginnings of a text the one with fewer bytes begins the other. -/
theorem prefix_of_byteSize_le {as bs cs : List Char} (ha : as <+: cs) (hb : bs <+: cs)
    (h : byteSize as ≤ byteSize bs) : as <+: bs := by
  rcases List.prefix_or_prefix_of_prefix ha hb with hab | ⟨more, rfl⟩
  · exact hab
  · -- the longer one has no byte more, so it is no longer
    have hmore : byteSize more = 0 := by
      rw [byteSize_append] at h
      omega
    obtain rfl : more = [] := byteSize_eq_zero_iff.mp hmore
    exact ⟨[], by simp⟩

/-- A span lies inside another. -/
def Span.Inside (inner outer : Span) : Prop :=
  outer.start ≤ inner.start ∧ inner.stop ≤ outer.stop

namespace Piece

/-! ## Stretches -/

/-- A piece is a stretch of another, and its offset says where. -/
def In (p q : Piece) : Prop :=
  ∃ before after, q.chars = before ++ p.chars ++ after ∧ p.start = q.start + byteSize before

section In

variable {p q r : Piece}

theorem In.refl (p : Piece) : p.In p :=
  ⟨[], [], by simp, by simp⟩

theorem In.trans (h : p.In q) (h' : q.In r) : p.In r := by
  obtain ⟨before, after, hchars, hstart⟩ := h
  obtain ⟨before', after', hchars', hstart'⟩ := h'
  refine ⟨before' ++ before, after ++ after', ?_, ?_⟩
  · simp [hchars', hchars]
  · rw [hstart, hstart', byteSize_append, Nat.add_assoc]

theorem In.start_le (h : p.In q) : q.start ≤ p.start := by
  obtain ⟨before, after, -, hstart⟩ := h
  omega

theorem In.stop_le (h : p.In q) : p.span.stop ≤ q.span.stop := by
  obtain ⟨before, after, hchars, hstart⟩ := h
  simp only [span, hchars, byteSize_append, hstart]
  omega

/-- A stretch of a text ends within the text. -/
theorem In.stop_le_byteSize {text : String} (h : p.In (whole text)) :
    p.span.stop ≤ byteSize text.toList := by
  have hstop := h.stop_le
  simp only [whole, span, Nat.zero_add] at hstop
  exact hstop

/-- The span of a stretch lies inside that of the piece. -/
theorem In.inside (h : p.In q) : p.span.Inside q.span :=
  ⟨h.start_le, h.stop_le⟩

theorem start_le_stop (p : Piece) : p.span.start ≤ p.span.stop :=
  Nat.le_add_right _ _

end In

/-! ## Cuts and trims -/

section Cuts

variable (test : Char → Bool) (p : Piece)

theorem takeWhile_in : (p.takeWhile test).In p :=
  ⟨[], p.chars.dropWhile test, by simp [takeWhile], by simp [takeWhile]⟩

theorem dropWhile_in : (p.dropWhile test).In p :=
  ⟨p.chars.takeWhile test, [], by simp [dropWhile], rfl⟩

theorem trimStart_in : p.trimStart.In p :=
  dropWhile_in isBlank p

theorem trimEnd_in : p.trimEnd.In p := by
  refine ⟨[], (p.chars.reverse.takeWhile isBlank).reverse, ?_, by simp [trimEnd]⟩
  have hsplit : p.chars = (p.chars.reverse.takeWhile isBlank ++
      p.chars.reverse.dropWhile isBlank).reverse := by
    rw [List.takeWhile_append_dropWhile, List.reverse_reverse]
  rw [List.reverse_append] at hsplit
  simpa [trimEnd, Text.trimEnd] using hsplit

theorem trim_in : p.trim.In p :=
  (trimStart_in p.trimEnd).trans (trimEnd_in p)

/-- A piece is blanks, what trimming leaves of it, and blanks. -/
theorem exists_trim :
    ∃ before after, p.chars = before ++ p.trim.chars ++ after ∧ Blanks before ∧ Blanks after ∧
      p.trim.start = p.start + byteSize before := by
  obtain ⟨after, hend, hafter, -⟩ := trimEnd_eq_iff.mp (Eq.refl (Text.trimEnd p.chars))
  have hstart : (Text.trimEnd p.chars).takeWhile isBlank ++ p.trim.chars = Text.trimEnd p.chars :=
    List.takeWhile_append_dropWhile
  refine ⟨(Text.trimEnd p.chars).takeWhile isBlank, after, ?_, ?_, hafter, rfl⟩
  · rw [hstart]
    exact hend
  · intro c hc
    exact List.mem_takeWhile_imp hc

variable {test p}

/-- A cut leaves a beginning, a character that passes the test, and the rest. -/
theorem cutAt_eq_some {left right : Piece} (h : p.cutAt test = some (left, right)) :
    left = p.takeWhile (fun c => !test c) ∧
      ∃ c, test c = true ∧ p.chars = left.chars ++ c :: right.chars ∧
        right.start = left.span.stop + c.utf8Size := by
  rw [cutAt] at h
  split at h
  · cases h
  · next start c rest hdrop =>
      cases h
      have hstart : start = p.start + byteSize (p.chars.takeWhile fun c => !test c) :=
        (congrArg Piece.start hdrop).symm
      have hchars : p.chars.dropWhile (fun c => !test c) = c :: rest := congrArg Piece.chars hdrop
      have hc : (!test c) = false := by
        have hhead := List.head?_dropWhile_not (fun c => !test c) p.chars
        rw [hchars] at hhead
        simpa using hhead
      refine ⟨rfl, c, by simpa using hc, ?_, ?_⟩
      · rw [← hchars]
        exact List.takeWhile_append_dropWhile.symm
      · rw [hstart]
        rfl

/-- What stands before and after a cut is part of the piece. -/
theorem in_of_cutAt {left right : Piece} (h : p.cutAt test = some (left, right)) :
    left.In p ∧ right.In p := by
  obtain ⟨rfl, c, -, hchars, hstart⟩ := cutAt_eq_some h
  refine ⟨takeWhile_in _ p, (p.takeWhile fun c => !test c).chars ++ [c], [], ?_, ?_⟩
  · simpa using hchars
  · rw [hstart, span, byteSize_append]
    simp [takeWhile, Nat.add_assoc]

end Cuts

/-! ## Pieces between separators -/

/-- A piece ends before another begins. -/
def Before (p q : Piece) : Prop :=
  p.span.stop < q.start

/-- Stretches of pieces stand as the pieces do. -/
theorem Before.of_in {p q p' q' : Piece} (h : p.Before q) (hp : p'.In p) (hq : q'.In q) :
    p'.Before q' :=
  Nat.lt_of_le_of_lt hp.stop_le (Nat.lt_of_lt_of_le h hq.start_le)

section Splitting

variable {separator : Char}

theorem start_le_of_mem_locate {pieces : List (List Char)} {start : Nat} {piece : Piece}
    (h : piece ∈ locate separator start pieces) : start ≤ piece.start := by
  induction pieces generalizing start with
  | nil => cases h
  | cons cs rest ih =>
      rw [locate] at h
      rcases List.mem_cons.mp h with rfl | h
      · exact Nat.le_refl start
      · have hstart := ih h
        omega

/-- Located stretches stand one after the other. -/
theorem pairwise_before_locate (pieces : List (List Char)) (start : Nat) :
    (locate separator start pieces).Pairwise Before := by
  induction pieces generalizing start with
  | nil => exact List.Pairwise.nil
  | cons cs rest ih =>
      refine List.pairwise_cons.mpr ⟨?_, ih _⟩
      intro piece hpiece
      have hsize : 0 < separator.utf8Size := Char.utf8Size_pos separator
      have hstart := start_le_of_mem_locate hpiece
      show start + byteSize cs < piece.start
      omega

/-- The pieces between separators stand one after the other. -/
theorem pairwise_before_splitOn (p : Piece) : (p.splitOn separator).Pairwise Before :=
  pairwise_before_locate _ _

/-- The pieces between separators hold none, and joining them gives the text. -/
theorem splitOn_eq_iff {cs : List Char} {pieces : List (List Char)} (hne : pieces ≠ []) :
    cs.splitOn separator = pieces ↔
      cs = [separator].intercalate pieces ∧ ∀ piece ∈ pieces, separator ∉ piece := by
  constructor
  · rintro rfl
    exact ⟨(List.intercalate_splitOn separator).symm, fun _ => not_mem_of_mem_splitOn⟩
  · rintro ⟨rfl, hpieces⟩
    exact List.splitOn_intercalate separator hpieces hne

/-- What follows the first of joined stretches is a stretch of the whole. -/
theorem tail_in_intercalate (start : Nat) (cs next : List Char) (others : List (List Char)) :
    Piece.In ⟨start + byteSize cs + separator.utf8Size, [separator].intercalate (next :: others)⟩
      ⟨start, [separator].intercalate (cs :: next :: others)⟩ := by
  refine ⟨cs ++ [separator], [], ?_, ?_⟩
  · simp
  · simp [Nat.add_assoc]

/-- Located stretches are stretches of what they were joined to. -/
theorem in_of_mem_locate {pieces : List (List Char)} {start : Nat} {piece : Piece}
    (h : piece ∈ locate separator start pieces) :
    piece.In ⟨start, [separator].intercalate pieces⟩ := by
  induction pieces generalizing start with
  | nil => cases h
  | cons cs rest ih =>
      cases rest with
      | nil =>
          rw [locate, locate, List.mem_singleton] at h
          rw [h, List.intercalate_singleton]
          exact In.refl _
      | cons next others =>
          rw [locate] at h
          rcases List.mem_cons.mp h with rfl | h
          · rw [List.intercalate_cons_cons]
            exact ⟨[], [separator] ++ [separator].intercalate (next :: others), by simp, by simp⟩
          · exact (ih h).trans (tail_in_intercalate start cs next others)

/-- Two located stretches in a row are a stretch with the separator between them. -/
theorem consecutive_of_locate {pieces : List (List Char)} {start : Nat} {front back : List Piece}
    {a b : Piece} (h : locate separator start pieces = front ++ a :: b :: back) :
    Piece.In ⟨a.start, a.chars ++ separator :: b.chars⟩ ⟨start, [separator].intercalate pieces⟩ ∧
      b.start = a.span.stop + separator.utf8Size := by
  induction front generalizing pieces start with
  | nil =>
      match pieces, h with
      | cs :: next :: others, h =>
          obtain ⟨rfl, hrest⟩ := List.cons.inj h
          obtain ⟨rfl, -⟩ := List.cons.inj hrest
          refine ⟨?_, rfl⟩
          cases others with
          | nil => exact ⟨[], [], by simp, by simp⟩
          | cons after more =>
              exact ⟨[], separator :: [separator].intercalate (after :: more), by simp, by simp⟩
  | cons first front ih =>
      match pieces, h with
      | cs :: rest, h =>
          obtain ⟨-, hrest⟩ := List.cons.inj h
          obtain ⟨hin, hstart⟩ := ih hrest
          cases rest with
          | nil => cases front <;> cases hrest
          | cons next others => exact ⟨hin.trans (tail_in_intercalate start cs next others), hstart⟩

/-- The pieces between separators are stretches of the whole. -/
theorem in_of_mem_splitOn {p piece : Piece} (h : piece ∈ p.splitOn separator) : piece.In p := by
  have hin := in_of_mem_locate h
  rwa [List.intercalate_splitOn] at hin

/-- Two pieces in a row are a stretch with the separator between them. -/
theorem consecutive_of_splitOn {p a b : Piece} {front back : List Piece}
    (h : p.splitOn separator = front ++ a :: b :: back) :
    Piece.In ⟨a.start, a.chars ++ separator :: b.chars⟩ p ∧
      b.start = a.span.stop + separator.utf8Size := by
  have hconsecutive := consecutive_of_locate h
  rwa [List.intercalate_splitOn] at hconsecutive

/-- Between two trimmed pieces in a row there are the separator and blanks. -/
theorem exists_gap_of_splitOn {p a b : Piece} {front back : List Piece}
    (h : p.splitOn separator = front ++ a :: b :: back) :
    ∃ before after, Blanks before ∧ Blanks after ∧
      ∃ gap : Piece, gap.In p ∧ gap.chars = before ++ separator :: after ∧
        gap.span = ⟨a.trim.span.stop, b.trim.span.start⟩ := by
  obtain ⟨hin, hstart⟩ := consecutive_of_splitOn h
  obtain ⟨left, before, ha, -, hbefore, hatrim⟩ := a.exists_trim
  obtain ⟨after, right, hb, hafter, -, hbtrim⟩ := b.exists_trim
  refine ⟨before, after, hbefore, hafter, ⟨a.trim.span.stop, before ++ separator :: after⟩, ?_, rfl,
    ?_⟩
  · refine In.trans ⟨left ++ a.trim.chars, b.trim.chars ++ right, ?_, ?_⟩ hin
    · simp [ha, hb]
    · simp [span, hatrim, Nat.add_assoc]
  · have hsize := congrArg byteSize ha
    simp only [byteSize_append] at hsize
    simp only [span, byteSize_append, byteSize_cons, hbtrim, hstart, Span.mk.injEq, true_and]
    omega

end Splitting

/-! ## From one stretch to another -/

/-- From the start of a stretch to the end of one that ends later is a stretch. -/
theorem In.exists_hull {p p' q : Piece} (h : p.In q) (h' : p'.In q)
    (hle : p.span.start ≤ p'.span.stop) :
    ∃ r : Piece, r.In q ∧ r.span = ⟨p.span.start, p'.span.stop⟩ := by
  obtain ⟨before, after, hchars, hstart⟩ := h
  obtain ⟨before', after', hchars', hstart'⟩ := h'
  have hprefix : before <+: q.chars := ⟨p.chars ++ after, by rw [hchars, List.append_assoc]⟩
  have hprefix' : before' ++ p'.chars <+: q.chars := ⟨after', hchars'.symm⟩
  have hsize : byteSize before ≤ byteSize (before' ++ p'.chars) := by
    simp only [span, hstart, hstart'] at hle
    rw [byteSize_append]
    omega
  -- what stands before the first stretch also begins what stands up to the end of the second
  obtain ⟨middle, hmiddle⟩ := prefix_of_byteSize_le hprefix hprefix' hsize
  refine ⟨⟨p.start, middle⟩, ⟨before, after', ?_, hstart⟩, ?_⟩
  · rw [hchars', hmiddle]
  · have hbytes : byteSize before + byteSize middle = byteSize before' + byteSize p'.chars := by
      rw [← byteSize_append, ← byteSize_append, hmiddle]
    simp only [span, hstart, hstart', Span.mk.injEq, true_and]
    omega

end Piece

/-! ## Characters at a span -/

/-- A span covers some characters of a text: it begins after the bytes of the characters
before them and ends with their last byte. -/
def Span.Covers (span : Span) (text : String) (chars : List Char) : Prop :=
  ∃ before after, text.toList = before ++ chars ++ after ∧ span.start = byteSize before ∧
    span.stop = byteSize (before ++ chars)

section Covers

variable {span : Span} {text : String} {chars : List Char}

theorem Span.Covers.start_le_stop (h : span.Covers text chars) : span.start ≤ span.stop := by
  obtain ⟨before, after, -, hstart, hstop⟩ := h
  rw [hstart, hstop, byteSize_append]
  exact Nat.le_add_right _ _

theorem Span.Covers.stop_le (h : span.Covers text chars) :
    span.stop ≤ byteSize text.toList := by
  obtain ⟨before, after, htext, -, hstop⟩ := h
  rw [hstop, htext, byteSize_append (before ++ chars)]
  exact Nat.le_add_right _ _

/-- A stretch of a text has its characters at its span. -/
theorem Piece.In.covers {q : Piece} (h : q.In (Piece.whole text)) :
    q.span.Covers text q.chars := by
  obtain ⟨before, after, htext, hstart⟩ := h
  have hstart' : q.start = byteSize before := hstart.trans (Nat.zero_add _)
  refine ⟨before, after, htext, hstart', ?_⟩
  rw [byteSize_append, ← hstart']
  rfl

end Covers

end SpriteTables.Text
