import Mathlib.Data.List.Forall2
import Mathlib.Data.List.TakeWhile
import SpriteTables.Text.Piece

/-!
# What trimming leaves

Trimming and tokens both go by the longest beginning whose characters pass a test. What a trim
leaves is described here without running it: the text is blanks and then what is left, and what is
left has no blank at that end (`trimStart_eq_iff`, `trimEnd_eq_iff`, `trims_iff`).
-/

set_option autoImplicit false

namespace SpriteTables.Text

/-! ## The longest beginning that passes a test -/

section Longest

variable {test : Char → Bool} {cs rest : List Char}

/-- What a test leaves begins with a character that fails it. -/
theorem head?_dropWhile_eq_false (test : Char → Bool) (cs : List Char) :
    ∀ c ∈ (cs.dropWhile test).head?, test c = false := by
  intro c hc
  have hhead := List.head?_dropWhile_not test cs
  rw [Option.mem_def.mp hc] at hhead
  exact hhead

/-- The longest beginning whose characters pass a test stops before one that fails it. -/
theorem span_append (hcs : ∀ c ∈ cs, test c = true) (hrest : ∀ c ∈ rest.head?, test c = false) :
    (cs ++ rest).takeWhile test = cs ∧ (cs ++ rest).dropWhile test = rest := by
  rw [List.takeWhile_append_of_pos hcs, List.dropWhile_append_of_pos hcs]
  cases rest with
  | nil => simp
  | cons c rest => simp [hrest c rfl]

/-- Every text is its longest beginning that passes a test, and the rest. -/
theorem exists_span (test : Char → Bool) (cs : List Char) :
    ∃ front rest, cs = front ++ rest ∧ (∀ c ∈ front, test c = true) ∧
      ∀ c ∈ rest.head?, test c = false := by
  refine ⟨cs.takeWhile test, cs.dropWhile test, List.takeWhile_append_dropWhile.symm, ?_,
    head?_dropWhile_eq_false test cs⟩
  intro c hc
  exact List.mem_takeWhile_imp hc

end Longest

/-! ## One end -/

/-- A text of nothing but blanks. -/
def Blanks (cs : List Char) : Prop :=
  ∀ c ∈ cs, isBlank c = true

/-- A text that begins with a character other than a blank. -/
def Flush (cs : List Char) : Prop :=
  ∃ c rest, cs = c :: rest ∧ isBlank c = false

section Ends

variable {cs core : List Char}

theorem isAllBlank_iff : isAllBlank cs = true ↔ Blanks cs :=
  List.all_eq_true

theorem Blanks.nil : Blanks [] :=
  fun _ hc => absurd hc List.not_mem_nil

/-- Nothing but blanks is left of nothing only. -/
theorem trimStart_eq_nil_iff : trimStart cs = [] ↔ Blanks cs :=
  List.dropWhile_eq_nil_iff

/-- A text that is not empty and begins with no blank. -/
theorem flush_of_ne_nil (hne : cs ≠ []) (h : ∀ c ∈ cs.head?, isBlank c = false) : Flush cs := by
  obtain ⟨c, rest, rfl⟩ := List.exists_cons_of_ne_nil hne
  exact ⟨c, rest, rfl, h c rfl⟩

theorem Flush.head? (h : Flush cs) : ∀ c ∈ cs.head?, isBlank c = false := by
  obtain ⟨first, rest, rfl, hfirst⟩ := h
  intro c hc
  obtain rfl := Option.mem_some.mp hc
  exact hfirst

/-- A text without blanks in front is left by a trim of it with blanks before. -/
theorem trimStart_eq_iff :
    trimStart cs = core ↔
      ∃ before, cs = before ++ core ∧ Blanks before ∧ ∀ c ∈ core.head?, isBlank c = false := by
  constructor
  · rintro rfl
    refine ⟨cs.takeWhile isBlank, List.takeWhile_append_dropWhile.symm, ?_, ?_⟩
    · intro c hc
      exact List.mem_takeWhile_imp hc
    · exact head?_dropWhile_eq_false isBlank cs
  · rintro ⟨before, rfl, hbefore, hcore⟩
    exact (span_append hbefore hcore).2

theorem trimEnd_eq_iff_trimStart : trimEnd cs = core ↔ trimStart cs.reverse = core.reverse := by
  rw [trimEnd, trimStart, List.reverse_eq_iff]

/-- A text without blanks behind is left by a trim of it with blanks after. -/
theorem trimEnd_eq_iff :
    trimEnd cs = core ↔
      ∃ after, cs = core ++ after ∧ Blanks after ∧ ∀ c ∈ core.getLast?, isBlank c = false := by
  rw [trimEnd_eq_iff_trimStart, trimStart_eq_iff]
  simp only [List.head?_reverse]
  constructor
  · rintro ⟨before, hcs, hbefore, hcore⟩
    refine ⟨before.reverse, ?_, ?_, hcore⟩
    · rw [← List.reverse_reverse cs, hcs, List.reverse_append, List.reverse_reverse]
    · intro c hc
      exact hbefore c (List.mem_reverse.mp hc)
  · rintro ⟨after, rfl, hafter, hcore⟩
    refine ⟨after.reverse, List.reverse_append, ?_, hcore⟩
    intro c hc
    exact hafter c (List.mem_reverse.mp hc)

/-- Every text is blanks and what begins with none. -/
theorem exists_trimStart (cs : List Char) :
    ∃ before core, cs = before ++ core ∧ Blanks before ∧ ∀ c ∈ core.head?, isBlank c = false :=
  exists_span isBlank cs

/-- Every text is what ends with no blank, and blanks. -/
theorem exists_trimEnd (cs : List Char) :
    ∃ core after, cs = core ++ after ∧ Blanks after ∧
      ∀ c ∈ core.getLast?, isBlank c = false := by
  obtain ⟨after, hafter⟩ := trimEnd_eq_iff.mp (Eq.refl (trimEnd cs))
  exact ⟨trimEnd cs, after, hafter⟩

end Ends

/-! ## Both ends -/

/-- A text is blanks, a core without blanks at its ends, and blanks. -/
structure Trims (cs core : List Char) : Prop where
  between : ∃ before after, cs = before ++ core ++ after ∧ Blanks before ∧ Blanks after
  head : ∀ c ∈ core.head?, isBlank c = false
  last : ∀ c ∈ core.getLast?, isBlank c = false

section Both

variable {cs core : List Char}

/-- The core is what trimming both ends leaves. -/
theorem trims_iff : Trims cs core ↔ trimStart (trimEnd cs) = core := by
  constructor
  · rintro ⟨⟨before, after, rfl, hbefore, hafter⟩, hhead, hlast⟩
    by_cases hcore : core = []
    · -- everything is blank
      have hblanks : Blanks (before ++ core ++ after) := by
        rw [hcore, List.append_nil]
        exact List.forall_mem_append.mpr ⟨hbefore, hafter⟩
      have hend : trimEnd (before ++ core ++ after) = [] := by
        apply trimEnd_eq_iff.mpr
        exact ⟨_, rfl, hblanks, by simp⟩
      rw [hend, hcore]
      rfl
    · -- the core still stands at the end after the first trim
      have hend : trimEnd (before ++ core ++ after) = before ++ core := by
        apply trimEnd_eq_iff.mpr
        refine ⟨after, rfl, hafter, ?_⟩
        have hsame : (before ++ core).getLast? = core.getLast? := by
          rw [List.getLast?_append, List.getLast?_eq_some_getLast hcore]
          rfl
        rwa [hsame]
      rw [hend]
      exact trimStart_eq_iff.mpr ⟨before, rfl, hbefore, hhead⟩
  · intro h
    obtain ⟨before, hmiddle, hbefore, hhead⟩ := trimStart_eq_iff.mp h
    obtain ⟨after, hcs, hafter, hlast⟩ := trimEnd_eq_iff.mp hmiddle
    refine ⟨⟨before, after, hcs, hbefore, hafter⟩, hhead, ?_⟩
    intro c hc
    apply hlast
    rw [List.getLast?_append, Option.mem_def.mp hc]
    rfl

/-- The cores of several texts, one by one, are what trimming each of them leaves. -/
theorem forall₂_trims_iff {pieces cores : List (List Char)} :
    List.Forall₂ Trims pieces cores ↔
      pieces.map (fun piece => trimStart (trimEnd piece)) = cores := by
  have hrelation : Trims = fun piece core => trimStart (trimEnd piece) = core := by
    funext piece core
    exact propext trims_iff
  rw [hrelation, ← List.forall₂_map_left_iff, List.forall₂_eq_eq_eq]

end Both

end SpriteTables.Text
