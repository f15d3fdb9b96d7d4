import SpriteTables.Proofs.Artifact.Alike

/-!
# The layout of an artifact does not change its meaning

Blanks and comments at the end of lines, lines of nothing else and carriage returns before line
feeds may be added to a text anywhere, also inside a table, between the labels of a record or
between the two bytes of a word. What is read stays the same, and so does what a reading that
fails reports, apart from places (`parse_of_layout`). For the meaning of a text depends on its
contents alone (`parse_alike_of_contents_eq`), and any number of such changes keeps these
(`contents_of_layout`).
-/

set_option autoImplicit false

namespace SpriteTables

open Text (linesOf)

section Layout

variable {text text' : String}

/-- A draft outside of any record says the same as itself. -/
theorem Draft.alike_refl_of_not_underway {d : Draft} (h : d.underway = none) : d.Alike d :=
  ⟨rfl, rfl, rfl, rfl, rfl, h ▸ .none, rfl⟩

/-- Texts with the same contents hold the same artifact or fail for the same cause, with the
same remarks. -/
theorem parse_alike_of_contents_eq (h : contents text.toList = contents text'.toList)
    (entrySize : Nat) :
    (Artifact.parse entrySize text).log = (Artifact.parse entrySize text').log ∧
      Alike (· = ·) (Artifact.parse entrySize text).value
        (Artifact.parse entrySize text').value := by
  have hspoken : ∀ other : String,
      (((linesOf other).filter fun line => contentChars line.chars ≠ []).map fun line =>
        contentChars line.chars) = contents other.toList := by
    intro other
    rw [← contents_linesOf, List.filter_map]
    rfl
  have hrun : EndAlike (Draft.run { entrySize } (linesOf text))
      (Draft.run { entrySize } (linesOf text')) := by
    rw [← run_filter_silent, ← run_filter_silent _ (linesOf text')]
    apply run_alike (Draft.alike_refl_of_not_underway rfl)
    rw [hspoken, hspoken, h]
  exact conclude_alike hrun

/-- Any number of changes of layout keep the contents. -/
theorem contents_of_layout {cs ds : List Char} (h : Relation.ReflTransGen LayoutStep cs ds) :
    contents cs = contents ds := by
  induction h with
  | refl => rfl
  | tail _ hstep ih => rw [ih, contents_of_layoutStep hstep]

end Layout

/-- Layout does not change meaning: after any number of changes of layout, a text that held
an artifact holds the same one, a text that could not be read fails for the same cause with
the same words in it, and the remarks are the same. -/
theorem parse_of_layout {text text' : String}
    (h : Relation.ReflTransGen LayoutStep text.toList text'.toList) (entrySize : Nat) :
    (∀ artifact, (Artifact.parse entrySize text).value = .ok artifact →
      (Artifact.parse entrySize text').value = .ok artifact) ∧
    (∀ e, (Artifact.parse entrySize text).value = .error e →
      ∃ e', (Artifact.parse entrySize text').value = .error e' ∧ e'.cause = e.cause) ∧
    (Artifact.parse entrySize text').log = (Artifact.parse entrySize text).log := by
  obtain ⟨hlog, hvalue⟩ := parse_alike_of_contents_eq (contents_of_layout h) entrySize
  refine ⟨?_, ?_, hlog.symm⟩
  · intro artifact hartifact
    rw [hartifact] at hvalue
    generalize (Artifact.parse entrySize text').value = value at hvalue
    cases hvalue with
    | ok hsame => rw [hsame]
  · intro e he
    rw [he] at hvalue
    generalize (Artifact.parse entrySize text').value = value at hvalue
    cases hvalue with
    | @error _ e' hcause => exact ⟨e', rfl, hcause.symm⟩

/-- A comment between the two bytes of a word, blanks behind a label and a carriage return
before a line feed leave a record what it is. -/
theorem parse_of_layout_inside_word :
    Relation.ReflTransGen LayoutStep "\tdc.w A-T\nA:\n\tdc.b 0\n\tdc.b 0".toList
        "\tdc.w A-T\r\nA: \t\n\tdc.b 0\n ; low\n\tdc.b 0".toList ∧
      (Artifact.parse 1 "\tdc.w A-T\r\nA: \t\n\tdc.b 0\n ; low\n\tdc.b 0").value =
        .ok ⟨⟨[⟨"A", "T"⟩]⟩, [⟨⟨0, []⟩, ["A"]⟩]⟩ := by
  have hreturn : LayoutStep "\tdc.w A-T\nA:\n\tdc.b 0\n\tdc.b 0".toList
      "\tdc.w A-T\r\nA:\n\tdc.b 0\n\tdc.b 0".toList :=
    @LayoutStep.returned "\tdc.w A-T".toList "A:\n\tdc.b 0\n\tdc.b 0".toList
  have hblanks : LayoutStep "\tdc.w A-T\r\nA:\n\tdc.b 0\n\tdc.b 0".toList
      "\tdc.w A-T\r\nA: \t\n\tdc.b 0\n\tdc.b 0".toList :=
    @LayoutStep.blanks "\tdc.w A-T\r\nA:".toList "\n\tdc.b 0\n\tdc.b 0".toList " \t".toList
      ⟨[], _, rfl, Or.inl rfl, Or.inr ⟨_, rfl⟩⟩
      (List.forall_mem_cons.mpr ⟨rfl, List.forall_mem_singleton.mpr rfl⟩) (by decide)
  have hline : LayoutStep "\tdc.w A-T\r\nA: \t\n\tdc.b 0\n\tdc.b 0".toList
      "\tdc.w A-T\r\nA: \t\n\tdc.b 0\n ; low\n\tdc.b 0".toList :=
    @LayoutStep.line "\tdc.w A-T\r\nA: \t\n\tdc.b 0\n".toList "\tdc.b 0".toList " ; low".toList
      (Or.inr ⟨"\tdc.w A-T\r\nA: \t\n\tdc.b 0".toList, rfl⟩)
      ⟨[' '], _, rfl, List.forall_mem_singleton.mpr rfl, Or.inr ⟨_, rfl⟩⟩ (by decide)
  have hlayout := ((Relation.ReflTransGen.single hreturn).tail hblanks).tail hline
  refine ⟨hlayout, (parse_of_layout hlayout 1).1 _ ?_⟩
  decide +kernel

end SpriteTables
