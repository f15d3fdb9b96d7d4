import SpriteTables.Listing
import SpriteTables.Proofs.Statement.Grammar
import SpriteTables.Proofs.Text.Lines

/-!
# Statements of written lines

A listing has two kinds of lines: one declares a label, the other holds a directive with its
operands. Read back, each is a statement that says just that (`ofLine_of_labelLine`,
`ofLine_of_directiveLine`), and neither is cut into several lines. Conversely, every label that a
line declares is an identifier (`isIdentifier_of_ofLine`).
-/

set_option autoImplicit false

namespace SpriteTables.Statement

open Text (Piece Line Padded isPlain)

/-! ## Declared labels -/

/-- A label that was read from a line is an identifier. -/
theorem isIdentifier_of_ofLine {line : Line} {s : Statement} {label : Label}
    (h : ofLine line = .ok s) (hlabel : s.label = some label) :
    isIdentifier label.chars = true := by
  have hsays : ContentText (contentChars line.chars) (some label.chars) s.body.said := by
    apply exists_ofLine_iff.mp
    exact ⟨s, h, congrArg (Option.map (·.chars)) hlabel, rfl⟩
  generalize contentChars line.chars = content at hsays
  generalize s.body.said = said at hsays
  cases hsays with
  | led hlead hbody =>
      cases hlead with
      | labelled hname hblanks hgap => exact isIdentifier_iff.mpr hname

/-! ## Written lines -/

theorem oneLine_labelLine {name : String} (hname : isIdentifier name.toList = true) :
    Text.OneLine (Listing.labelLine name) := by
  have hout : ∀ c, isPlain c = false → c ≠ ':' → c ∉ (Listing.labelLine name).toList := by
    intro c hc hcolon hmem
    rw [Listing.labelLine, String.toList_append] at hmem
    rcases List.mem_append.mp hmem with hmem | hmem
    · exact Text.not_mem_of_isPlain (isPlain_of_isIdentifier hname) hc hmem
    · exact hcolon (List.mem_singleton.mp hmem)
  exact ⟨hout _ rfl (by decide), hout _ rfl (by decide)⟩

/-- A line that writes a label declares it. -/
theorem ofLine_of_labelLine {line : Line} {name : String}
    (hname : isIdentifier name.toList = true)
    (hline : line.chars = (Listing.labelLine name).toList) :
    ∃ label : Label, label.name = name ∧ ofLine line = .ok { line, label := some label } := by
  have hplain : ∀ c ∈ name.toList, isPlain c = true := isPlain_of_isIdentifier hname
  have hchars : line.chars = name.toList ++ [':'] := by
    rw [hline, Listing.labelLine, String.toList_append]
    rfl
  have hcontent : contentChars line.chars = name.toList ++ [':'] := by
    rw [hchars]
    refine contentChars_eq_self ?_ (Text.trimEnd_concat rfl)
    simpa using Text.not_mem_of_isPlain hplain rfl
  have htext : ContentText (contentChars line.chars) (some name.toList) .nothing := by
    have hlead := Lead.labelled (isIdentifier_iff.mp hname) Text.Blanks.nil Text.Blanks.nil
    simpa [hcontent] using ContentText.led hlead .nothing
  obtain ⟨s, hs, hlabel, hbody⟩ := ofLine_of_contentText htext
  obtain ⟨label, hsome, hlabelChars⟩ := Option.map_eq_some_iff.mp hlabel
  refine ⟨label, ?_, ?_⟩
  · rw [Label.name, Piece.text, hlabelChars, String.ofList_toList]
  · obtain ⟨rfl, -⟩ := parts_of_ofLine hs
    rw [hs, ← hsome, ← Body.said_eq_nothing_iff.mp hbody]

section Directives

variable {ι : Type} {width : Width} {items : List ι} {text : ι → String} {core : ι → List Char}

/-- The characters of a directive's operands between commas. -/
def operandChars (items : List ι) (text : ι → String) : List Char :=
  [','].intercalate (items.map fun item => (text item).toList)

theorem toList_directiveLine :
    (Listing.directiveLine width (items.map text)).toList =
      '\t' :: '\t' :: (width.keyword.toList ++ ' ' :: operandChars items text) := by
  rw [Listing.directiveLine]
  simp [operandChars, String.toList_intercalate, List.map_map, Function.comp_def]

/-- What is neither plain nor a space nor a comma does not occur in operands. -/
theorem not_mem_operandChars
    (hpadded : ∀ item ∈ items, Padded (text item).toList (core item)) {c : Char}
    (hc : isPlain c = false) (hspace : c ≠ ' ') (hcomma : c ≠ ',') :
    c ∉ operandChars items text := by
  intro hmem
  rcases Text.mem_intercalate hmem with heq | ⟨piece, hpiece, hmem⟩
  · exact hcomma heq
  · obtain ⟨item, hitem, rfl⟩ := List.mem_map.mp hpiece
    exact (hpadded item hitem).not_mem hc hspace hmem

theorem oneLine_directiveLine
    (hpadded : ∀ item ∈ items, Padded (text item).toList (core item)) :
    Text.OneLine (Listing.directiveLine width (items.map text)) := by
  have hout : ∀ c ∈ ['\n', '\r'], c ∉ (Listing.directiveLine width (items.map text)).toList := by
    intro c hc
    rw [toList_directiveLine]
    have hplain : isPlain c = false ∧ c ≠ ' ' ∧ c ≠ ',' ∧ c ≠ '\t' ∧ c ∉ width.keyword.toList := by
      rcases List.mem_cons.mp hc with rfl | hc
      · cases width <;> decide
      · obtain rfl := List.mem_singleton.mp hc
        cases width <;> decide
    obtain ⟨hc, hspace, hcomma, htab, hkeyword⟩ := hplain
    simp [htab, hspace, hkeyword, not_mem_operandChars hpadded hc hspace hcomma]
  exact ⟨hout _ (by decide), hout _ (by decide)⟩

/-- Written operands end with a padded one. -/
theorem exists_operandChars_eq_append (hne : items ≠ [])
    (hpadded : ∀ item ∈ items, Padded (text item).toList (core item)) :
    ∃ before, ∃ item, Padded (text item).toList (core item) ∧
      operandChars items text = before ++ (text item).toList := by
  obtain ⟨before, last, hlast, hbody⟩ := @Text.exists_intercalate_eq_append ',' _
    (fun hnil => hne (List.map_eq_nil_iff.mp hnil))
  obtain ⟨item, hitem, rfl⟩ := List.mem_map.mp hlast
  exact ⟨before, item, hpadded item hitem, hbody⟩

/-- A keyword and padded operands make a directive with these operands. -/
theorem directiveText_of_operands (width : Width) (hne : items ≠ [])
    (hpadded : ∀ item ∈ items, Padded (text item).toList (core item)) :
    DirectiveText (width.keyword.toList ++ ' ' :: operandChars items text) width
      (items.map core) := by
  have hsome : ¬ Text.Blanks (operandChars items text) := by
    obtain ⟨before, item, hitem, hbody⟩ := exists_operandChars_eq_append hne hpadded
    rw [hbody, ← Text.isAllBlank_iff, hitem.isAllBlank_append before]
    exact Bool.false_ne_true
  have hsplit : (operandChars items text).splitOn ',' =
      items.map fun item => (text item).toList := by
    refine List.splitOn_intercalate _ ?_ (fun hnil => hne (List.map_eq_nil_iff.mp hnil))
    exact List.forall_mem_map.mpr fun item hitem =>
      (hpadded item hitem).not_mem rfl (by decide)
  apply directiveText_iff.mpr
  refine ⟨' ', operandChars items text, rfl, rfl, hsome, ?_⟩
  rw [hsplit, List.map_map]
  exact List.map_congr_left fun item hitem => (hpadded item hitem).trim

/-- A line that writes a directive holds it, with its operands as they were written
but for the spaces around them. -/
theorem ofLine_of_directiveLine {line : Line} (hne : items ≠ [])
    (hpadded : ∀ item ∈ items, Padded (text item).toList (core item))
    (hline : line.chars = (Listing.directiveLine width (items.map text)).toList) :
    ∃ d : Directive, d.width = width ∧ d.operands.map (·.chars) = items.map core ∧
      ofLine line = .ok { line, body := .directive d } := by
  have hchars := hline.trans toList_directiveLine
  have hcontent : contentChars line.chars =
      '\t' :: '\t' :: (width.keyword.toList ++ ' ' :: operandChars items text) := by
    rw [hchars]
    apply contentChars_eq_self
    · have hkeyword : ';' ∉ width.keyword.toList := by cases width <;> decide
      have hsemicolon : ';' ∉ operandChars items text :=
        not_mem_operandChars hpadded rfl (by decide) (by decide)
      simp [hkeyword, hsemicolon]
    · obtain ⟨before, item, hitem, hbody⟩ := exists_operandChars_eq_append hne hpadded
      have happend := hitem.trimEnd_append
        ('\t' :: '\t' :: (width.keyword.toList ++ ' ' :: before))
      simpa [hbody] using happend
  have htext : ContentText (contentChars line.chars) none
      (.directive width (items.map core)) := by
    have htabs : Text.Blanks ['\t', '\t'] :=
      List.forall_mem_cons.mpr ⟨rfl, List.forall_mem_singleton.mpr rfl⟩
    have hlead := Lead.indented (List.cons_ne_nil _ _) htabs
    rw [hcontent]
    exact .led hlead (.directive (directiveText_of_operands width hne hpadded))
  obtain ⟨s, hs, hlabel, hbody⟩ := ofLine_of_contentText htext
  obtain ⟨d, hdirective, hwidth, hoperands⟩ := Body.said_eq_directive_iff.mp hbody
  refine ⟨d, hwidth, hoperands, ?_⟩
  obtain ⟨rfl, -⟩ := parts_of_ofLine hs
  rw [hs, ← hdirective, ← Option.map_eq_none_iff.mp hlabel]

end Directives

end SpriteTables.Statement
