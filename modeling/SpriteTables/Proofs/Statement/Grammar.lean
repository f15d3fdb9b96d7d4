import SpriteTables.Proofs.Operand.Token
import SpriteTables.Proofs.Statement.Alike
import SpriteTables.Proofs.Statement.Places

/-!
# The grammar of lines

What a line may say is described here by its characters alone, without the steps that read it:
a body, which is nothing, the ending word or a directive, behind a label with its colon or
behind an indentation. A line that the grammar leaves out is at fault either in its label or in
its directive, and both faults have a grammar as well. The reading accepts what the grammar
describes, and every other line fails for the fault that it has.

## What this module delivers

- `DirectiveText`, `BodyText`, `Lead`, `ContentText`: the grammar of what a line says.
- `LabelFault`, `DirectiveFaultText`, `ContentFault`: the grammar of faults.
- `directiveText_or_fault`, `contentText_or_fault`: every text is described by one of the two.
- `Directive.ofPiece_of_text`, `Directive.text_of_ofPiece`: directives are read by the grammar.
- `Statement.ofLine_of_lead`: a line is read as its body behind a label or an indentation.
- `Statement.ofLine_outcome`, `Statement.exists_ofLine_iff`: what comes of a line.
- `Statement.ofLine_by_grammar`: which lines are statements, and how the others fail.
-/

set_option autoImplicit false

namespace SpriteTables

open Text (Piece Line isBlank isAllBlank Blanks Flush Trims)

/-! ## The grammar -/

/-- What the body of a line says, without its places: nothing, that the artifact ends, or operands
of a width. -/
inductive Said where
  | nothing
  | sentinel
  | directive (width : Width) (operands : List (List Char))

/-- What a body says. -/
def Body.said : Body → Said
  | .empty => .nothing
  | .sentinel => .sentinel
  | .directive d => .directive d.width (d.operands.map (·.chars))

section Said

variable {body : Body} {width : Width} {operands : List (List Char)}

@[simp] theorem Body.said_eq_nothing_iff : body.said = .nothing ↔ body = .empty := by
  cases body <;> simp [said]

@[simp] theorem Body.said_eq_sentinel_iff : body.said = .sentinel ↔ body = .sentinel := by
  cases body <;> simp [said]

theorem Body.said_eq_directive_iff :
    body.said = .directive width operands ↔
      ∃ d, body = .directive d ∧ d.width = width ∧ d.operands.map (·.chars) = operands := by
  cases body <;> simp [said]

end Said

/-- A statement says a label, or none, and a body. -/
def Statement.Says (s : Statement) (label : Option (List Char)) (said : Said) : Prop :=
  s.label.map (·.chars) = label ∧ s.body.said = said

/-- A keyword, a blank, and operands between commas. What stands behind the blank is not all
blank. The operands are the stretches between its commas, each without the blanks at its ends. -/
inductive DirectiveText : List Char → Width → List (List Char) → Prop where
  | mk {width : Width} {blank : Char} {rest : List Char} {pieces operands : List (List Char)}
      (hblank : isBlank blank = true) (hsome : ¬ Blanks rest)
      (hjoined : rest = [','].intercalate pieces) (hcomma : ∀ piece ∈ pieces, ',' ∉ piece)
      (hoperands : List.Forall₂ Trims pieces operands) :
      DirectiveText (width.keyword.toList ++ blank :: rest) width operands

/-- The texts of bodies: nothing, the ending word, a directive. -/
inductive BodyText : List Char → Said → Prop where
  | nothing : BodyText [] .nothing
  | sentinel : BodyText sentinelWord .sentinel
  | directive {cs : List Char} {width : Width} {operands : List (List Char)}
      (h : DirectiveText cs width operands) : BodyText cs (.directive width operands)

/-- What stands before a body: an identifier and a colon, with blanks behind both, or an
indentation. -/
inductive Lead : List Char → Option (List Char) → Prop where
  | labelled {name blanks gap : List Char} (hname : Identifier name) (hblanks : Blanks blanks)
      (hgap : Blanks gap) : Lead (name ++ blanks ++ ':' :: gap) (some name)
  | indented {gap : List Char} (hne : gap ≠ []) (hgap : Blanks gap) : Lead gap none

/-- The contents that are statements: nothing, the ending word in column zero, or a body behind a
label or an indentation. -/
inductive ContentText : List Char → Option (List Char) → Said → Prop where
  | nothing : ContentText [] none .nothing
  | sentinel : ContentText sentinelWord none .sentinel
  | led {lead body : List Char} {label : Option (List Char)} {said : Said}
      (hlead : Lead lead label) (hbody : BodyText body said) :
      ContentText (lead ++ body) label said

/-- The contents whose label is at fault, with the text that should have been one. Either there is
text in column zero other than the ending word, and no colon, or what stands before the first
colon is no identifier. -/
inductive LabelFault : List Char → List Char → Prop where
  | noColon {content : List Char} (hflush : Flush content) (hword : content ≠ sentinelWord)
      (hcolon : ':' ∉ content) : LabelFault content content
  | noIdentifier {name blanks rest : List Char} (hflush : Flush (name ++ blanks ++ ':' :: rest))
      (hcolon : ':' ∉ name) (hblanks : Blanks blanks)
      (hlast : ∀ c ∈ name.getLast?, isBlank c = false) (hname : ¬ Identifier name) :
      LabelFault (name ++ blanks ++ ':' :: rest) name

/-- The texts that are no directives, with what is wrong: the text up to the first blank is no
keyword, or nothing but blanks stands behind the keyword. -/
inductive DirectiveFaultText : List Char → DirectiveFault → Prop where
  | unknownKeyword {word rest : List Char} (hword : ∀ c ∈ word, isBlank c = false)
      (hrest : ∀ c ∈ rest.head?, isBlank c = true)
      (hkeyword : ∀ width : Width, word ≠ width.keyword.toList) :
      DirectiveFaultText (word ++ rest) (.unknownKeyword (String.ofList word))
  | noOperands {width : Width} {rest : List Char} (hrest : Blanks rest) :
      DirectiveFaultText (width.keyword.toList ++ rest) (.noOperands width.keyword)

/-- The contents whose directive is at fault: behind a label or an indentation stands a body that
is neither the ending word nor a directive. -/
inductive ContentFault : List Char → DirectiveFault → Prop where
  | led {lead body : List Char} {label : Option (List Char)} {fault : DirectiveFault}
      (hlead : Lead lead label) (hflush : Flush body) (hword : body ≠ sentinelWord)
      (hbody : DirectiveFaultText body fault) : ContentFault (lead ++ body) fault

/-! ## Directives -/

section Directives

variable {p : Piece} {cs : List Char} {width : Width} {operands : List (List Char)}
  {fault : DirectiveFault}

/-- The characters of a keyword are plain, so that none of them is a blank. -/
theorem Width.isBlank_keyword (width : Width) :
    ∀ c ∈ width.keyword.toList, isBlank c = false := by
  intro c hc
  have hall : width.keyword.toList.all (!isBlank ·) = true := by
    cases width <;> decide
  have hc := List.all_eq_true.mp hall c hc
  rwa [Bool.not_eq_true'] at hc

theorem Width.ofKeyword?_eq_none_iff {text : String} :
    ofKeyword? text = none ↔ ∀ width : Width, text ≠ width.keyword := by
  rw [Option.eq_none_iff_forall_ne_some]
  simp only [ne_eq, ofKeyword?_eq_some_iff]

/-- A directive begins with a letter of its keyword. -/
theorem DirectiveText.exists_cons (h : DirectiveText cs width operands) :
    ∃ rest, cs = 'd' :: rest := by
  cases h with
  | mk hblank hcomma hsome hoperands =>
      cases width <;> exact ⟨_, rfl⟩

/-- A directive by the cuts and trims that read it. -/
theorem directiveText_iff :
    DirectiveText cs width operands ↔
      ∃ blank rest, cs = width.keyword.toList ++ blank :: rest ∧ isBlank blank = true ∧
        ¬ Blanks rest ∧
        (rest.splitOn ',').map (fun piece => Text.trimStart (Text.trimEnd piece)) =
          operands := by
  constructor
  · intro h
    cases h with
    | @mk width blank rest pieces operands hblank hsome hjoined hcomma hoperands =>
        have hne : pieces ≠ [] := by
          rintro rfl
          exact hsome (hjoined ▸ Text.Blanks.nil)
        refine ⟨blank, rest, rfl, hblank, hsome, ?_⟩
        rw [(Piece.splitOn_eq_iff hne).mpr ⟨hjoined, hcomma⟩]
        exact Text.forall₂_trims_iff.mp hoperands
  · rintro ⟨blank, rest, rfl, hblank, hsome, hoperands⟩
    obtain ⟨hjoined, hcomma⟩ := (Piece.splitOn_eq_iff (List.splitOn_ne_nil ',' rest)).mp rfl
    exact .mk hblank hsome hjoined hcomma (Text.forall₂_trims_iff.mpr hoperands)

/-- Every text is a directive, or something is wrong with it. -/
theorem directiveText_or_fault (cs : List Char) :
    (∃ width operands, DirectiveText cs width operands) ∨ ∃ fault, DirectiveFaultText cs fault := by
  obtain ⟨word, rest, rfl, hword, hrest⟩ := Text.exists_span (!isBlank ·) cs
  simp only [Bool.not_eq_true', Bool.not_eq_false'] at hword hrest
  by_cases hkeyword : ∃ width : Width, word = width.keyword.toList
  · obtain ⟨width, rfl⟩ := hkeyword
    cases rest with
    | nil => exact Or.inr ⟨_, .noOperands Text.Blanks.nil⟩
    | cons blank back =>
        have hblank : isBlank blank = true := hrest blank rfl
        by_cases hblanks : Blanks back
        · exact Or.inr ⟨_, .noOperands (List.forall_mem_cons.mpr ⟨hblank, hblanks⟩)⟩
        · left
          exact ⟨width, _, directiveText_iff.mpr ⟨blank, back, rfl, hblank, hblanks, rfl⟩⟩
  · right
    refine ⟨_, .unknownKeyword hword hrest ?_⟩
    intro width heq
    exact hkeyword ⟨width, heq⟩

namespace Directive

/-- A directive by the grammar is read as one. -/
theorem ofPiece_of_text (h : DirectiveText p.chars width operands) :
    ∃ d, ofPiece p = .ok d ∧ d.width = width ∧ d.operands.map (·.chars) = operands := by
  obtain ⟨start, cs⟩ := p
  obtain ⟨blank, rest, hcs, hblank, hsome, hoperands⟩ := directiveText_iff.mp h
  obtain rfl : cs = width.keyword.toList ++ blank :: rest := hcs
  have hhead : ∀ c ∈ (blank :: rest).head?, isBlank c = true := by simpa using hblank
  obtain ⟨place, hcut⟩ := Piece.getD_cutAt_append start width.isBlank_keyword hhead
  have hwidth : Width.ofKeyword? (Piece.text ⟨start, width.keyword.toList⟩) = some width :=
    Width.ofKeyword?_eq_some_iff.mpr String.ofList_toList
  have hall : isAllBlank rest = false := by
    rw [Bool.eq_false_iff]
    exact fun hblanks => hsome (Text.isAllBlank_iff.mp hblanks)
  rw [ofPiece, hcut]
  simp only [hwidth, List.tail_cons, hall]
  refine ⟨_, rfl, rfl, ?_⟩
  rw [map_chars_operands]
  exact hoperands

/-- A text at fault is reported with what is wrong. -/
theorem ofPiece_of_faultText (h : DirectiveFaultText p.chars fault) :
    ∃ e, ofPiece p = .error e ∧ e.cause = .malformedDirective fault := by
  obtain ⟨start, cs⟩ := p
  have htext : DirectiveFaultText cs fault := h
  cases htext with
  | @unknownKeyword word rest hword hrest hkeyword =>
      obtain ⟨place, hcut⟩ := Piece.getD_cutAt_append start hword hrest
      have hnone : Width.ofKeyword? (Piece.text ⟨start, word⟩) = none := by
        apply Width.ofKeyword?_eq_none_iff.mpr
        intro width heq
        apply hkeyword width
        rw [← heq, Piece.text, String.toList_ofList]
      rw [ofPiece, hcut]
      simp only [hnone]
      exact ⟨_, rfl, rfl⟩
  | @noOperands width rest hrest =>
      obtain ⟨place, hcut⟩ := Piece.getD_cutAt_append start width.isBlank_keyword
        (fun c hc => hrest c (List.mem_of_mem_head? hc))
      have hwidth : Width.ofKeyword? (Piece.text ⟨start, width.keyword.toList⟩) = some width :=
        Width.ofKeyword?_eq_some_iff.mpr String.ofList_toList
      have hall : isAllBlank rest.tail = true :=
        Text.isAllBlank_iff.mpr fun c hc => hrest c (List.mem_of_mem_tail hc)
      rw [ofPiece, hcut]
      simp only [hwidth, hall, if_true]
      refine ⟨_, rfl, ?_⟩
      rw [Piece.text, String.ofList_toList]
      rfl

/-- What is read as a directive is one by the grammar. -/
theorem text_of_ofPiece {d : Directive} (h : ofPiece p = .ok d) :
    d.toPiece = p ∧ DirectiveText d.chars d.width (d.operands.map (·.chars)) := by
  obtain ⟨hpiece, -⟩ := parts_of_ofPiece h
  refine ⟨hpiece, ?_⟩
  rw [hpiece]
  rcases directiveText_or_fault p.chars with ⟨width, operands, htext⟩ | ⟨fault, hfault⟩
  · obtain ⟨d', hd', rfl, rfl⟩ := ofPiece_of_text htext
    rw [h] at hd'
    cases hd'
    exact htext
  · obtain ⟨e, he, -⟩ := ofPiece_of_faultText hfault
    rw [h] at he
    cases he

end Directive

/-- The operands of a directive are one more than its commas. -/
theorem DirectiveText.length_operands (h : DirectiveText cs width operands) :
    operands.length = cs.count ',' + 1 := by
  cases h with
  | @mk width blank rest pieces operands hblank hsome hjoined hcomma hoperands =>
      have hne : pieces ≠ [] := by
        rintro rfl
        exact hsome (hjoined ▸ Text.Blanks.nil)
      have hkeyword : width.keyword.toList.count ',' = 0 := by
        cases width <;> decide
      have hblank : (blank == ',') = false := by
        rw [beq_eq_false_iff_ne]
        rintro rfl
        exact absurd hblank (by decide)
      rw [← hoperands.length_eq, ← Text.count_intercalate hne hcomma, ← hjoined, List.count_append,
        hkeyword, List.count_cons, hblank]
      simp

end Directives

/-! ## Bodies -/

section Bodies

variable {p : Piece} {body : List Char} {said : Said}

/-- The ending word begins with a letter. -/
theorem flush_sentinelWord : Flush sentinelWord :=
  ⟨'e', _, rfl, rfl⟩

/-- A body is empty or begins with a letter. -/
theorem BodyText.head? (h : BodyText body said) : ∀ c ∈ body.head?, isBlank c = false := by
  cases h with
  | nothing => simp
  | sentinel => exact flush_sentinelWord.head?
  | directive hdirective =>
      obtain ⟨rest, rfl⟩ := hdirective.exists_cons
      exact Text.Flush.head? ⟨'d', rest, rfl, rfl⟩

/-- What begins with no blank is a body, or something is wrong with it. -/
theorem bodyText_or_fault (h : ∀ c ∈ body.head?, isBlank c = false) :
    (∃ said, BodyText body said) ∨
      ∃ fault, Flush body ∧ body ≠ sentinelWord ∧ DirectiveFaultText body fault := by
  by_cases hempty : body = []
  · exact Or.inl ⟨.nothing, hempty ▸ .nothing⟩
  · by_cases hword : body = sentinelWord
    · exact Or.inl ⟨.sentinel, hword ▸ .sentinel⟩
    · rcases directiveText_or_fault body with ⟨width, operands, htext⟩ | ⟨fault, hfault⟩
      · exact Or.inl ⟨_, .directive htext⟩
      · exact Or.inr ⟨fault, Text.flush_of_ne_nil hempty h, hword, hfault⟩

namespace Statement

/-- A body by the grammar is read as one. -/
theorem ofBody_of_text (h : BodyText p.chars said) :
    ∃ body, ofBody p = .ok body ∧ body.said = said := by
  obtain ⟨start, cs⟩ := p
  have htext : BodyText cs said := h
  cases htext with
  | nothing => exact ⟨.empty, rfl, rfl⟩
  | sentinel => exact ⟨.sentinel, rfl, rfl⟩
  | directive hdirective =>
      obtain ⟨d, hd, rfl, rfl⟩ := Directive.ofPiece_of_text (p := ⟨start, cs⟩) hdirective
      obtain ⟨rest, rfl⟩ := hdirective.exists_cons
      have hword : 'd' :: rest ≠ sentinelWord := by
        intro heq
        exact absurd (List.cons.inj heq).1 (by decide)
      refine ⟨.directive d, ?_, rfl⟩
      rw [ofBody, if_neg (List.cons_ne_nil _ _), if_neg hword, hd]
      rfl

/-- A body at fault is reported with what is wrong. -/
theorem ofBody_of_faultText {fault : DirectiveFault} (hflush : Flush p.chars)
    (hword : p.chars ≠ sentinelWord) (h : DirectiveFaultText p.chars fault) :
    ∃ e, ofBody p = .error e ∧ e.cause = .malformedDirective fault := by
  obtain ⟨e, he, hcause⟩ := Directive.ofPiece_of_faultText h
  have hne : p.chars ≠ [] := by
    obtain ⟨c, rest, hcons, -⟩ := hflush
    rw [hcons]
    exact List.cons_ne_nil _ _
  refine ⟨e, ?_, hcause⟩
  rw [ofBody, if_neg hne, if_neg hword, he]
  rfl

end Statement

end Bodies

/-! ## Contents -/

section Contents

variable {content lead body name : List Char} {label : Option (List Char)} {line : Line}
  {said : Said} {fault : DirectiveFault}

/-- A label begins with no blank. -/
theorem Identifier.flush_append (h : Identifier name) (rest : List Char) :
    Flush (name ++ rest) := by
  have hplain := isPlain_of_isIdentifier (isIdentifier_iff.mpr h)
  obtain ⟨c, more, rfl, -⟩ := h
  exact ⟨c, more ++ rest, rfl, Text.isBlank_eq_false_of_isPlain (hplain c List.mem_cons_self)⟩

/-- What stands in column zero is the ending word, or its label is at fault, or it is led by a
label. -/
theorem content_cases_of_flush (hflush : Flush content) :
    content = sentinelWord ∨ (∃ name, LabelFault content name) ∨
      ∃ lead body label, content = lead ++ body ∧ Lead lead label ∧
        ∀ c ∈ body.head?, isBlank c = false := by
  by_cases hword : content = sentinelWord
  · exact Or.inl hword
  · right
    by_cases hcolon : ':' ∈ content
    · -- the name up to the first colon, and the body behind it
      obtain ⟨part, behind, rfl, hpart⟩ := List.eq_append_cons_of_mem hcolon
      obtain ⟨name, blanks, rfl, hblanks, hlast⟩ := Text.exists_trimEnd part
      obtain ⟨gap, body, rfl, hgap, hbody⟩ := Text.exists_trimStart behind
      by_cases hname : Identifier name
      · right
        exact ⟨name ++ blanks ++ ':' :: gap, body, some name, by simp, .labelled hname hblanks hgap,
          hbody⟩
      · left
        have hnameColon : ':' ∉ name := fun hmem => hpart (List.mem_append_left _ hmem)
        exact ⟨name, .noIdentifier hflush hnameColon hblanks hlast hname⟩
    · exact Or.inl ⟨content, .noColon hflush hword hcolon⟩

/-- Every content stands alone, or its label is at fault, or it is led by a label or an
indentation. -/
theorem content_cases (content : List Char) :
    content = [] ∨ content = sentinelWord ∨ (∃ name, LabelFault content name) ∨
      ∃ lead body label, content = lead ++ body ∧ Lead lead label ∧
        ∀ c ∈ body.head?, isBlank c = false := by
  by_cases hempty : content = []
  · exact Or.inl hempty
  · right
    obtain ⟨gap, body, rfl, hgap, hbody⟩ := Text.exists_trimStart content
    by_cases hindent : gap = []
    · rw [hindent, List.nil_append] at hempty ⊢
      exact content_cases_of_flush (Text.flush_of_ne_nil hempty hbody)
    · exact Or.inr (Or.inr ⟨gap, body, none, rfl, .indented hindent hgap, hbody⟩)

/-- Every content is a statement, or is at fault in its label or in its directive. -/
theorem contentText_or_fault (content : List Char) :
    (∃ label said, ContentText content label said) ∨ (∃ name, LabelFault content name) ∨
      ∃ fault, ContentFault content fault := by
  rcases content_cases content with rfl | rfl | hlabel | ⟨lead, body, label, rfl, hlead, hbody⟩
  · exact Or.inl ⟨_, _, .nothing⟩
  · exact Or.inl ⟨_, _, .sentinel⟩
  · exact Or.inr (Or.inl hlabel)
  · rcases bodyText_or_fault hbody with ⟨said, htext⟩ | ⟨fault, hflush, hword, hfault⟩
    · exact Or.inl ⟨label, said, .led hlead htext⟩
    · exact Or.inr (Or.inr ⟨fault, .led hlead hflush hword hfault⟩)

namespace Statement

/-- A label is looked for in what begins in column zero, the ending word alone excepted. -/
theorem isLabelled_iff {p : Piece} :
    isLabelled p = true ↔ Flush p.chars ∧ p.chars ≠ sentinelWord := by
  have hstart : Text.trimStart p.chars = p.chars ↔
      ∀ c ∈ p.chars.head?, Text.isBlank c = false := by
    rw [Text.trimStart_eq_iff]
    constructor
    · rintro ⟨before, -, -, hhead⟩
      exact hhead
    · intro hhead
      exact ⟨[], rfl, Text.Blanks.nil, hhead⟩
  simp only [isLabelled, Bool.and_eq_true, Bool.not_eq_true', decide_eq_true_eq,
    List.isEmpty_eq_false_iff, Piece.trimStart_eq_self_iff, hstart]
  constructor
  · rintro ⟨⟨hne, hhead⟩, hword⟩
    exact ⟨Text.flush_of_ne_nil hne hhead, hword⟩
  · rintro ⟨hflush, hword⟩
    refine ⟨⟨?_, hflush.head?⟩, hword⟩
    obtain ⟨c, rest, hcons, -⟩ := hflush
    rw [hcons]
    exact List.cons_ne_nil _ _

/-- A line with a colon is read as a label before it and a body behind it. -/
theorem ofLine_of_colon {blanks rest : List Char} (hflush : Flush (name ++ blanks ++ ':' :: rest))
    (hcolon : ':' ∉ name) (hblanks : Blanks blanks)
    (hlast : ∀ c ∈ name.getLast?, Text.isBlank c = false)
    (hcontent : contentChars line.chars = name ++ blanks ++ ':' :: rest) :
    ofLine line =
      (ofLabel ⟨line.start, name⟩).bind fun label =>
        (ofBody (Piece.trimStart ⟨line.start + Text.byteSize (name ++ blanks) + ':'.utf8Size,
          rest⟩)).bind fun body => .ok { line, label := some label, body } := by
  have hpiece : contentOf line.toPiece = ⟨line.start, name ++ blanks ++ ':' :: rest⟩ :=
    congrArg (Piece.mk line.start) hcontent
  have hword : name ++ blanks ++ ':' :: rest ≠ sentinelWord := by
    intro heq
    have hmem : ':' ∈ sentinelWord := by simp [← heq]
    exact absurd hmem (by decide)
  -- the colon is the first one, because blanks are none
  have hpart : ∀ c ∈ name ++ blanks, (c == ':') = false := by
    intro c hc
    rw [beq_eq_false_iff_ne]
    rintro rfl
    rcases List.mem_append.mp hc with hc | hc
    · exact hcolon hc
    · exact absurd (hblanks ':' hc) (by decide)
  rw [ofLine_eq, hpiece, if_pos (isLabelled_iff.mpr ⟨hflush, hword⟩),
    Piece.cutAt_append line.start hpart rfl]
  simp only [Piece.trimEnd_append _ hblanks hlast]

/-- A line is read as its body behind a label or an indentation. -/
theorem ofLine_of_lead (hlead : Lead lead label)
    (hbody : ∀ c ∈ body.head?, Text.isBlank c = false)
    (hcontent : contentChars line.chars = lead ++ body) :
    ofLine line = (ofBody ⟨line.start + Text.byteSize lead, body⟩).bind fun found =>
      .ok { line, label := label.map fun name => ⟨⟨line.start, name⟩⟩, body := found } := by
  cases hlead with
  | @labelled name blanks gap hname hblanks hgap =>
      have hidentifier := isIdentifier_iff.mpr hname
      have hplain := isPlain_of_isIdentifier hidentifier
      have hcolon : ':' ∉ name := Text.not_mem_of_isPlain hplain rfl
      have hlast : ∀ c ∈ name.getLast?, Text.isBlank c = false := by
        intro c hc
        exact Text.isBlank_eq_false_of_isPlain (hplain c (List.mem_of_mem_getLast? hc))
      have hsplit : contentChars line.chars = name ++ blanks ++ ':' :: (gap ++ body) := by
        rw [hcontent]
        simp
      have hflush : Flush (name ++ blanks ++ ':' :: (gap ++ body)) := by
        rw [List.append_assoc]
        exact hname.flush_append _
      have hlabel : ofLabel ⟨line.start, name⟩ = .ok ⟨⟨line.start, name⟩⟩ := if_pos hidentifier
      have hplace : line.start + Text.byteSize (name ++ blanks) + ':'.utf8Size +
          Text.byteSize gap = line.start + Text.byteSize (name ++ blanks ++ ':' :: gap) := by
        simp [Nat.add_assoc]
      rw [ofLine_of_colon hflush hcolon hblanks hlast hsplit, Piece.trimStart_append _ hgap hbody,
        hlabel, hplace]
      rfl
  | indented hne hgap =>
      have hpiece : contentOf line.toPiece = ⟨line.start, lead ++ body⟩ :=
        congrArg (Piece.mk line.start) hcontent
      have hlabelled : ¬ isLabelled ⟨line.start, lead ++ body⟩ = true := by
        rw [isLabelled_iff]
        rintro ⟨⟨c, rest, hcons, hc⟩, -⟩
        obtain ⟨d, more, rfl⟩ := List.exists_cons_of_ne_nil hne
        rw [List.cons_append] at hcons
        obtain ⟨rfl, -⟩ := List.cons.inj hcons
        rw [hgap d List.mem_cons_self] at hc
        cases hc
      rw [ofLine_eq, hpiece, if_neg hlabelled, Piece.trimStart_append _ hgap hbody]
      rfl

/-- A statement by the grammar is read as one. -/
theorem ofLine_of_contentText (h : ContentText (contentChars line.chars) label said) :
    ∃ s, ofLine line = .ok s ∧ s.Says label said := by
  generalize hcontent : contentChars line.chars = content at h
  have hpiece : contentOf line.toPiece = ⟨line.start, content⟩ :=
    congrArg (Piece.mk line.start) hcontent
  cases h with
  | nothing =>
      rw [ofLine_eq, hpiece]
      exact ⟨{ line, body := .empty }, rfl, rfl, rfl⟩
  | sentinel =>
      have hlabelled : ¬ isLabelled ⟨line.start, sentinelWord⟩ = true := by
        rw [isLabelled_iff]
        rintro ⟨-, hword⟩
        exact hword rfl
      rw [ofLine_eq, hpiece, if_neg hlabelled]
      exact ⟨{ line, body := .sentinel }, rfl, rfl, rfl⟩
  | @led lead body label said hlead hbody =>
      obtain ⟨found, hfound, rfl⟩ :=
        ofBody_of_text (p := ⟨line.start + Text.byteSize lead, body⟩) hbody
      rw [ofLine_of_lead hlead hbody.head? hcontent, hfound]
      refine ⟨_, rfl, ?_, rfl⟩
      cases label <;> rfl

/-- A line whose label is at fault is reported with the text that should have been one. -/
theorem ofLine_of_labelFault (h : LabelFault (contentChars line.chars) name) :
    ∃ e, ofLine line = .error e ∧ e.cause = .malformedLabel (String.ofList name) := by
  generalize hcontent : contentChars line.chars = content at h
  cases h with
  | noColon hflush hword hcolon =>
      have hpiece : contentOf line.toPiece = ⟨line.start, name⟩ :=
        congrArg (Piece.mk line.start) hcontent
      have hpass : ∀ c ∈ name, (c == ':') = false := by
        intro c hc
        rw [beq_eq_false_iff_ne]
        rintro rfl
        exact hcolon hc
      rw [ofLine_eq, hpiece, if_pos (isLabelled_iff.mpr ⟨hflush, hword⟩),
        Piece.cutAt_eq_none line.start hpass]
      exact ⟨_, rfl, rfl⟩
  | @noIdentifier name blanks rest hflush hcolon hblanks hlast hname =>
      have hlabel : ofLabel ⟨line.start, name⟩ = .error (.of (Piece.span ⟨line.start, name⟩)
          (.malformedLabel (String.ofList name))) :=
        if_neg fun hidentifier => hname (isIdentifier_iff.mp hidentifier)
      rw [ofLine_of_colon hflush hcolon hblanks hlast hcontent, hlabel]
      exact ⟨_, rfl, rfl⟩

/-- A line whose directive is at fault is reported with what is wrong. -/
theorem ofLine_of_contentFault (h : ContentFault (contentChars line.chars) fault) :
    ∃ e, ofLine line = .error e ∧ e.cause = .malformedDirective fault := by
  generalize hcontent : contentChars line.chars = content at h
  cases h with
  | @led lead body label fault hlead hflush hword hbody =>
      obtain ⟨e, he, hcause⟩ :=
        ofBody_of_faultText (p := ⟨line.start + Text.byteSize lead, body⟩) hflush hword hbody
      rw [ofLine_of_lead hlead hflush.head? hcontent, he]
      exact ⟨e, rfl, hcause⟩

/-- Every line is a statement by the grammar, which is what is read, or it is at fault in its
label or in its directive, which is what is reported. -/
theorem ofLine_outcome (line : Line) :
    (∃ s label said, ofLine line = .ok s ∧ s.Says label said ∧
      ContentText (contentChars line.chars) label said) ∨
    (∃ e name, ofLine line = .error e ∧ e.cause = .malformedLabel (String.ofList name) ∧
      LabelFault (contentChars line.chars) name) ∨
    ∃ e fault, ofLine line = .error e ∧ e.cause = .malformedDirective fault ∧
      ContentFault (contentChars line.chars) fault := by
  rcases contentText_or_fault (contentChars line.chars) with
    ⟨label, said, htext⟩ | ⟨name, hfault⟩ | ⟨fault, hfault⟩
  · obtain ⟨s, hs, hsays⟩ := ofLine_of_contentText htext
    exact Or.inl ⟨s, label, said, hs, hsays, htext⟩
  · obtain ⟨e, he, hcause⟩ := ofLine_of_labelFault hfault
    exact Or.inr (Or.inl ⟨e, name, he, hcause, hfault⟩)
  · obtain ⟨e, he, hcause⟩ := ofLine_of_contentFault hfault
    exact Or.inr (Or.inr ⟨e, fault, he, hcause, hfault⟩)

/-- The statements are the lines that the grammar describes. -/
theorem exists_ofLine_iff :
    (∃ s, ofLine line = .ok s ∧ s.Says label said) ↔
      ContentText (contentChars line.chars) label said := by
  constructor
  · rintro ⟨s, hs, rfl, rfl⟩
    rcases ofLine_outcome line with ⟨s', label', said', hs', ⟨rfl, rfl⟩, htext⟩ |
      ⟨e, -, he, -⟩ | ⟨e, -, he, -⟩
    · cases hs.symm.trans hs'
      exact htext
    · cases hs.symm.trans he
    · cases hs.symm.trans he
  · exact ofLine_of_contentText

/-- The lines whose label is reported are those whose label is at fault. -/
theorem exists_malformedLabel_iff :
    (∃ e, ofLine line = .error e ∧ e.cause = .malformedLabel (String.ofList name)) ↔
      LabelFault (contentChars line.chars) name := by
  constructor
  · rintro ⟨e, he, hcause⟩
    rcases ofLine_outcome line with ⟨s, -, -, hs, -⟩ | ⟨e', name', he', hcause', hfault⟩ |
      ⟨e', _, he', hcause', -⟩
    · cases he.symm.trans hs
    · cases he.symm.trans he'
      have htext := Cause.malformedLabel.inj (hcause.symm.trans hcause')
      rwa [String.ofList_inj.mp htext]
    · cases he.symm.trans he'
      cases hcause.symm.trans hcause'
  · exact ofLine_of_labelFault

/-- The lines whose directive is reported are those whose directive is at fault. -/
theorem exists_malformedDirective_iff :
    (∃ e, ofLine line = .error e ∧ e.cause = .malformedDirective fault) ↔
      ContentFault (contentChars line.chars) fault := by
  constructor
  · rintro ⟨e, he, hcause⟩
    rcases ofLine_outcome line with ⟨s, -, -, hs, -⟩ | ⟨e', _, he', hcause', -⟩ |
      ⟨e', fault', he', hcause', hfault⟩
    · cases he.symm.trans hs
    · cases he.symm.trans he'
      cases hcause.symm.trans hcause'
    · cases he.symm.trans he'
      cases hcause.symm.trans hcause'
      exact hfault
  · exact ofLine_of_contentFault

/-- A line that is no statement has a label or a directive at fault. -/
theorem cause_of_ofLine {e : Diagnostic} (h : ofLine line = .error e) :
    (∃ text, e.cause = .malformedLabel text) ∨ ∃ fault, e.cause = .malformedDirective fault := by
  rcases ofLine_outcome line with ⟨s, -, -, hs, -⟩ | ⟨e', name, he, hcause, -⟩ |
    ⟨e', fault, he, hcause, -⟩
  · cases h.symm.trans hs
  · cases h.symm.trans he
    exact Or.inl ⟨_, hcause⟩
  · cases h.symm.trans he
    exact Or.inr ⟨_, hcause⟩

/-- The directive of a line has one operand more than it has commas. -/
theorem length_operands_of_ofLine {s : Statement} {d : Directive} (h : ofLine line = .ok s)
    (hbody : s.body = .directive d) : d.operands.length = d.chars.count ',' + 1 := by
  obtain ⟨-, hread⟩ := ofPiece_of_directive h hbody
  obtain ⟨-, htext⟩ := Directive.text_of_ofPiece hread
  rw [← htext.length_operands, List.length_map]

/-- A content says nothing, without a label, when it is blank. -/
theorem contentText_nothing_iff :
    ContentText content none .nothing ↔ Text.trimStart content = [] := by
  rw [Text.trimStart_eq_nil_iff]
  constructor
  · intro h
    cases h with
    | nothing => exact Text.Blanks.nil
    | led hlead hbody =>
        cases hlead with
        | indented hne hgap =>
            cases hbody with
            | nothing => rwa [List.append_nil]
  · intro hblanks
    by_cases hempty : content = []
    · rw [hempty]
      exact .nothing
    · have hled := ContentText.led (.indented hempty hblanks) .nothing
      rwa [List.append_nil] at hled

/-- A content is the ending word, without a label, when nothing but blanks stands before it. -/
theorem contentText_sentinel_iff :
    ContentText content none .sentinel ↔ Text.trimStart content = sentinelWord := by
  rw [Text.trimStart_eq_iff]
  constructor
  · intro h
    cases h with
    | sentinel => exact ⟨[], rfl, Text.Blanks.nil, flush_sentinelWord.head?⟩
    | led hlead hbody =>
        cases hlead with
        | indented hne hgap =>
            cases hbody with
            | sentinel => exact ⟨_, rfl, hgap, flush_sentinelWord.head?⟩
  · rintro ⟨gap, rfl, hgap, -⟩
    by_cases hempty : gap = []
    · rw [hempty]
      exact .sentinel
    · exact .led (.indented hempty hgap) .sentinel

/-- Lines are read by the grammar. A line is blank when nothing but blanks stands before its
comment, and ends the artifact when only blanks stand around the ending word. It is a statement
when its content is one, and then says what the content says; a directive has one operand more
than commas. Any other line has a label or a directive at fault, and fails for it. -/
theorem ofLine_by_grammar (line : Line) :
    ((∃ s, ofLine line = .ok s ∧ s.isBlank = true) ↔
      Text.trimStart (contentChars line.chars) = []) ∧
    ((∃ s, ofLine line = .ok s ∧ s.label = none ∧ s.body = .sentinel) ↔
      Text.trimStart (contentChars line.chars) = sentinelWord) ∧
    (∀ label said, (∃ s, ofLine line = .ok s ∧ s.Says label said) ↔
      ContentText (contentChars line.chars) label said) ∧
    (∀ s d, ofLine line = .ok s → s.body = .directive d →
      d.operands.length = d.chars.count ',' + 1) ∧
    (∀ name, (∃ e, ofLine line = .error e ∧ e.cause = .malformedLabel (String.ofList name)) ↔
      LabelFault (contentChars line.chars) name) ∧
    (∀ fault, (∃ e, ofLine line = .error e ∧ e.cause = .malformedDirective fault) ↔
      ContentFault (contentChars line.chars) fault) ∧
    ∀ e, ofLine line = .error e →
      (∃ text, e.cause = .malformedLabel text) ∨ ∃ fault, e.cause = .malformedDirective fault := by
  refine ⟨?_, ?_, fun _ _ => exists_ofLine_iff, fun _ _ => length_operands_of_ofLine,
    fun _ => exists_malformedLabel_iff, fun _ => exists_malformedDirective_iff,
    fun _ => cause_of_ofLine⟩
  · rw [← contentText_nothing_iff, ← exists_ofLine_iff]
    apply exists_congr
    intro s
    simp [Statement.isBlank, Says]
  · rw [← contentText_sentinel_iff, ← exists_ofLine_iff]
    apply exists_congr
    intro s
    simp [Says]

end Statement

end Contents

end SpriteTables
