import SpriteTables.Proofs.Statement.Layout

/-!
# Statements that say the same

Two lines with the same content are read alike, wherever they stand: both declare the same label
and hold the same operands, or both fail for the same cause (`ofLine_alike`). Only the places
differ. Two steps that may fail are `Alike` when both give results that are related or both fail
for one cause, and this is carried from each part of a reading to the whole (`Alike.bind`).
-/

set_option autoImplicit false

namespace SpriteTables

open Text (Piece Line isBlank)

/-! ## Outcomes -/

section Outcomes

variable {α β γ δ : Type}

/-- Two steps come to related results, or both fail for the same cause. -/
inductive Alike (same : α → β → Prop) : Except Diagnostic α → Except Diagnostic β → Prop where
  | ok {a : α} {b : β} (h : same a b) : Alike same (.ok a) (.ok b)
  | error {d e : Diagnostic} (h : d.cause = e.cause) : Alike same (.error d) (.error e)

variable {same : α → β → Prop} {same' : γ → δ → Prop} {x : Except Diagnostic α}
  {y : Except Diagnostic β}

/-- Related results may be changed into related results. -/
theorem Alike.map {f : α → γ} {g : β → δ} (h : Alike same x y)
    (hmap : ∀ a b, same a b → same' (f a) (g b)) : Alike same' (x.map f) (y.map g) := by
  cases h with
  | ok hab => exact .ok (hmap _ _ hab)
  | error hcause => exact .error hcause

/-- Steps that are alike may be followed by steps that are. -/
theorem Alike.bind {f : α → Except Diagnostic γ} {g : β → Except Diagnostic δ}
    (h : Alike same x y) (hnext : ∀ a b, same a b → Alike same' (f a) (g b)) :
    Alike same' (x.bind f) (y.bind g) := by
  cases h with
  | ok hab => exact hnext _ _ hab
  | error hcause => exact .error hcause

/-- Steps that are alike both give results, which are related, or both fail. -/
theorem Alike.outcomes (h : Alike same x y) :
    (∃ a b, x = .ok a ∧ y = .ok b ∧ same a b) ∨
    ∃ d e, x = .error d ∧ y = .error e ∧ d.cause = e.cause := by
  cases h with
  | ok hab => exact Or.inl ⟨_, _, rfl, rfl, hab⟩
  | error hcause => exact Or.inr ⟨_, _, rfl, rfl, hcause⟩

/-- Two options that have the same image are both empty, or both hold something. -/
theorem none_or_some_of_map_eq {f : α → γ} {g : β → γ} {x : Option α} {y : Option β}
    (h : x.map f = y.map g) :
    (x = none ∧ y = none) ∨ ∃ a b, x = some a ∧ y = some b ∧ f a = g b := by
  cases x with
  | none => exact Or.inl ⟨rfl, Option.map_eq_none_iff.mp h.symm⟩
  | some a =>
      obtain ⟨b, hb, hsame⟩ := Option.map_eq_some_iff.mp h.symm
      exact Or.inr ⟨a, b, rfl, hb, hsame.symm⟩

/-- A search by the image finds the same in two lists that have the same images. -/
theorem find?_of_map_eq {f : α → γ} {as bs : List α} (h : as.map f = bs.map f)
    (test : γ → Bool) :
    (as.find? (test ∘ f) = none ∧ bs.find? (test ∘ f) = none) ∨
    ∃ a b, as.find? (test ∘ f) = some a ∧ bs.find? (test ∘ f) = some b ∧ f a = f b := by
  apply none_or_some_of_map_eq
  rw [← List.find?_map, ← List.find?_map, h]

end Outcomes

/-! ## Pieces -/

namespace Text.Piece

/-- A piece begins with no blank when its characters do not. -/
theorem trimStart_eq_self_iff (p : Piece) :
    p.trimStart = p ↔ Text.trimStart p.chars = p.chars := by
  constructor
  · intro h
    exact congrArg Piece.chars h
  · intro h
    have hsplit := List.takeWhile_append_dropWhile (p := isBlank) (l := p.chars)
    rw [Text.trimStart] at h
    have hnone : p.chars.takeWhile isBlank = [] := by
      rw [h] at hsplit
      simpa using hsplit
    rw [trimStart, dropWhile, h, hnone]
    rfl

/-- Pieces with the same characters are cut alike. -/
theorem cutAt_alike {p q : Piece} (h : p.chars = q.chars) (test : Char → Bool) :
    (p.cutAt test = none ∧ q.cutAt test = none) ∨
    ∃ left right left' right', p.cutAt test = some (left, right) ∧
      q.cutAt test = some (left', right') ∧ left.chars = left'.chars ∧
      right.chars = right'.chars := by
  obtain ⟨start, cs⟩ := p
  obtain ⟨start', cs'⟩ := q
  obtain rfl : cs = cs' := h
  simp only [cutAt, dropWhile, takeWhile]
  cases hrest : cs.dropWhile fun c => !test c with
  | nil => exact Or.inl ⟨rfl, rfl⟩
  | cons c rest => exact Or.inr ⟨_, _, _, _, rfl, rfl, rfl, rfl⟩

end Text.Piece

/-! ## Parts of a line -/

/-- Two bodies say the same: nothing, that the artifact ends, or the same operands in the same
width. -/
inductive Body.Alike : Body → Body → Prop where
  | empty : Alike .empty .empty
  | sentinel : Alike .sentinel .sentinel
  | directive {directive directive' : Directive} (hwidth : directive.width = directive'.width)
      (hoperands : directive.operands.map (·.chars) = directive'.operands.map (·.chars)) :
      Alike (.directive directive) (.directive directive')

/-- Two statements say the same: they declare the same label, and their bodies say the same. -/
structure Statement.Alike (s s' : Statement) : Prop where
  label_eq : s.label.map Label.name = s'.label.map Label.name
  body_alike : s.body.Alike s'.body

section Readings

variable {p q : Piece}

/-- Operands between commas go by the characters. -/
theorem map_chars_operands (p : Piece) :
    ((p.splitOn ',').map fun piece => Operand.mk piece.trim).map (·.chars) =
      (p.chars.splitOn ',').map fun cs => Text.trimStart (Text.trimEnd cs) := by
  rw [← Piece.map_chars_splitOn, List.map_map, List.map_map]
  rfl

/-- Directives with the same characters are read alike. -/
theorem ofPiece_alike (h : p.chars = q.chars) :
    Alike (fun d d' => Body.Alike (.directive d) (.directive d'))
      (Directive.ofPiece p) (Directive.ofPiece q) := by
  obtain ⟨keyword, operands, keyword', operands', hp, hq, hkeyword, hoperands⟩ :
      ∃ keyword operands keyword' operands',
        (p.cutAt isBlank).getD (p, ⟨p.span.stop, []⟩) = (keyword, operands) ∧
        (q.cutAt isBlank).getD (q, ⟨q.span.stop, []⟩) = (keyword', operands') ∧
        keyword.chars = keyword'.chars ∧ operands.chars = operands'.chars := by
    rcases Piece.cutAt_alike h isBlank with ⟨hp, hq⟩ | ⟨left, right, left', right', hp, hq, hcut⟩
    · refine ⟨p, ⟨p.span.stop, []⟩, q, ⟨q.span.stop, []⟩, ?_, ?_, h, rfl⟩
      · rw [hp, Option.getD_none]
      · rw [hq, Option.getD_none]
    · refine ⟨left, right, left', right', ?_, ?_, hcut⟩
      · rw [hp, Option.getD_some]
      · rw [hq, Option.getD_some]
  have htext : keyword.text = keyword'.text := congrArg String.ofList hkeyword
  rw [Directive.ofPiece, Directive.ofPiece, hp, hq]
  simp only [htext, hoperands]
  cases Width.ofKeyword? keyword'.text with
  | none => exact .error rfl
  | some width =>
      simp only
      split
      · exact .error rfl
      · apply Alike.ok
        refine Body.Alike.directive (Eq.refl width) ?_
        simp only [map_chars_operands, hoperands]

theorem ofBody_alike (h : p.chars = q.chars) :
    Alike Body.Alike (Statement.ofBody p) (Statement.ofBody q) := by
  rw [Statement.ofBody, Statement.ofBody, h]
  split
  · exact .ok .empty
  · split
    · exact .ok .sentinel
    · apply (ofPiece_alike h).map
      intro d d' hd
      exact hd

theorem ofLabel_alike (h : p.chars = q.chars) :
    Alike (fun label label' : Label => label.name = label'.name) (Statement.ofLabel p)
      (Statement.ofLabel q) := by
  have htext : p.text = q.text := congrArg String.ofList h
  rw [Statement.ofLabel, Statement.ofLabel, h]
  split
  · exact .ok htext
  · exact .error (congrArg Cause.malformedLabel htext)

theorem isLabelled_congr (h : p.chars = q.chars) :
    Statement.isLabelled p = Statement.isLabelled q := by
  simp only [Statement.isLabelled, Piece.trimStart_eq_self_iff, h]

end Readings

/-! ## Lines -/

/-- Lines with the same content are read alike. -/
theorem ofLine_alike {line line' : Line}
    (h : contentChars line.chars = contentChars line'.chars) :
    Alike Statement.Alike (Statement.ofLine line) (Statement.ofLine line') := by
  have hchars : (contentOf line.toPiece).chars = (contentOf line'.toPiece).chars := h
  rw [Statement.ofLine, Statement.ofLine]
  simp only [isLabelled_congr hchars]
  split
  · rcases Piece.cutAt_alike hchars (· == ':') with ⟨hp, hq⟩ |
      ⟨name, rest, name', rest', hp, hq, hname, hrest⟩
    · simp only [hp, hq]
      exact .error (congrArg Cause.malformedLabel (congrArg String.ofList hchars))
    · simp only [hp, hq]
      have htrimmed : name.trimEnd.chars = name'.trimEnd.chars := congrArg Text.trimEnd hname
      have hbody : rest.trimStart.chars = rest'.trimStart.chars := congrArg Text.trimStart hrest
      apply (ofLabel_alike htrimmed).bind
      intro label label' hlabel
      apply (ofBody_alike hbody).bind
      intro body body' hsame
      exact .ok ⟨congrArg some hlabel, hsame⟩
  · have hbody : (contentOf line.toPiece).trimStart.chars =
        (contentOf line'.toPiece).trimStart.chars := congrArg Text.trimStart hchars
    apply (ofBody_alike hbody).bind
    intro body body' hsame
    exact .ok ⟨rfl, hsame⟩

end SpriteTables
