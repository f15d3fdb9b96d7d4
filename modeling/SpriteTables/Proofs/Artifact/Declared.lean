import Mathlib.Data.List.Induction
import SpriteTables.Artifact.Parser

/-!
# What lines declare

The lines of an artifact declare labels and offset entries and hold records. This module reads all
three off the lines alone, without the draft that a reading carries along, so that what a reading
delivers can be compared with it. A line `Switches` when it is the first one to declare a label
that an entry before it refers to; at most one line does (`Switches.unique`). `linesRead` are the
lines that a reading gets to, and `firstPlace?` is the first line that declares a label, with the
record that begins at or below it.
-/

set_option autoImplicit false

namespace SpriteTables

open Text (Span Line linesOf)

/-! ## Labels and offset entries -/

/-- The label that a line declares. -/
def labelOf? (line : Line) : Option Label :=
  match Statement.ofLine line with
  | .ok s => s.label
  | .error _ => none

/-- The operands of the directive on a line. -/
def operandsOn (line : Line) : List Operand :=
  match Statement.ofLine line with
  | .ok { body := .directive directive, .. } => directive.operands
  | _ => []

/-- The operands of all directives on some lines, in the order of the text. -/
def operandsOf (lines : List Line) : List Operand :=
  lines.flatMap operandsOn

/-- The offset entry that an operand declares. -/
def declarationOf? (o : Operand) : Option Declaration :=
  o.reference?.map fun names => ⟨⟨names.1, names.2⟩, o.span⟩

/-- The offset entries that the operands on some lines declare. -/
def declarationsOf (lines : List Line) : List Declaration :=
  (operandsOf lines).filterMap declarationOf?

@[simp] theorem operandsOf_nil : operandsOf [] = [] :=
  rfl

@[simp] theorem operandsOf_cons (line : Line) (rest : List Line) :
    operandsOf (line :: rest) = operandsOn line ++ operandsOf rest :=
  List.flatMap_cons

@[simp] theorem operandsOf_append (lines rest : List Line) :
    operandsOf (lines ++ rest) = operandsOf lines ++ operandsOf rest :=
  List.flatMap_append

@[simp] theorem declarationsOf_append (lines rest : List Line) :
    declarationsOf (lines ++ rest) = declarationsOf lines ++ declarationsOf rest := by
  simp [declarationsOf]

/-- Operands that all declare entries declare just these. -/
theorem filterMap_declarationOf? {operands : List Operand} {declared : List Declaration}
    (h : operands.map declarationOf? = declared.map some) :
    operands.filterMap declarationOf? = declared := by
  calc operands.filterMap declarationOf?
      = (operands.map declarationOf?).filterMap id := by rw [List.filterMap_map]; rfl
    _ = declared := by rw [h, List.filterMap_map]; exact List.filterMap_some

/-! ## The switch -/

/-- A line declares a label that some offset entry on the lines before refers to. -/
def RefersBack (before : List Line) (line : Line) : Prop :=
  ∃ label, labelOf? line = some label ∧ ∃ e ∈ declarationsOf before, e.label = label.name

/-- No line declares a label that an entry before it refers to. -/
def StayInTables (lines : List Line) : Prop :=
  ∀ before line after, lines = before ++ line :: after → ¬ RefersBack before line

/-- A line is the first one to declare a label that an entry before it refers to. -/
def Switches (before : List Line) (line : Line) : Prop :=
  StayInTables before ∧ RefersBack before line

section Switching

variable {before before' after after' lines : List Line} {line line' : Line}

theorem stayInTables_nil : StayInTables [] := by
  intro before line after h
  simp at h

theorem StayInTables.of_append (h : StayInTables (before ++ after)) : StayInTables before := by
  intro earlier other rest hsplit
  apply h earlier other (rest ++ after)
  simp [hsplit]

theorem stayInTables_concat_iff :
    StayInTables (lines ++ [line]) ↔ StayInTables lines ∧ ¬ RefersBack lines line := by
  constructor
  · intro h
    exact ⟨h.of_append, h lines line [] rfl⟩
  · rintro ⟨hlines, hline⟩ before other after hsplit
    rcases List.eq_nil_or_concat after with rfl | ⟨front, last, rfl⟩
    · obtain ⟨rfl, hother⟩ := List.append_inj' hsplit rfl
      obtain rfl : line = other := by simpa using hother
      exact hline
    · have hsplit' : lines ++ [line] = (before ++ other :: front) ++ [last] := by
        simpa using hsplit
      exact hlines before other front (List.append_inj' hsplit' rfl).1

/-- Lines all stay in the tables, or one of them is the first that does not. -/
theorem stayInTables_or_exists_switches (lines : List Line) :
    StayInTables lines ∨
      ∃ before line after, lines = before ++ line :: after ∧ Switches before line := by
  induction lines using List.reverseRecOn with
  | nil => exact Or.inl stayInTables_nil
  | append_singleton front last ih =>
      rcases ih with hfront | ⟨before, line, after, rfl, hswitches⟩
      · by_cases hlast : RefersBack front last
        · exact Or.inr ⟨front, last, [], rfl, hfront, hlast⟩
        · exact Or.inl (stayInTables_concat_iff.mpr ⟨hfront, hlast⟩)
      · exact Or.inr ⟨before, line, after ++ [last], by simp, hswitches⟩

/-- Of the lines of a text at most one switches. -/
theorem Switches.unique (h : Switches before line) (h' : Switches before' line')
    (heq : before ++ line :: after = before' ++ line' :: after') :
    before = before' ∧ line = line' ∧ after = after' := by
  rcases List.append_eq_append_iff.mp heq with ⟨more, rfl, hmore⟩ | ⟨more, rfl, hmore⟩
  · cases more with
    | nil =>
        obtain ⟨hline, hafter⟩ := List.cons.inj hmore
        exact ⟨(List.append_nil _).symm, hline, hafter⟩
    | cons first more =>
        obtain ⟨rfl, -⟩ := List.cons.inj hmore
        exact absurd h.2 (h'.1 before line more rfl)
  · cases more with
    | nil =>
        obtain ⟨hline, hafter⟩ := List.cons.inj hmore
        exact ⟨List.append_nil _, hline.symm, hafter.symm⟩
    | cons first more =>
        obtain ⟨rfl, -⟩ := List.cons.inj hmore
        exact absurd h'.2 (h.1 before' line' more rfl)

end Switching

/-! ## The end -/

/-- A line holds the word that ends an artifact. -/
def endsArtifact (line : Line) : Bool :=
  match Statement.ofLine line with
  | .ok { body := .sentinel, .. } => true
  | _ => false

/-- Some lines up to the first one that ends the artifact, that line included. -/
def upToEnd : List Line → List Line
  | [] => []
  | line :: rest =>
      match endsArtifact line with
      | true => [line]
      | false => line :: upToEnd rest

/-- Nothing follows the line that ends the artifact. -/
theorem eq_nil_of_upToEnd {lines before after : List Line} {line : Line}
    (h : upToEnd lines = before ++ line :: after) (hends : endsArtifact line = true) :
    after = [] := by
  induction lines generalizing before with
  | nil => simp [upToEnd] at h
  | cons first rest ih =>
      rw [upToEnd] at h
      split at h
      · -- the first line already ends it
        rcases List.singleton_eq_append_iff.mp h with ⟨-, hline⟩ | ⟨-, hline⟩
        · exact (List.cons.inj hline).2
        · cases hline
      · next hfirst =>
          cases before with
          | nil =>
              obtain ⟨rfl, -⟩ := List.cons.inj h
              rw [hfirst] at hends
              cases hends
          | cons other before => exact ih (List.cons.inj h).2

/-- The lines of a text that belong to its artifact. -/
def linesRead (text : String) : List Line :=
  upToEnd (linesOf text)

/-! ## Records -/

/-- The record that some lines complete, told what has become of it before them. -/
def Reading.over? (entrySize : Nat) : Progress → List Line → Option Record
  | .complete record, _ => some record
  | .underway _, [] => none
  | .underway reading, line :: rest =>
      match Statement.ofLine line with
      | .error _ => none
      | .ok s =>
          match reading.resume entrySize s with
          | .error _ => none
          | .ok progress => over? entrySize progress rest

/-- The record that begins with the first directive on some lines. -/
def recordBelow? (entrySize : Nat) : List Line → Option Record
  | [] => none
  | line :: rest =>
      match Statement.ofLine line with
      | .error _ => none
      | .ok s =>
          match s.body with
          | .empty => recordBelow? entrySize rest
          | .sentinel => none
          | .directive directive =>
              match (Reading.begin directive).feed entrySize directive.width
                directive.operands with
              | .error _ => none
              | .ok progress => Reading.over? entrySize progress rest

/-- Where some lines first declare a label, and the record that begins at or below that
line. -/
def firstPlace? (entrySize : Nat) (name : String) : List Line → Option (Span × Option Record)
  | [] => none
  | line :: rest =>
      match labelOf? line with
      | none => firstPlace? entrySize name rest
      | some label =>
          if label.name = name then some (label.span, recordBelow? entrySize (line :: rest))
          else firstPlace? entrySize name rest

section Labels

variable {entrySize : Nat} {name : String} {line : Line} {rest : List Line}

theorem firstPlace?_cons_of_none (h : labelOf? line = none) :
    firstPlace? entrySize name (line :: rest) = firstPlace? entrySize name rest := by
  rw [firstPlace?, h]

theorem firstPlace?_cons_of_some {label : Label} (h : labelOf? line = some label) :
    firstPlace? entrySize name (line :: rest) =
      if label.name = name then some (label.span, recordBelow? entrySize (line :: rest))
      else firstPlace? entrySize name rest := by
  rw [firstPlace?, h]

/-- The first place of a label is a line that declares it. -/
theorem exists_line_of_firstPlace? {lines : List Line} {place : Span × Option Record}
    (h : firstPlace? entrySize name lines = some place) :
    ∃ above line below label, lines = above ++ line :: below ∧ labelOf? line = some label ∧
      label.name = name ∧ place = (label.span, recordBelow? entrySize (line :: below)) := by
  induction lines with
  | nil => cases h
  | cons line rest ih =>
      have hrest : firstPlace? entrySize name rest = some place →
          ∃ above line' below label, line :: rest = above ++ line' :: below ∧
            labelOf? line' = some label ∧ label.name = name ∧
            place = (label.span, recordBelow? entrySize (line' :: below)) := by
        intro hplace
        obtain ⟨above, line', below, label, rfl, hfound⟩ := ih hplace
        exact ⟨line :: above, line', below, label, rfl, hfound⟩
      cases hlabel : labelOf? line with
      | none =>
          rw [firstPlace?_cons_of_none hlabel] at h
          exact hrest h
      | some label =>
          rw [firstPlace?_cons_of_some hlabel] at h
          split at h
          · next hname =>
              exact ⟨[], line, rest, label, rfl, hlabel, hname, (Option.some.inj h).symm⟩
          · exact hrest h

end Labels

end SpriteTables
