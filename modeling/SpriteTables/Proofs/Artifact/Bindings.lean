import SpriteTables.Artifact.Parser
import SpriteTables.Proofs.FirstOccurrences

/-!
# Labels bound to records

A reading binds the labels above a record to it, unless one of them names another record already.
This module describes the bindings by what they relate, a label and a record (`Binds`), and says
what binding the labels of one more record does to that relation (`binds_bindAll_iff`,
`functional_bindAll`) and to the records in order of first appearance (`eraseDups_bindAll`).
-/

set_option autoImplicit false

namespace SpriteTables

/-- Some bindings make a label name a record. -/
def Binds (bindings : List Binding) (label : String) (record : Record) : Prop :=
  ∃ b ∈ bindings, b.record = record ∧ b.label = label

/-- Some bindings make a label name no record but the given one. -/
def Agrees (bindings : List Binding) (record : Record) (label : String) : Prop :=
  ∀ r, Binds bindings label r → r = record

/-- Every label names at most one record. -/
def Functional (bindings : List Binding) : Prop :=
  ∀ label r r', Binds bindings label r → Binds bindings label r' → r = r'

namespace Draft

variable {bindings : List Binding} {record : Record}

/-! ## Looking up a label -/

theorem bindingOf?_eq_none_iff {name : String} :
    bindingOf? bindings name = none ↔ ∀ r, ¬ Binds bindings name r := by
  rw [bindingOf?, List.find?_eq_none]
  constructor
  · rintro h r ⟨b, hb, -, hlabel⟩
    exact h b hb (decide_eq_true hlabel)
  · intro h b hb hlabel
    exact h b.record ⟨b, hb, rfl, of_decide_eq_true hlabel⟩

theorem binds_of_bindingOf? {name : String} {b : Binding}
    (h : bindingOf? bindings name = some b) : Binds bindings name b.record := by
  rw [bindingOf?] at h
  exact ⟨b, List.mem_of_find?_eq_some h, rfl, by simpa using List.find?_some h⟩

/-! ## Conflicts -/

/-- Labels may be bound to a record when each names no other one. -/
theorem conflict?_eq_none_iff {labels : List Label} (hfunctional : Functional bindings) :
    conflict? bindings record labels = none ↔
      ∀ label ∈ labels, Agrees bindings record label.name := by
  induction labels with
  | nil => simp [conflict?]
  | cons label rest ih =>
      rw [conflict?, List.forall_mem_cons, ← ih]
      cases hbinding : bindingOf? bindings label.name with
      | none =>
          have hagrees : Agrees bindings record label.name := fun r hr =>
            absurd hr (bindingOf?_eq_none_iff.mp hbinding r)
          exact ⟨fun h => ⟨hagrees, h⟩, fun h => h.2⟩
      | some binding =>
          have hbinds := binds_of_bindingOf? hbinding
          by_cases hrecord : binding.record = record
          · have hagrees : Agrees bindings record label.name := fun r hr =>
              (hfunctional _ _ _ hr hbinds).trans hrecord
            simp only [hrecord, if_true]
            exact ⟨fun h => ⟨hagrees, h⟩, fun h => h.2⟩
          · simp only [hrecord, if_false]
            constructor
            · intro h
              cases h
            · rintro ⟨hagrees, -⟩
              exact absurd (hagrees _ hbinds) hrecord

/-- A conflict is about the first label that names another record. -/
theorem conflict?_eq_some {labels : List Label} {label : Label} {binding : Binding}
    (hfunctional : Functional bindings)
    (h : conflict? bindings record labels = some (label, binding)) :
    ∃ before after, labels = before ++ label :: after ∧
      (∀ l ∈ before, Agrees bindings record l.name) ∧ ¬ Agrees bindings record label.name := by
  induction labels with
  | nil => cases h
  | cons first rest ih =>
      rw [conflict?] at h
      cases hbinding : bindingOf? bindings first.name with
      | none =>
          rw [hbinding] at h
          obtain ⟨before, after, rfl, hbefore, hlabel⟩ := ih h
          refine ⟨first :: before, after, rfl, List.forall_mem_cons.mpr ⟨?_, hbefore⟩, hlabel⟩
          exact fun r hr => absurd hr (bindingOf?_eq_none_iff.mp hbinding r)
      | some found =>
          have hbinds := binds_of_bindingOf? hbinding
          rw [hbinding] at h
          by_cases hrecord : found.record = record
          · simp only [hrecord, if_true] at h
            obtain ⟨before, after, rfl, hbefore, hlabel⟩ := ih h
            refine ⟨first :: before, after, rfl, List.forall_mem_cons.mpr ⟨?_, hbefore⟩, hlabel⟩
            exact fun r hr => (hfunctional _ _ _ hr hbinds).trans hrecord
          · simp only [hrecord, if_false] at h
            cases h
            exact ⟨[], rest, rfl, fun l hl => absurd hl List.not_mem_nil,
              fun hagrees => hrecord (hagrees _ hbinds)⟩

/-! ## Binding one label -/

/-- Binding an agreeing label to a record makes it name that record. -/
theorem binds_bindLabel_iff {label : Label} (h : Agrees bindings record label.name) {name : String}
    {r : Record} :
    Binds (bindLabel record bindings label) name r ↔
      Binds bindings name r ∨ (record = r ∧ label.name = name) := by
  rw [bindLabel]
  split
  · simp [Binds, or_and_right, exists_or]
  · next b hbinding =>
      -- the label names the record already, so nothing is added
      have hbinds := binds_of_bindingOf? hbinding
      rw [h _ hbinds] at hbinds
      refine ⟨Or.inl, ?_⟩
      rintro (hr | ⟨rfl, rfl⟩)
      · exact hr
      · exact hbinds

/-- Binding a label to a record leaves those agreeing that did. -/
theorem agrees_bindLabel {label : Label} {name : String} (h : Agrees bindings record label.name)
    (hname : Agrees bindings record name) :
    Agrees (bindLabel record bindings label) record name := by
  intro r hr
  rcases (binds_bindLabel_iff h).mp hr with hr | ⟨rfl, -⟩
  · exact hname r hr
  · rfl

/-! ## Binding the labels of a record -/

/-- The bindings after some labels were bound to a record. -/
def bindAll (bindings : List Binding) (record : Record) (labels : List Label) : List Binding :=
  labels.foldl (bindLabel record) bindings

/-- Agreeing labels name the record to which they were bound. -/
theorem binds_bindAll_iff {labels : List Label}
    (h : ∀ label ∈ labels, Agrees bindings record label.name) {name : String} {r : Record} :
    Binds (bindAll bindings record labels) name r ↔
      Binds bindings name r ∨ (record = r ∧ ∃ label ∈ labels, label.name = name) := by
  induction labels generalizing bindings with
  | nil => simp [bindAll]
  | cons label rest ih =>
      obtain ⟨hlabel, hrest⟩ := List.forall_mem_cons.mp h
      have hstep : bindAll bindings record (label :: rest) =
          bindAll (bindLabel record bindings label) record rest := rfl
      rw [hstep, ih fun l hl => agrees_bindLabel hlabel (hrest l hl), binds_bindLabel_iff hlabel]
      simp only [List.mem_cons, exists_eq_or_imp, or_assoc, and_or_left]

/-- Binding agreeing labels leaves every label with at most one record. -/
theorem functional_bindAll {labels : List Label} (hfunctional : Functional bindings)
    (h : ∀ label ∈ labels, Agrees bindings record label.name) :
    Functional (bindAll bindings record labels) := by
  intro name r r' hr hr'
  rcases (binds_bindAll_iff h).mp hr with hr | ⟨rfl, label, hlabel, rfl⟩
  · rcases (binds_bindAll_iff h).mp hr' with hr' | ⟨rfl, label, hlabel, rfl⟩
    · exact hfunctional _ _ _ hr hr'
    · exact h label hlabel r hr
  · rcases (binds_bindAll_iff h).mp hr' with hr' | ⟨rfl, -⟩
    · exact (h label hlabel r' hr').symm
    · rfl

/-- Binding labels to a record that is bound already brings no new record. -/
theorem eraseDups_bindAll_of_mem {labels : List Label} (hmem : record ∈ bindings.map (·.record)) :
    ((bindAll bindings record labels).map (·.record)).eraseDups =
      (bindings.map (·.record)).eraseDups := by
  induction labels generalizing bindings with
  | nil => rfl
  | cons label rest ih =>
      have hstep : bindAll bindings record (label :: rest) =
          bindAll (bindLabel record bindings label) record rest := rfl
      rw [hstep, bindLabel]
      split
      · rw [ih (by simp [hmem]), List.map_append]
        exact eraseDups_append_of_subset fun r hr => by
          obtain rfl : r = record := by simpa using hr
          exact hmem
      · exact ih hmem

/-- Binding agreeing labels to a record makes it the last to appear, unless it
appeared before. -/
theorem eraseDups_bindAll {labels : List Label} (hne : labels ≠ [])
    (h : ∀ label ∈ labels, Agrees bindings record label.name) :
    ((bindAll bindings record labels).map (·.record)).eraseDups =
      (bindings.map (·.record) ++ [record]).eraseDups := by
  cases labels with
  | nil => exact absurd rfl hne
  | cons label rest =>
      have hlabel := h label List.mem_cons_self
      have hstep : bindAll bindings record (label :: rest) =
          bindAll (bindLabel record bindings label) record rest := rfl
      have hmem : record ∈ (bindLabel record bindings label).map (·.record) := by
        obtain ⟨b, hb, hrecord, -⟩ := (binds_bindLabel_iff hlabel).mpr (Or.inr ⟨rfl, rfl⟩)
        exact List.mem_map.mpr ⟨b, hb, hrecord⟩
      -- after the first label the record is there, and the others add nothing
      rw [hstep, eraseDups_bindAll_of_mem hmem, bindLabel]
      split
      · rw [List.map_append, List.map_singleton]
      · next b hbinding =>
          obtain ⟨found, hfound, hrecord, -⟩ := binds_of_bindingOf? hbinding
          have hsame : found.record = record := by
            rw [hrecord]
            exact hlabel _ (binds_of_bindingOf? hbinding)
          refine (eraseDups_append_of_subset ?_).symm
          intro r hr
          obtain rfl : r = record := by simpa using hr
          exact List.mem_map.mpr ⟨found, hfound, hsame⟩

end Draft

end SpriteTables
