import Mathlib.Data.List.Nodup
import SpriteTables.Proofs.Artifact.Bindings
import SpriteTables.Proofs.Ascending

/-!
# Records gathered from bindings

A reading binds labels to records one at a time. What it delivers are the distinct records in
order of first appearance, each under all labels that were bound to it. `Gathered` says so of some
labelled records and the bindings they were gathered from; one more binding keeps it
(`gathered_add`), so `LabelledRecord.gather` has it.
-/

set_option autoImplicit false

namespace SpriteTables.LabelledRecord

/-! ## One binding -/

theorem map_record_add (record : Record) (label : String) (records : List LabelledRecord) :
    (add record label records).map (·.record) =
      if record ∈ records.map (·.record) then records.map (·.record)
      else records.map (·.record) ++ [record] := by
  induction records with
  | nil => rfl
  | cons entry rest ih =>
      rw [add]
      by_cases h : entry.record = record
      · simp [h]
      · have hne : ¬ record = entry.record := fun heq => h heq.symm
        rw [if_neg h, List.map_cons, ih]
        by_cases hmem : record ∈ rest.map (·.record)
        · simp [hmem]
        · simp [hmem, hne]

/-- A label names a record afterwards when it did before or was just added to it. -/
theorem exists_mem_add_iff {record r : Record} {label l : String}
    {records : List LabelledRecord} :
    (∃ entry ∈ add record label records, entry.record = r ∧ l ∈ entry.labels) ↔
      (∃ entry ∈ records, entry.record = r ∧ l ∈ entry.labels) ∨ (record = r ∧ label = l) := by
  induction records with
  | nil => simp [add, eq_comm]
  | cons entry rest ih =>
      rw [add]
      split
      · next h =>
          subst h
          simp only [List.mem_cons, or_and_right, exists_or, exists_eq_left, Ascending.mem_insert]
          constructor
          · rintro (⟨hr, rfl | hl⟩ | hrest)
            · exact Or.inr ⟨hr, rfl⟩
            · exact Or.inl (Or.inl ⟨hr, hl⟩)
            · exact Or.inl (Or.inr hrest)
          · rintro ((⟨hr, hl⟩ | hrest) | ⟨hr, rfl⟩)
            · exact Or.inl ⟨hr, Or.inr hl⟩
            · exact Or.inr hrest
            · exact Or.inl ⟨hr, Or.inl rfl⟩
      · simp only [List.mem_cons, or_and_right, exists_or, exists_eq_left, ih, or_assoc]

theorem pairwise_labels_add {record : Record} {label : String} {records : List LabelledRecord}
    (h : ∀ entry ∈ records, entry.labels.Pairwise (· < ·)) :
    ∀ entry ∈ add record label records, entry.labels.Pairwise (· < ·) := by
  induction records with
  | nil =>
      intro entry hentry
      obtain rfl := List.mem_singleton.mp hentry
      exact List.pairwise_singleton _ _
  | cons first rest ih =>
      obtain ⟨hfirst, hrest⟩ := List.forall_mem_cons.mp h
      rw [add]
      split
      · exact List.forall_mem_cons.mpr ⟨Ascending.pairwise_insert hfirst, hrest⟩
      · exact List.forall_mem_cons.mpr ⟨hfirst, ih hrest⟩

/-- Adding a label that all entries of the record have changes nothing. -/
theorem add_of_mem {record : Record} {label : String} {records : List LabelledRecord}
    (hmem : record ∈ records.map (·.record))
    (hascending : ∀ entry ∈ records, entry.labels.Pairwise (· < ·))
    (hlabels : ∀ entry ∈ records, entry.record = record → label ∈ entry.labels) :
    add record label records = records := by
  induction records with
  | nil => cases hmem
  | cons entry rest ih =>
      obtain ⟨hentry, hrest⟩ := List.forall_mem_cons.mp hascending
      obtain ⟨hlabel, hothers⟩ := List.forall_mem_cons.mp hlabels
      rw [add]
      split
      · next h => rw [Ascending.insert_of_mem hentry (hlabel h)]
      · next h =>
          have hne : ¬ record = entry.record := fun heq => h heq.symm
          have htail : record ∈ rest.map (·.record) := by simpa [hne] using hmem
          rw [ih htail hrest hothers]

/-! ## All bindings -/

/-- The labelled records hold the records of some bindings in order of first appearance, each
under exactly the labels that are bound to it, as an ascending list. -/
structure Gathered (records : List LabelledRecord) (bindings : List Binding) : Prop where
  records_eq : records.map (·.record) = (bindings.map (·.record)).eraseDups
  mem_labels_iff : ∀ (r : Record) (l : String),
    (∃ entry ∈ records, entry.record = r ∧ l ∈ entry.labels) ↔ Binds bindings l r
  ascending : ∀ entry ∈ records, entry.labels.Pairwise (· < ·)

/-- Adding the label and the record of one more binding gathers that one, too. -/
theorem gathered_add {records : List LabelledRecord} {bindings : List Binding}
    (h : Gathered records bindings) (b : Binding) :
    Gathered (add b.record b.label records) (bindings ++ [b]) where
  records_eq := by
    rw [map_record_add, h.records_eq, List.map_append, List.map_singleton, eraseDups_concat]
    simp only [List.mem_eraseDups]
  mem_labels_iff r l := by
    rw [exists_mem_add_iff, h.mem_labels_iff]
    simp only [Binds, List.mem_append, List.mem_singleton, or_and_right, exists_or, exists_eq_left]
  ascending := pairwise_labels_add h.ascending

/-- What `gather` makes of some bindings is gathered from them. -/
theorem gathered_gather (bindings : List Binding) : Gathered (gather bindings) bindings := by
  -- the fold starts from records that were gathered from the bindings before
  have key : ∀ (todo done : List Binding) (records : List LabelledRecord),
      Gathered records done →
        Gathered (todo.foldl (fun records b => add b.record b.label records) records)
          (done ++ todo) := by
    intro todo
    induction todo with
    | nil =>
        intro done records h
        rw [List.append_nil]
        exact h
    | cons b rest ih =>
        intro done records h
        rw [List.append_cons]
        exact ih (done ++ [b]) _ (gathered_add h b)
  exact key bindings [] [] ⟨rfl, by simp [Binds], by simp⟩

/-! ## Entries -/

section Entries

variable {records : List LabelledRecord} {bindings : List Binding}

theorem Gathered.nodup (h : Gathered records bindings) : (records.map (·.record)).Nodup := by
  rw [h.records_eq]
  exact nodup_eraseDups _

/-- Two entries of one record are the same entry. -/
theorem Gathered.eq_of_record_eq (h : Gathered records bindings) {x y : LabelledRecord}
    (hx : x ∈ records) (hy : y ∈ records) (hrecord : x.record = y.record) : x = y :=
  List.inj_on_of_nodup_map h.nodup hx hy hrecord

/-- The labels of an entry are those bound to its record. -/
theorem Gathered.mem_labels {entry : LabelledRecord} (h : Gathered records bindings)
    (hentry : entry ∈ records) {label : String} :
    label ∈ entry.labels ↔ Binds bindings label entry.record := by
  rw [← h.mem_labels_iff]
  constructor
  · intro hlabel
    exact ⟨entry, hentry, rfl, hlabel⟩
  · rintro ⟨other, hother, hrecord, hlabel⟩
    rw [h.eq_of_record_eq hother hentry hrecord] at hlabel
    exact hlabel

/-- Every entry has a label. -/
theorem Gathered.labels_ne_nil {entry : LabelledRecord} (h : Gathered records bindings)
    (hentry : entry ∈ records) : entry.labels ≠ [] := by
  have hmem : entry.record ∈ records.map (·.record) := List.mem_map_of_mem hentry
  rw [h.records_eq, List.mem_eraseDups, List.mem_map] at hmem
  obtain ⟨b, hb, hrecord⟩ := hmem
  exact List.ne_nil_of_mem ((h.mem_labels hentry).mpr ⟨b, hb, hrecord, rfl⟩)

/-- Lists of the same records in the same order are equal when equal records have equal
labels. -/
theorem eq_of_map_record_eq {xs ys : List LabelledRecord}
    (hmap : xs.map (·.record) = ys.map (·.record))
    (h : ∀ x ∈ xs, ∀ y ∈ ys, x.record = y.record → x.labels = y.labels) : xs = ys := by
  induction xs generalizing ys with
  | nil => exact (List.map_eq_nil_iff.mp hmap.symm).symm
  | cons x rest ih =>
      obtain ⟨y, others, rfl, hrecord, hothers⟩ := List.map_eq_cons_iff.mp hmap.symm
      have hlabels := h x List.mem_cons_self y List.mem_cons_self hrecord.symm
      have hrest : rest = others := ih hothers.symm fun x' hx' y' hy' =>
        h x' (List.mem_cons_of_mem _ hx') y' (List.mem_cons_of_mem _ hy')
      obtain ⟨record, labels⟩ := x
      obtain ⟨record', labels'⟩ := y
      cases hrecord
      cases hlabels
      rw [hrest]

end Entries

/-! ## Binding the labels of a record -/

section Binding

variable {bindings : List Binding} {record : Record}

theorem gather_concat (bindings : List Binding) (b : Binding) :
    gather (bindings ++ [b]) = add b.record b.label (gather bindings) := by
  rw [gather, List.foldl_append]
  rfl

/-- Binding an agreeing label to a record adds it there. -/
theorem gather_bindLabel {label : Label} (h : Agrees bindings record label.name) :
    gather (Draft.bindLabel record bindings label) =
      add record label.name (gather bindings) := by
  rw [Draft.bindLabel]
  split
  · exact gather_concat bindings _
  · next b hbound =>
      have hbinds := Draft.binds_of_bindingOf? hbound
      rw [h _ hbinds] at hbinds
      have hgathered := gathered_gather bindings
      obtain ⟨entry, hentry, hrecord, -⟩ := (hgathered.mem_labels_iff record label.name).mpr hbinds
      symm
      apply add_of_mem
      · exact List.mem_map.mpr ⟨entry, hentry, hrecord⟩
      · exact hgathered.ascending
      · rintro other hother rfl
        exact (hgathered.mem_labels hother).mpr hbinds

/-- Adds labels to a record one after the other. -/
def addAll (record : Record) (records : List LabelledRecord) (labels : List Label) :
    List LabelledRecord :=
  labels.foldl (fun records label => add record label.name records) records

/-- Binding agreeing labels to a record adds them there. -/
theorem gather_bindAll {labels : List Label}
    (h : ∀ label ∈ labels, Agrees bindings record label.name) :
    gather (Draft.bindAll bindings record labels) = addAll record (gather bindings) labels := by
  induction labels generalizing bindings with
  | nil => rfl
  | cons label rest ih =>
      obtain ⟨hlabel, hrest⟩ := List.forall_mem_cons.mp h
      have hstep : Draft.bindAll bindings record (label :: rest) =
          Draft.bindAll (Draft.bindLabel record bindings label) record rest := rfl
      rw [hstep, ih fun l hl => Draft.agrees_bindLabel hlabel (hrest l hl),
        gather_bindLabel hlabel]
      rfl

end Binding

end SpriteTables.LabelledRecord
