import SpriteTables.Proofs.FirstOccurrences
import SpriteTables.Proofs.OffsetTable.Growth

/-!
# Regrouped offset tables

A listing writes an offset table by table, so entries that a target declares in any mixture stand
table by table afterwards (`OffsetTable.regroup`). The entries and the tables stay the same, and
so does the order inside each table; only positions change. Entries that could be declared in the
old order can be declared in the new one (`declarable_regroup`).
-/

set_option autoImplicit false

namespace SpriteTables.OffsetTable

/-- The entries of one table, in order. -/
def entriesOf (t : OffsetTable) (table : String) : List OffsetEntry :=
  t.entries.filter (·.table = table)

/-- The same entries table by table, the tables in order of first appearance. -/
def regroup (t : OffsetTable) : OffsetTable :=
  ⟨t.tableNames.flatMap t.entriesOf⟩

variable {t : OffsetTable}

/-! ## Tables -/

theorem mem_entriesOf {e : OffsetEntry} {table : String} :
    e ∈ t.entriesOf table ↔ e ∈ t.entries ∧ e.table = table := by
  rw [entriesOf, List.mem_filter, decide_eq_true_eq]

theorem mem_tableNames {table : String} :
    table ∈ t.tableNames ↔ ∃ e ∈ t.entries, e.table = table := by
  rw [tableNames, List.mem_eraseDups, List.mem_map]

theorem entriesOf_ne_nil {table : String} (h : table ∈ t.tableNames) :
    t.entriesOf table ≠ [] := by
  obtain ⟨e, he, hetable⟩ := mem_tableNames.mp h
  exact List.ne_nil_of_mem (mem_entriesOf.mpr ⟨he, hetable⟩)

/-- Of entries collected table by table, those of one table are its own. -/
theorem filter_flatMap_entriesOf {names : List String} (hnodup : names.Nodup) (table : String) :
    (names.flatMap t.entriesOf).filter (·.table = table) =
      if table ∈ names then t.entriesOf table else [] := by
  induction names with
  | nil => rfl
  | cons name rest ih =>
      obtain ⟨hname, hrest⟩ := List.nodup_cons.mp hnodup
      rw [List.flatMap_cons, List.filter_append, ih hrest]
      by_cases heq : table = name
      · -- the table's own entries all pass, the others add none
        subst heq
        have hkeep : (t.entriesOf table).filter (·.table = table) = t.entriesOf table :=
          List.filter_eq_self.mpr fun e he => decide_eq_true (mem_entriesOf.mp he).2
        rw [hkeep, if_neg hname, if_pos List.mem_cons_self, List.append_nil]
      · -- entries of another table all fail
        have hdrop : (t.entriesOf name).filter (·.table = table) = [] := by
          refine List.filter_eq_nil_iff.mpr fun e he hetable => heq ?_
          rw [← of_decide_eq_true hetable, (mem_entriesOf.mp he).2]
        simp [hdrop, heq]

/-! ## The regrouped table -/

/-- Regrouping keeps the entries of each table and their order. -/
theorem entriesOf_regroup (t : OffsetTable) (table : String) :
    t.regroup.entriesOf table = t.entriesOf table := by
  have hnodup : t.tableNames.Nodup := nodup_eraseDups _
  rw [entriesOf, regroup, filter_flatMap_entriesOf hnodup]
  split
  · rfl
  · next h =>
      refine (List.filter_eq_nil_iff.mpr fun e he hetable => h ?_).symm
      exact mem_tableNames.mpr ⟨e, he, of_decide_eq_true hetable⟩

theorem tableNames_regroup (t : OffsetTable) : t.regroup.tableNames = t.tableNames := by
  have hmap : (t.tableNames.flatMap t.entriesOf).map (·.table) =
      t.tableNames.flatMap fun table => (t.entriesOf table).map (·.table) := List.map_flatMap
  rw [tableNames, regroup, hmap]
  refine eraseDups_flatMap (nodup_eraseDups _) (fun table htable => ?_) (fun table _ => ?_)
  · intro hnil
    exact entriesOf_ne_nil htable (List.map_eq_nil_iff.mp hnil)
  · exact List.forall_mem_map.mpr fun e he => (mem_entriesOf.mp he).2

theorem labelsOf_regroup (t : OffsetTable) (table : String) :
    t.regroup.labelsOf table = t.labelsOf table :=
  congrArg (List.map OffsetEntry.label) (entriesOf_regroup t table)

/-- A regrouped table stays as it is. -/
theorem regroup_regroup (t : OffsetTable) : t.regroup.regroup = t.regroup := by
  have hentries : t.regroup.entriesOf = t.entriesOf := funext (entriesOf_regroup t)
  rw [regroup, tableNames_regroup, hentries]
  rfl

/-! ## The same entries -/

/-- Collecting entries by their tables rearranges them. -/
theorem flatMap_entriesOf_perm {names : List String} (hnodup : names.Nodup) {t : OffsetTable}
    (h : ∀ e ∈ t.entries, e.table ∈ names) : (names.flatMap t.entriesOf).Perm t.entries := by
  induction names generalizing t with
  | nil =>
      have hnil : t.entries = [] :=
        List.eq_nil_iff_forall_not_mem.mpr fun e he => absurd (h e he) List.not_mem_nil
      rw [hnil]
      exact List.Perm.nil
  | cons name rest ih =>
      obtain ⟨hname, hrest⟩ := List.nodup_cons.mp hnodup
      have hothers : rest.flatMap t.entriesOf =
          rest.flatMap (entriesOf ⟨t.entries.filter fun e => !decide (e.table = name)⟩) := by
        rw [List.flatMap_def, List.flatMap_def]
        refine congrArg List.flatten (List.map_congr_left fun other hother => ?_)
        rw [entriesOf, entriesOf, List.filter_filter]
        apply List.filter_congr
        intro e _
        by_cases heq : e.table = other
        · have hne : other ≠ name := fun hsame => hname (hsame ▸ hother)
          simp [heq, hne]
        · simp [heq]
      have hleft := ih hrest
        (t := ⟨t.entries.filter fun e => !decide (e.table = name)⟩) fun e he => by
          obtain ⟨he, hne⟩ := List.mem_filter.mp he
          rcases List.mem_cons.mp (h e he) with heq | hmem
          · simp [heq] at hne
          · exact hmem
      rw [List.flatMap_cons, hothers]
      exact (hleft.append_left _).trans (List.filter_append_perm _ _)

theorem regroup_perm (t : OffsetTable) : t.regroup.entries.Perm t.entries :=
  flatMap_entriesOf_perm (nodup_eraseDups _) fun e he => mem_tableNames.mpr ⟨e, he, rfl⟩

theorem mem_entries_regroup {e : OffsetEntry} : e ∈ t.regroup.entries ↔ e ∈ t.entries :=
  (regroup_perm t).mem_iff

theorem size_regroup (t : OffsetTable) : t.regroup.size = t.size :=
  (regroup_perm t).length_eq

theorem tableCount_regroup (t : OffsetTable) : t.regroup.tableCount = t.tableCount :=
  congrArg List.length (tableNames_regroup t)

/-- The first entry stays the first one. -/
theorem entries_regroup_cons {root : OffsetEntry} {rest : List OffsetEntry}
    (h : t.entries = root :: rest) : ∃ rest', t.regroup.entries = root :: rest' := by
  -- the first entry's table comes first, and it comes first there
  have hnames : t.tableNames = root.table ::
      ((rest.map (·.table)).filter fun table => !table == root.table).eraseDups := by
    rw [tableNames, h, List.map_cons, List.eraseDups_cons]
  have hgroup : t.entriesOf root.table = root :: rest.filter (·.table = root.table) := by
    rw [entriesOf, h, List.filter_cons]
    simp
  rw [regroup, hnames, List.flatMap_cons, hgroup, List.cons_append]
  exact ⟨_, rfl⟩

/-- Regrouped entries can be declared in their new order. -/
theorem declarable_regroup (h : Declarable t.entries) : Declarable t.regroup.entries := by
  cases hentries : t.entries with
  | nil =>
      have hnil := regroup_perm t
      rw [hentries] at hnil
      rw [hnil.eq_nil]
      exact declarable_nil
  | cons root rest =>
      obtain ⟨rest', hregroup⟩ := entries_regroup_cons hentries
      have hperm := regroup_perm t
      rw [hentries, hregroup] at hperm
      rw [hentries] at h
      rw [hregroup]
      exact h.of_perm hperm.cons_inv.symm

end SpriteTables.OffsetTable
