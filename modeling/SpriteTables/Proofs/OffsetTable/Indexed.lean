import Mathlib.Data.List.Induction
import SpriteTables.Proofs.OffsetTable.Regrouped
import SpriteTables.Proofs.Placement.Outcome

/-!
# Offset tables with indices

A table that is asked often keeps, beside its entries, the positions of each table's entries in
rows, the first position of each label, and while it grows the place where each label was declared
first. All four are changed by one operation, which may also refuse (`TableBuilder.push`). This
module keeps them so and shows that they always say the same: after any pushes, accepted or
refused, the indices are those that the accepted entries determine, and every view through them is
the view of the plain table (`indexed_of_pushEach`). The invariant is `Built`; one push carries it
on (`built_push`), and so does any sequence of them (`built_pushEach`).
-/

set_option autoImplicit false

namespace SpriteTables

open Text (Span)

/-! ## Keys and rows -/

section Keys

variable {α : Type}

/-- Adds a value under a key that has none. -/
def insertNew (key : String) (value : α) (pairs : List (String × α)) : List (String × α) :=
  match pairs.lookup key with
  | some _ => pairs
  | none => pairs ++ [(key, value)]

/-- A key that had a value keeps it. -/
theorem lookup_insertNew (key other : String) (value : α) (pairs : List (String × α)) :
    (insertNew key value pairs).lookup other =
      (pairs.lookup other).or (if other = key then some value else none) := by
  rw [insertNew]
  split
  · next found hfound =>
      split
      · next heq => rw [heq, hfound, Option.some_or]
      · rw [Option.or_none]
  · rw [List.lookup_append]
    by_cases heq : other = key
    · simp [heq]
    · have hne : (other == key) = false := by simpa using heq
      rw [List.lookup_cons, hne, if_neg heq]
      rfl

/-- Appends a position to the row of a table, which is added if there is none. -/
def addPosition (table : String) (position : Nat) :
    List (String × List Nat) → List (String × List Nat)
  | [] => [(table, [position])]
  | row :: rest =>
      if row.1 = table then (row.1, row.2 ++ [position]) :: rest
      else row :: addPosition table position rest

/-- Only the row of the table grows. -/
theorem addPosition_map {names : List String} (hnodup : names.Nodup) (table : String)
    (position : Nat) (positions : String → List Nat) :
    addPosition table position (names.map fun name => (name, positions name)) =
      (names.map fun name =>
        (name, positions name ++ if name = table then [position] else [])) ++
      if table ∈ names then [] else [(table, [position])] := by
  induction names with
  | nil => rfl
  | cons name rest ih =>
      obtain ⟨hname, hrest⟩ := List.nodup_cons.mp hnodup
      rw [List.map_cons, addPosition, List.map_cons]
      by_cases heq : name = table
      · -- no other row is that of the table
        subst heq
        have hothers : rest.map (fun other =>
            (other, positions other ++ if other = name then [position] else [])) =
              rest.map fun other => (other, positions other) := by
          apply List.map_congr_left
          intro other hother
          have hne : other ≠ name := fun hsame => hname (hsame ▸ hother)
          rw [if_neg hne, List.append_nil]
        rw [hothers]
        simp
      · have hmem : table ∈ name :: rest ↔ table ∈ rest := by
          rw [List.mem_cons, or_iff_right (Ne.symm heq)]
        simp only [if_neg heq, hmem, List.append_nil, List.cons_append, ih hrest]

end Keys

/-! ## Indexed tables -/

/-- An offset table with the indices through which it is asked: `rows` are the tables in order of
first appearance, each with the positions of its entries, and `firstIndex` keeps the first
position of each label. -/
structure IndexedTable where
  entries : List OffsetEntry := []
  rows : List (String × List Nat) := []
  firstIndex : List (String × Nat) := []
deriving DecidableEq, Repr

namespace IndexedTable

/-- The table of the first row. -/
def mainTable? (t : IndexedTable) : Option String :=
  t.rows.head?.map (·.1)

/-- The label of the first entry. -/
def sharedRoot? (t : IndexedTable) : Option String :=
  t.entries.head?.map (·.label)

/-- The names of the tables. -/
def tableNames (t : IndexedTable) : List String :=
  t.rows.map (·.1)

/-- The label at a position. -/
def labelAt? (t : IndexedTable) (index : Nat) : Option String :=
  t.entries[index]?.map (·.label)

/-- The labels at the positions of a table. -/
def labelsOf (t : IndexedTable) (table : String) : List String :=
  ((t.rows.lookup table).getD []).filterMap t.labelAt?

/-- The position kept for a label. -/
def indexOf? (t : IndexedTable) (label : String) : Option Nat :=
  t.firstIndex.lookup label

/-- Adds an entry to the entries and to both indices. -/
def add (t : IndexedTable) (entry : OffsetEntry) : IndexedTable :=
  let index := t.entries.length
  { firstIndex := insertNew entry.label index t.firstIndex
    rows := addPosition entry.table index t.rows
    entries := t.entries ++ [entry] }

end IndexedTable

/-- A table that grows, with the place where each label was declared first. -/
structure TableBuilder where
  table : IndexedTable := {}
  declaredAt : List (String × Span) := []
deriving DecidableEq, Repr

namespace TableBuilder

/-- An entry repeats the shared root outside of the main table. -/
def isRootAlias (b : TableBuilder) (entry : OffsetEntry) : Bool :=
  decide (b.table.mainTable? ≠ some entry.table) && decide (b.table.sharedRoot? = some entry.label)

/-- Adds an entry to the table. -/
def add (b : TableBuilder) (entry : OffsetEntry) : TableBuilder :=
  { b with table := b.table.add entry }

/-- Declares an entry, and gives the builder after it. -/
def push (b : TableBuilder) (new : Declaration) : Except Diagnostic Unit × TableBuilder :=
  match b.declaredAt.lookup new.label with
  | some first =>
      if b.isRootAlias new.toOffsetEntry then (.ok (), b.add new.toOffsetEntry)
      else
        (.error (((Diagnostic.of new.span (.duplicateLabel new.label)).relate first
          .firstDeclared).advise .sharedRootOnly), b)
  | none =>
      let noted := { b with declaredAt := insertNew new.label new.span b.declaredAt }
      (.ok (), noted.add new.toOffsetEntry)

/-- Declares some entries one after the other, and collects those that are accepted. -/
def pushEach (accepted : List Declaration) (b : TableBuilder) :
    List Declaration → List Declaration × TableBuilder
  | [] => (accepted, b)
  | new :: rest =>
      match b.push new with
      | (.ok (), next) => pushEach (accepted ++ [new]) next rest
      | (.error _, next) => pushEach accepted next rest

end TableBuilder

/-! ## What the indices hold -/

namespace OffsetTable

/-- The positions of the entries of a table, ascending. -/
def positionsOf (t : OffsetTable) (table : String) : List Nat :=
  (List.range t.size).filter fun i => t.entries[i]?.map (·.table) = some table

/-- The tables in order of first appearance, each with the positions of its entries. -/
def rows (t : OffsetTable) : List (String × List Nat) :=
  t.tableNames.map fun table => (table, t.positionsOf table)

variable {t : OffsetTable} {entry : OffsetEntry} {table : String}

theorem mem_positionsOf {i : Nat} :
    i ∈ t.positionsOf table ↔ ∃ e, t.entries[i]? = some e ∧ e.table = table := by
  rw [positionsOf, List.mem_filter, List.mem_range, decide_eq_true_eq, Option.map_eq_some_iff]
  refine and_iff_right_of_imp ?_
  rintro ⟨e, he, -⟩
  exact (List.getElem?_eq_some_iff.mp he).1

/-- A name that no table has stands at no position. -/
theorem positionsOf_eq_nil (h : table ∉ t.tableNames) : t.positionsOf table = [] := by
  refine List.eq_nil_iff_forall_not_mem.mpr fun i hi => h ?_
  obtain ⟨e, he, htable⟩ := mem_positionsOf.mp hi
  exact mem_tableNames.mpr ⟨e, List.mem_of_getElem? he, htable⟩

theorem pairwise_positionsOf (t : OffsetTable) (table : String) :
    (t.positionsOf table).Pairwise (· < ·) :=
  List.pairwise_lt_range.filter _

/-- An entry at the end adds its position to those of its table. -/
theorem positionsOf_concat (entries : List OffsetEntry) (entry : OffsetEntry) (table : String) :
    positionsOf ⟨entries ++ [entry]⟩ table =
      positionsOf ⟨entries⟩ table ++ if table = entry.table then [entries.length] else [] := by
  have hbefore : ∀ i ∈ List.range entries.length,
      decide ((entries ++ [entry])[i]?.map (·.table) = some table) =
        decide (entries[i]?.map (·.table) = some table) := by
    intro i hi
    rw [List.getElem?_append_left (List.mem_range.mp hi)]
  rw [positionsOf, positionsOf, size, size, List.length_append, List.length_singleton,
    List.range_succ, List.filter_append, List.filter_congr hbefore]
  by_cases heq : table = entry.table
  · simp [heq]
  · simp [heq, Ne.symm heq]

/-- An entry at the end adds its position to the row of its table. -/
theorem rows_concat (entries : List OffsetEntry) (entry : OffsetEntry) :
    rows ⟨entries ++ [entry]⟩ = addPosition entry.table entries.length (rows ⟨entries⟩) := by
  have hnames : tableNames ⟨entries ++ [entry]⟩ =
      tableNames ⟨entries⟩ ++ if entry.table ∈ tableNames ⟨entries⟩ then [] else [entry.table] := by
    rw [tableNames, tableNames, List.map_append, List.map_singleton, eraseDups_concat]
    simp only [List.mem_eraseDups]
    split
    · rw [List.append_nil]
    · rfl
  have hnodup : (tableNames ⟨entries⟩).Nodup := nodup_eraseDups _
  rw [rows, rows, addPosition_map hnodup, hnames, List.map_append]
  simp only [positionsOf_concat]
  congr 1
  split
  · rfl
  · next hnot =>
      rw [List.map_singleton, positionsOf_eq_nil hnot]
      simp

/-- The rows divide all positions among the tables. -/
theorem positions_rows_perm (t : OffsetTable) :
    (t.rows.flatMap (·.2)).Perm (List.range t.size) := by
  have hnodup : (t.tableNames.flatMap t.positionsOf).Nodup := by
    refine List.nodup_flatMap.mpr ⟨fun table _ => List.nodup_range.filter _, ?_⟩
    refine (nodup_eraseDups _).imp fun {table other} hne i hi hi' => hne ?_
    obtain ⟨e, he, rfl⟩ := mem_positionsOf.mp hi
    obtain ⟨e', he', rfl⟩ := mem_positionsOf.mp hi'
    rw [he] at he'
    cases he'
    rfl
  rw [rows, List.flatMap_map]
  refine (List.perm_ext_iff_of_nodup hnodup List.nodup_range).mpr fun i => ?_
  rw [List.mem_flatMap, List.mem_range]
  constructor
  · rintro ⟨table, -, hi⟩
    obtain ⟨e, he, -⟩ := mem_positionsOf.mp hi
    exact (List.getElem?_eq_some_iff.mp he).1
  · intro hi
    have he : t.entries[i]? = some t.entries[i] := List.getElem?_eq_getElem hi
    exact ⟨_, mem_tableNames.mpr ⟨_, List.getElem_mem hi, rfl⟩, mem_positionsOf.mpr ⟨_, he, rfl⟩⟩

theorem indexOf?_concat (entries : List OffsetEntry) (entry : OffsetEntry) (label : String) :
    indexOf? ⟨entries ++ [entry]⟩ label =
      (indexOf? ⟨entries⟩ label).or
        (if label = entry.label then some entries.length else none) := by
  rw [indexOf?, indexOf?, List.findIdx?_append, List.findIdx?_singleton]
  by_cases heq : label = entry.label
  · simp [heq]
  · simp [heq, Ne.symm heq]

/-- Only the shared root is declared again, and only outside of the main table. -/
theorem eq_root_of_indexOf?_lt (h : Declarable t.entries) {label : String} {first index : Nat}
    (hfirst : t.indexOf? label = some first) (hindex : t.labelAt? index = some label)
    (hlt : first < index) :
    t.sharedRoot? = some label ∧
      ∃ e, t.entries[index]? = some e ∧ t.mainTable? ≠ some e.table := by
  obtain ⟨hat, hbefore⟩ := indexOf?_eq_some_iff.mp hfirst
  obtain ⟨e, he, rfl⟩ := Option.map_eq_some_iff.mp hindex
  obtain ⟨e', he', hsame⟩ := Option.map_eq_some_iff.mp hat
  obtain ⟨_ | ⟨root, rest⟩⟩ := t
  · cases he
  · obtain ⟨htables, hpair⟩ := declarable_cons_iff.mp h
    obtain ⟨index, rfl⟩ := Nat.exists_eq_add_one_of_ne_zero (Nat.ne_zero_of_lt hlt)
    have hrest : rest[index]? = some e := he
    -- two entries with one label after the first would have its label
    have hroot : e.label = root.label := by
      cases first with
      | zero =>
          cases he'
          exact hsame.symm
      | succ first =>
          have hrest' : rest[first]? = some e' := he'
          obtain ⟨hlt₁, rfl⟩ := List.getElem?_eq_some_iff.mp hrest'
          obtain ⟨hlt₂, rfl⟩ := List.getElem?_eq_some_iff.mp hrest
          have hboth := List.pairwise_iff_getElem.mp hpair first index hlt₁ hlt₂
            (Nat.lt_of_succ_lt_succ hlt)
          rw [← hsame]
          exact hboth hsame
    refine ⟨congrArg some hroot.symm, e, he, ?_⟩
    intro hmain
    exact htables e (List.mem_of_getElem? hrest) hroot (Option.some.inj hmain).symm

end OffsetTable

/-! ## Indices that agree with the entries -/

section Lookup

variable {α : Type}

theorem lookup_map_pair (names : List String) (f : String → α) (key : String) :
    (names.map fun name => (name, f name)).lookup key =
      if key ∈ names then some (f key) else none := by
  induction names with
  | nil => rfl
  | cons name rest ih =>
      rw [List.map_cons, List.lookup_cons, ih]
      by_cases heq : key = name
      · simp [heq]
      · have hne : (key == name) = false := by simpa using heq
        simp only [hne, List.mem_cons, heq, false_or]

end Lookup

/-- A table with indices has the entries of a plain table, and its indices hold what these entries
determine. -/
structure IndexedTable.Mirrors (t : IndexedTable) (plain : OffsetTable) : Prop where
  entries_eq : t.entries = plain.entries
  rows_eq : t.rows = plain.rows
  indexOf?_eq : ∀ label, t.indexOf? label = plain.indexOf? label

namespace IndexedTable.Mirrors

variable {t : IndexedTable} {plain : OffsetTable}

theorem empty : Mirrors {} {} :=
  ⟨rfl, rfl, fun _ => rfl⟩

/-- An entry is added to both tables alike. -/
theorem add (h : t.Mirrors plain) (entry : OffsetEntry) :
    (t.add entry).Mirrors ⟨plain.entries ++ [entry]⟩ := by
  refine ⟨?_, ?_, fun label => ?_⟩
  · show t.entries ++ [entry] = plain.entries ++ [entry]
    rw [h.entries_eq]
  · show addPosition entry.table t.entries.length t.rows = _
    rw [OffsetTable.rows_concat, h.rows_eq, h.entries_eq]
  · show (insertNew entry.label t.entries.length t.firstIndex).lookup label = _
    rw [lookup_insertNew, OffsetTable.indexOf?_concat, ← h.indexOf?_eq, h.entries_eq]
    rfl

/-! ### Views -/

theorem labelAt?_eq (h : t.Mirrors plain) (index : Nat) :
    t.labelAt? index = plain.labelAt? index := by
  rw [labelAt?, OffsetTable.labelAt?, h.entries_eq]

theorem sharedRoot?_eq (h : t.Mirrors plain) : t.sharedRoot? = plain.sharedRoot? := by
  rw [sharedRoot?, OffsetTable.sharedRoot?, h.entries_eq]

theorem tableNames_eq (h : t.Mirrors plain) : t.tableNames = plain.tableNames := by
  rw [tableNames, h.rows_eq, OffsetTable.rows, List.map_map]
  exact List.map_id _

/-- The first row is that of the first entry. -/
theorem mainTable?_eq (h : t.Mirrors plain) : t.mainTable? = plain.mainTable? := by
  have hhead : t.mainTable? = plain.tableNames.head? := by
    rw [← h.tableNames_eq, mainTable?, tableNames, List.head?_map]
  rw [hhead, OffsetTable.tableNames, OffsetTable.mainTable?]
  cases plain.entries with
  | nil => rfl
  | cons root rest =>
      rw [List.map_cons, List.eraseDups_cons]
      rfl

/-- The labels of a table stand at its positions. -/
theorem filterMap_positionsOf (entries : List OffsetEntry) (table : String) :
    (OffsetTable.positionsOf ⟨entries⟩ table).filterMap (OffsetTable.labelAt? ⟨entries⟩) =
      OffsetTable.labelsOf ⟨entries⟩ table := by
  induction entries using List.reverseRecOn with
  | nil => rfl
  | append_singleton entries entry ih =>
      have hbefore : ∀ i ∈ OffsetTable.positionsOf ⟨entries⟩ table,
          OffsetTable.labelAt? ⟨entries ++ [entry]⟩ i = OffsetTable.labelAt? ⟨entries⟩ i := by
        intro i hi
        obtain ⟨e, he, -⟩ := OffsetTable.mem_positionsOf.mp hi
        have hlt := (List.getElem?_eq_some_iff.mp he).1
        rw [OffsetTable.labelAt?, OffsetTable.labelAt?, List.getElem?_append_left hlt]
      rw [OffsetTable.positionsOf_concat, List.filterMap_append, List.filterMap_congr hbefore, ih,
        OffsetTable.labelsOf, OffsetTable.labelsOf, List.filter_append, List.map_append]
      congr 1
      by_cases heq : table = entry.table
      · simp [heq, OffsetTable.labelAt?]
      · simp [heq, Ne.symm heq]

theorem labelsOf_eq (h : t.Mirrors plain) (table : String) :
    t.labelsOf table = plain.labelsOf table := by
  have hrow : (t.rows.lookup table).getD [] = plain.positionsOf table := by
    rw [h.rows_eq, OffsetTable.rows, lookup_map_pair]
    split
    · rfl
    · next hnot => exact (OffsetTable.positionsOf_eq_nil hnot).symm
  rw [labelsOf, hrow, ← filterMap_positionsOf]
  exact List.filterMap_congr fun i _ => h.labelAt?_eq i

end IndexedTable.Mirrors

/-! ## Pushes -/

namespace TableBuilder

/-- What a builder holds after some declarations were accepted: a table of them with its indices,
and each label where it was accepted first. They can be declared in order. -/
structure Built (accepted : List Declaration) (b : TableBuilder) : Prop where
  mirrors : b.table.Mirrors (.ofDeclarations accepted)
  declaredAt_eq : ∀ label,
    b.declaredAt.lookup label = (accepted.find? (·.label = label)).map (·.span)
  declarable : OffsetTable.Declarable (accepted.map (·.toOffsetEntry))

theorem built_start : Built [] {} :=
  ⟨IndexedTable.Mirrors.empty, fun _ => rfl, OffsetTable.declarable_nil⟩

section Built

variable {accepted : List Declaration} {b : TableBuilder}

/-- The builder makes the exception that plain declaring makes. -/
theorem Built.isRootAlias_eq (h : Built accepted b) (entry : OffsetEntry) :
    b.isRootAlias entry = OffsetTable.repeatsRoot accepted entry := by
  rw [isRootAlias, h.mirrors.mainTable?_eq, h.mirrors.sharedRoot?_eq]
  cases accepted with
  | nil => rfl
  | cons root rest =>
      show (decide (some root.table ≠ some entry.table) &&
        decide (some root.label = some entry.label)) = _
      rw [OffsetTable.repeatsRoot, Bool.and_comm]
      simp only [Option.some.injEq, ne_eq, eq_comm]

/-- Adding an accepted entry keeps all structures in agreement, if its label is noted. -/
theorem Built.add (h : Built accepted b) {new : Declaration} {declaredAt : List (String × Span)}
    (hadmits : OffsetTable.Admits (accepted.map (·.toOffsetEntry)) new.toOffsetEntry)
    (hnoted : ∀ label, declaredAt.lookup label =
      (b.declaredAt.lookup label).or (if label = new.label then some new.span else none)) :
    Built (accepted ++ [new]) (TableBuilder.add { b with declaredAt } new.toOffsetEntry) := by
  refine ⟨?_, fun label => ?_, ?_⟩
  · have hadded := h.mirrors.add new.toOffsetEntry
    rw [OffsetTable.ofDeclarations, List.map_append, List.map_singleton]
    exact hadded
  · show declaredAt.lookup label = _
    rw [hnoted, h.declaredAt_eq, List.find?_append]
    cases accepted.find? (·.label = label) with
    | some first => rfl
    | none =>
        by_cases heq : label = new.label
        · simp [heq]
        · simp [heq, Ne.symm heq]
  · rw [List.map_append, List.map_singleton, OffsetTable.declarable_concat_iff]
    exact ⟨h.declarable, hadmits⟩

/-- A push does what plain declaring does: it adds the entry to all structures, or gives the
same diagnostic and changes none. -/
theorem built_push (h : Built accepted b) (new : Declaration) :
    (∃ next, OffsetTable.declare accepted new = .ok (accepted ++ [new]) ∧
      b.push new = (.ok (), next) ∧ Built (accepted ++ [new]) next) ∨
    ∃ d, OffsetTable.declare accepted new = .error d ∧ b.push new = (.error d, b) := by
  cases hfind : accepted.find? (·.label = new.label) with
  | none =>
      have hlookup : b.declaredAt.lookup new.label = none := by rw [h.declaredAt_eq, hfind]; rfl
      have hdeclare : OffsetTable.declare accepted new = .ok (accepted ++ [new]) := by
        rw [OffsetTable.declare, hfind]
      refine Or.inl ⟨_, hdeclare, by rw [push, hlookup], ?_⟩
      exact h.add (OffsetTable.declare_eq_ok_iff.mp hdeclare).1 fun label =>
        lookup_insertNew new.label label new.span b.declaredAt
  | some first =>
      have hlookup : b.declaredAt.lookup new.label = some first.span := by
        rw [h.declaredAt_eq, hfind]
        rfl
      cases halias : OffsetTable.repeatsRoot accepted new.toOffsetEntry with
      | true =>
          have hdeclare : OffsetTable.declare accepted new = .ok (accepted ++ [new]) := by
            rw [OffsetTable.declare, hfind]
            simp only [halias, if_true]
          refine Or.inl ⟨b.add new.toOffsetEntry, hdeclare, ?_, ?_⟩
          · rw [push, hlookup]
            simp only [h.isRootAlias_eq, halias, if_true]
          · refine h.add (OffsetTable.declare_eq_ok_iff.mp hdeclare).1 fun label => ?_
            by_cases heq : label = new.label
            · rw [heq, hlookup, Option.some_or]
            · rw [if_neg heq, Option.or_none]
      | false =>
          refine Or.inr ⟨_, by rw [OffsetTable.declare, hfind]; simp only [halias]; rfl, ?_⟩
          rw [push, hlookup]
          simp only [h.isRootAlias_eq, halias]
          rfl

theorem Built.fst_push_eq (h : Built accepted b) (new : Declaration) :
    (b.push new).1 = (OffsetTable.declare accepted new).map fun _ => () := by
  rcases built_push h new with ⟨next, hdeclare, hpush, -⟩ | ⟨d, hdeclare, hpush⟩
  · rw [hdeclare, hpush]
    rfl
  · rw [hdeclare, hpush]
    rfl

/-- A refused push changes nothing. -/
theorem Built.push_of_error (h : Built accepted b) {new : Declaration} {d : Diagnostic}
    (hrefused : (b.push new).1 = .error d) : (b.push new).2 = b := by
  rcases built_push h new with ⟨next, -, hpush, -⟩ | ⟨d', -, hpush⟩
  · rw [hpush] at hrefused
    cases hrefused
  · rw [hpush]

/-- A push is accepted when the label is new, or when it is the first one of all and the table
is not the first one. -/
theorem Built.push_eq_ok_iff (h : Built accepted b) (new : Declaration) :
    (b.push new).1 = .ok () ↔ (∀ e ∈ accepted, e.label ≠ new.label) ∨
      ∃ root, accepted.head? = some root ∧ new.label = root.label ∧ new.table ≠ root.table := by
  have hadmits : OffsetTable.Admits (accepted.map (·.toOffsetEntry)) new.toOffsetEntry ↔
      (∀ e ∈ accepted, e.label ≠ new.label) ∨
        ∃ root, accepted.head? = some root ∧ new.label = root.label ∧ new.table ≠ root.table := by
    simp [OffsetTable.Admits, List.head?_map]
  rw [← hadmits, h.fst_push_eq]
  cases hdeclare : OffsetTable.declare accepted new with
  | ok next => exact iff_of_true rfl (OffsetTable.declare_eq_ok_iff.mp hdeclare).1
  | error d =>
      refine iff_of_false (fun hok => by cases hok) fun hadmitted => ?_
      rw [OffsetTable.declare_eq_ok_iff.mpr ⟨hadmitted, rfl⟩] at hdeclare
      cases hdeclare

/-- Any pushes keep all structures in agreement with the accepted entries. -/
theorem built_pushEach (h : Built accepted b) (calls : List Declaration) :
    Built (pushEach accepted b calls).1 (pushEach accepted b calls).2 := by
  induction calls generalizing accepted b with
  | nil => exact h
  | cons new rest ih =>
      rw [pushEach]
      rcases built_push h new with ⟨next, -, hpush, hnext⟩ | ⟨d, -, hpush⟩
      · rw [hpush]
        exact ih hnext
      · rw [hpush]
        exact ih h

end Built

end TableBuilder

/-- After any sequence of pushes, a push is accepted when its label is new, or when it is the
label of the first accepted entry and the table is another one; a refused push changes
nothing. This is what plain declaring accepts and refuses, with the same diagnostic. The
entries are the accepted ones in order, and the indices hold what these determine: the tables
in order of first appearance, with all positions divided among them in ascending rows, the
first position of each label, and the place of its first declaration. A position whose label
stands before it repeats the shared root, outside of the main table. -/
theorem indexed_of_pushEach {calls accepted : List Declaration} {b : TableBuilder}
    (h : TableBuilder.pushEach [] {} calls = (accepted, b)) :
    (∀ new, (b.push new).1 = .ok () ↔ (∀ e ∈ accepted, e.label ≠ new.label) ∨
      ∃ root, accepted.head? = some root ∧ new.label = root.label ∧ new.table ≠ root.table) ∧
    (∀ new d, (b.push new).1 = .error d → (b.push new).2 = b) ∧
    (∀ new, (b.push new).1 = (OffsetTable.declare accepted new).map fun _ => ()) ∧
    b.table.entries = accepted.map (·.toOffsetEntry) ∧
    (∀ label, b.declaredAt.lookup label = (accepted.find? (·.label = label)).map (·.span)) ∧
    b.table.tableNames = (accepted.map (·.table)).eraseDups ∧
    b.table.mainTable? = accepted.head?.map (·.table) ∧
    (∀ row ∈ b.table.rows, row.2.Pairwise (· < ·) ∧
      ∀ i, i ∈ row.2 ↔ ∃ e, b.table.entries[i]? = some e ∧ e.table = row.1) ∧
    (b.table.rows.flatMap (·.2)).Perm (List.range accepted.length) ∧
    (∀ label index, b.table.indexOf? label = some index ↔
      b.table.labelAt? index = some label ∧
        ∀ before < index, b.table.labelAt? before ≠ some label) ∧
    (∀ e ∈ accepted, ∃ index, b.table.indexOf? e.label = some index ∧
      b.table.labelAt? index = some e.label) ∧
    (∀ label first index, b.table.labelAt? index = some label →
      b.table.indexOf? label = some first → first < index →
      b.table.sharedRoot? = some label ∧
        ∃ e, b.table.entries[index]? = some e ∧ b.table.mainTable? ≠ some e.table) ∧
    b.table.Mirrors (.ofDeclarations accepted) := by
  have hbuilt : TableBuilder.Built accepted b := by
    have hall := TableBuilder.built_pushEach TableBuilder.built_start calls
    rw [h] at hall
    exact hall
  have hmirrors := hbuilt.mirrors
  have hindex : ∀ label index, b.table.indexOf? label = some index ↔
      b.table.labelAt? index = some label ∧
        ∀ before < index, b.table.labelAt? before ≠ some label := by
    intro label index
    simp only [hmirrors.indexOf?_eq, hmirrors.labelAt?_eq]
    exact indexOf?_eq_some_iff
  refine ⟨hbuilt.push_eq_ok_iff, fun _ _ => hbuilt.push_of_error, hbuilt.fst_push_eq,
    hmirrors.entries_eq, hbuilt.declaredAt_eq, ?_, ?_, ?_, ?_, hindex, fun e he => ?_, ?_, hmirrors⟩
  · rw [hmirrors.tableNames_eq, OffsetTable.tableNames, OffsetTable.ofDeclarations, List.map_map]
    rfl
  · rw [hmirrors.mainTable?_eq, OffsetTable.mainTable?, OffsetTable.ofDeclarations, List.head?_map,
      Option.map_map]
    rfl
  · intro row hrow
    rw [hmirrors.rows_eq] at hrow
    obtain ⟨table, -, rfl⟩ := List.mem_map.mp hrow
    rw [hmirrors.entries_eq]
    exact ⟨OffsetTable.pairwise_positionsOf _ table, fun i => OffsetTable.mem_positionsOf⟩
  · have hperm := OffsetTable.positions_rows_perm (.ofDeclarations accepted)
    rw [hmirrors.rows_eq]
    rwa [OffsetTable.size, OffsetTable.ofDeclarations, List.length_map] at hperm
  · rw [hmirrors.indexOf?_eq]
    obtain ⟨index, hfound⟩ := exists_indexOf?_iff.mpr
      ⟨e.toOffsetEntry, List.mem_map_of_mem (f := (·.toOffsetEntry)) he, rfl⟩
    exact ⟨index, hfound, (hmirrors.labelAt?_eq index).trans (labelAt?_of_indexOf? hfound)⟩
  · intro label first index hat hfirst hlt
    rw [hmirrors.labelAt?_eq] at hat
    rw [hmirrors.indexOf?_eq] at hfirst
    rw [hmirrors.sharedRoot?_eq, hmirrors.mainTable?_eq, hmirrors.entries_eq]
    exact OffsetTable.eq_root_of_indexOf?_lt hbuilt.declarable hfirst hat hlt

/-- A table that repeats its root, with three refused pushes among the accepted ones. -/
theorem indexed_of_refused_pushes :
    ∃ (b : TableBuilder) (accepted : List Declaration),
      TableBuilder.pushEach [] {}
        [⟨⟨"R", "M"⟩, ⟨0, 3⟩⟩, ⟨⟨"R", "M"⟩, ⟨4, 7⟩⟩, ⟨⟨"A", "N"⟩, ⟨8, 11⟩⟩, ⟨⟨"R", "N"⟩, ⟨12, 15⟩⟩,
          ⟨⟨"A", "M"⟩, ⟨16, 19⟩⟩, ⟨⟨"B", "M"⟩, ⟨20, 23⟩⟩, ⟨⟨"B", "B"⟩, ⟨24, 27⟩⟩] = (accepted, b) ∧
      accepted = [⟨⟨"R", "M"⟩, ⟨0, 3⟩⟩, ⟨⟨"A", "N"⟩, ⟨8, 11⟩⟩, ⟨⟨"R", "N"⟩, ⟨12, 15⟩⟩,
        ⟨⟨"B", "M"⟩, ⟨20, 23⟩⟩] ∧
      b.table.rows = [("M", [0, 3]), ("N", [1, 2])] ∧
      b.table.tableNames = (accepted.map (·.table)).eraseDups := by
  have h : TableBuilder.pushEach [] {}
      [⟨⟨"R", "M"⟩, ⟨0, 3⟩⟩, ⟨⟨"R", "M"⟩, ⟨4, 7⟩⟩, ⟨⟨"A", "N"⟩, ⟨8, 11⟩⟩, ⟨⟨"R", "N"⟩, ⟨12, 15⟩⟩,
        ⟨⟨"A", "M"⟩, ⟨16, 19⟩⟩, ⟨⟨"B", "M"⟩, ⟨20, 23⟩⟩, ⟨⟨"B", "B"⟩, ⟨24, 27⟩⟩] =
      ([⟨⟨"R", "M"⟩, ⟨0, 3⟩⟩, ⟨⟨"A", "N"⟩, ⟨8, 11⟩⟩, ⟨⟨"R", "N"⟩, ⟨12, 15⟩⟩,
        ⟨⟨"B", "M"⟩, ⟨20, 23⟩⟩],
        ⟨⟨[⟨"R", "M"⟩, ⟨"A", "N"⟩, ⟨"R", "N"⟩, ⟨"B", "M"⟩], [("M", [0, 3]), ("N", [1, 2])],
          [("R", 0), ("A", 1), ("B", 3)]⟩, [("R", ⟨0, 3⟩), ("A", ⟨8, 11⟩), ("B", ⟨20, 23⟩)]⟩) := by
    decide
  obtain ⟨-, -, -, -, -, hnames, -⟩ := indexed_of_pushEach h
  exact ⟨_, _, h, rfl, rfl, hnames⟩

end SpriteTables
