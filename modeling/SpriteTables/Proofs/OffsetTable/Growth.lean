import SpriteTables.OffsetTable

/-!
# How an offset table grows

An entry may be declared when its label is new, or when it repeats the very first label in another
table (`declare_eq_ok_iff`). Which lists of entries are `Declarable` one after the other is a
property of the entries alone (`declarable_cons_iff`), and apart from the first entry their order
does not matter (`Declarable.of_perm`).
-/

set_option autoImplicit false

namespace SpriteTables.OffsetTable

/-- An entry may follow some entries: its label is new, or it is the first label
of all in a table other than the first. -/
def Admits (entries : List OffsetEntry) (new : OffsetEntry) : Prop :=
  (∀ e ∈ entries, e.label ≠ new.label) ∨
    ∃ root, entries.head? = some root ∧ new.label = root.label ∧ new.table ≠ root.table

/-- Declaring an entry succeeds exactly when it may follow the entries before. -/
theorem declare_eq_ok_iff {declared next : List Declaration} {new : Declaration} :
    declare declared new = .ok next ↔
      Admits (declared.map (·.toOffsetEntry)) new.toOffsetEntry ∧ next = declared ++ [new] := by
  -- what declaring makes an exception of, in terms of the entries alone
  have hroot : repeatsRoot declared new.toOffsetEntry = true ↔
      ∃ root, (declared.map (·.toOffsetEntry)).head? = some root ∧
        new.label = root.label ∧ new.table ≠ root.table := by
    cases declared with
    | nil => simp [repeatsRoot]
    | cons root rest => simp [repeatsRoot]
  rw [declare]
  split
  · next hfind =>
      have hnew : ∀ e ∈ declared.map (·.toOffsetEntry), e.label ≠ new.label := by
        intro e he
        obtain ⟨first, hfirst, rfl⟩ := List.mem_map.mp he
        simpa using List.find?_eq_none.mp hfind first hfirst
      constructor
      · intro h
        cases h
        exact ⟨Or.inl hnew, rfl⟩
      · rintro ⟨-, rfl⟩
        rfl
  · next first hfind =>
      split
      · next hrepeats =>
          constructor
          · intro h
            cases h
            exact ⟨Or.inr (hroot.mp hrepeats), rfl⟩
          · rintro ⟨-, rfl⟩
            rfl
      · next hrepeats =>
          constructor
          · intro h
            cases h
          · rintro ⟨hnew | hagain, -⟩
            · -- the entry found has the label that no entry has
              have hmem : first.toOffsetEntry ∈ declared.map (·.toOffsetEntry) :=
                List.mem_map_of_mem (List.mem_of_find?_eq_some hfind)
              have hlabel : first.label = new.label := by simpa using List.find?_some hfind
              exact absurd hlabel (hnew _ hmem)
            · exact absurd (hroot.mpr hagain) hrepeats

/-! ## Entries in order -/

/-- Declares some entries one after the other. -/
def declareAll (declared : List Declaration) :
    List Declaration → Except Diagnostic (List Declaration)
  | [] => .ok declared
  | new :: rest =>
      match declare declared new with
      | .error e => .error e
      | .ok next => declareAll next rest

/-- Some entries can be declared in order, wherever their operands stand. -/
def Declarable (entries : List OffsetEntry) : Prop :=
  ∃ declared : List Declaration,
    declared.map (·.toOffsetEntry) = entries ∧ declareAll [] declared = .ok declared

/-- Each of some entries may follow those before it. -/
def AdmitsAll (entries : List OffsetEntry) : List OffsetEntry → Prop
  | [] => True
  | new :: rest => Admits entries new ∧ AdmitsAll (entries ++ [new]) rest

theorem admitsAll_append_iff {entries xs ys : List OffsetEntry} :
    AdmitsAll entries (xs ++ ys) ↔ AdmitsAll entries xs ∧ AdmitsAll (entries ++ xs) ys := by
  induction xs generalizing entries with
  | nil => simp [AdmitsAll]
  | cons x xs ih =>
      rw [List.cons_append, AdmitsAll, AdmitsAll, ih, List.append_cons entries x xs, and_assoc]

/-- Declaring in order succeeds exactly when each entry may follow those before
it, and then loses and adds nothing. -/
theorem declareAll_eq_ok_iff {declared news next : List Declaration} :
    declareAll declared news = .ok next ↔
      AdmitsAll (declared.map (·.toOffsetEntry)) (news.map (·.toOffsetEntry)) ∧
        next = declared ++ news := by
  induction news generalizing declared with
  | nil =>
      constructor
      · intro h
        cases h
        exact ⟨trivial, (List.append_nil _).symm⟩
      · rintro ⟨-, rfl⟩
        rw [List.append_nil]
        rfl
  | cons new rest ih =>
      rw [declareAll, List.map_cons, AdmitsAll]
      split
      · next e hdeclare =>
          constructor
          · intro h
            cases h
          · rintro ⟨⟨hadmits, -⟩, -⟩
            rw [declare_eq_ok_iff.mpr ⟨hadmits, rfl⟩] at hdeclare
            cases hdeclare
      · next hdeclare =>
          obtain ⟨hadmits, rfl⟩ := declare_eq_ok_iff.mp hdeclare
          rw [ih, List.map_append, List.append_assoc]
          exact ⟨fun ⟨hall, hnext⟩ => ⟨⟨hadmits, hall⟩, hnext⟩,
            fun ⟨⟨_, hall⟩, hnext⟩ => ⟨hall, hnext⟩⟩

/-- Whether entries can be declared does not depend on where their operands
stand. -/
theorem declarable_iff {entries : List OffsetEntry} :
    Declarable entries ↔ AdmitsAll [] entries := by
  constructor
  · rintro ⟨declared, rfl, h⟩
    exact (declareAll_eq_ok_iff.mp h).1
  · intro h
    have hback : (entries.map fun e => Declaration.mk e default).map (·.toOffsetEntry) =
        entries := by
      rw [List.map_map]
      exact List.map_id _
    refine ⟨entries.map fun e => ⟨e, default⟩, hback, declareAll_eq_ok_iff.mpr ⟨?_, rfl⟩⟩
    rw [hback]
    exact h

theorem declarable_nil : Declarable [] :=
  declarable_iff.mpr trivial

/-- One more entry can be declared exactly when it may follow the others. -/
theorem declarable_concat_iff {entries : List OffsetEntry} {new : OffsetEntry} :
    Declarable (entries ++ [new]) ↔ Declarable entries ∧ Admits entries new := by
  rw [declarable_iff, declarable_iff, admitsAll_append_iff, List.nil_append]
  exact ⟨fun ⟨hall, hnew, _⟩ => ⟨hall, hnew⟩, fun ⟨hall, hnew⟩ => ⟨hall, hnew, trivial⟩⟩

/-! ## Entries in any order -/

theorem admitsAll_cons_iff {root : OffsetEntry} {done rest : List OffsetEntry} :
    AdmitsAll (root :: done) rest ↔
      (∀ e ∈ rest, e.label = root.label → e.table ≠ root.table) ∧
      (∀ e ∈ done, ∀ e' ∈ rest, e.label = e'.label → e.label = root.label) ∧
      rest.Pairwise (fun e e' => e.label = e'.label → e.label = root.label) := by
  induction rest generalizing done with
  | nil => simp [AdmitsAll]
  | cons new rest ih =>
      have hadmits : Admits (root :: done) new ↔
          (new.label = root.label → new.table ≠ root.table) ∧
            ∀ e ∈ done, e.label = new.label → e.label = root.label := by
        -- the first label may come again, any other label must be new
        by_cases h : new.label = root.label
        · simp [Admits, h]
        · simp only [Admits, List.forall_mem_cons, List.head?_cons, Option.some.injEq]
          constructor
          · rintro (⟨-, hnew⟩ | ⟨_, rfl, hlabel, -⟩)
            · exact ⟨fun hlabel => absurd hlabel h, fun e he hsame => absurd hsame (hnew e he)⟩
            · exact absurd hlabel h
          · rintro ⟨-, hdone⟩
            refine Or.inl ⟨Ne.symm h, fun e he hsame => h ?_⟩
            rw [← hsame]
            exact hdone e he hsame
      rw [AdmitsAll, List.cons_append, ih, hadmits, List.forall_mem_cons, List.pairwise_cons]
      constructor
      · rintro ⟨⟨htable, hdone⟩, htables, hpast, hpair⟩
        refine ⟨⟨htable, htables⟩, fun e he => ?_, fun e' he' => ?_, hpair⟩
        · exact List.forall_mem_cons.mpr
            ⟨hdone e he, hpast e (List.mem_append_left _ he)⟩
        · exact hpast new (List.mem_append_right _ List.mem_cons_self) e' he'
      · rintro ⟨⟨htable, htables⟩, hpast, hnew, hpair⟩
        refine ⟨⟨htable, fun e he => hpast e he new List.mem_cons_self⟩, htables, ?_, hpair⟩
        intro e he e' he'
        rcases List.mem_append.mp he with he | he
        · exact hpast e he e' (List.mem_cons_of_mem _ he')
        · rw [List.mem_singleton.mp he]
          exact hnew e' he'

/-- Entries after a first one can be declared exactly when those that repeat its
label stand in other tables and no two others share a label. -/
theorem declarable_cons_iff {root : OffsetEntry} {rest : List OffsetEntry} :
    Declarable (root :: rest) ↔
      (∀ e ∈ rest, e.label = root.label → e.table ≠ root.table) ∧
        rest.Pairwise (fun e e' => e.label = e'.label → e.label = root.label) := by
  have hroot : Admits [] root := Or.inl fun e he => absurd he List.not_mem_nil
  rw [declarable_iff, AdmitsAll, List.nil_append, admitsAll_cons_iff]
  simp [hroot]

/-- The entries after the first one may be rearranged. -/
theorem Declarable.of_perm {root : OffsetEntry} {rest rest' : List OffsetEntry}
    (h : Declarable (root :: rest)) (hperm : rest.Perm rest') : Declarable (root :: rest') := by
  rw [declarable_cons_iff] at h ⊢
  obtain ⟨htables, hpair⟩ := h
  refine ⟨fun e he => htables e (hperm.mem_iff.mpr he), ?_⟩
  refine (hperm.pairwise_iff fun hsame heq => ?_).mp hpair
  rw [heq]
  exact hsame heq.symm

end SpriteTables.OffsetTable
