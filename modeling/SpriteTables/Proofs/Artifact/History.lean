import SpriteTables.Proofs.Artifact.Stepwise

/-!
# What the lines read so far have come to

After any lines a draft is in one of two states (`Reaches.inTables_or_among`). Until a label
switches to the records it holds the entries that these lines declare and has bound nothing
(`InTables`). From then on it holds the entries from before the switch (`Among`), and every label
names, or waits for, the record below its first line since the switch. `placeOf?` is that line and
that record, told the lines to come; reading one of these does not change the answer
(`placeOf?_of_read`). This module carries both descriptions over every line.
-/

set_option autoImplicit false

namespace SpriteTables

open Text (Span Line)

namespace Draft

variable {entrySize : Nat} {d next : Draft} {verdict : Verdict} {line : Line}
  {before done rest : List Line} {label : Label} {name : String}

/-! ## Line by line -/

/-- Some lines, read one by one from the start, lead to a draft and a verdict. -/
inductive Reaches (entrySize : Nat) : List Line → Draft → Verdict → Prop where
  | start : Reaches entrySize [] { entrySize } .reading
  | line {done : List Line} {d next : Draft} {verdict : Verdict} {line : Line} :
      Reaches entrySize done d .reading → d.read line = (next, verdict) →
        Reaches entrySize (done ++ [line]) next verdict

section Runs

/-- Running over more lines reaches what the run delivers, after all of them if it is still
reading. -/
theorem Reaches.exists_of_run (h : Reaches entrySize done d .reading) {lines : List Line}
    (hrun : d.run lines = (next, verdict)) :
    ∃ front back, lines = front ++ back ∧ Reaches entrySize (done ++ front) next verdict ∧
      (verdict = .reading → back = []) := by
  induction lines generalizing done d with
  | nil =>
      cases hrun
      refine ⟨[], [], rfl, ?_, fun _ => rfl⟩
      rw [List.append_nil]
      exact h
  | cons line rest ih =>
      rw [run] at hrun
      generalize hread : d.read line = outcome at hrun
      obtain ⟨after, verdict'⟩ := outcome
      have hstep := h.line hread
      cases verdict' with
      | reading =>
          obtain ⟨front, back, rfl, hreaches, hback⟩ := ih hstep hrun
          refine ⟨line :: front, back, rfl, ?_, hback⟩
          rw [List.append_cons]
          exact hreaches
      | ended =>
          cases hrun
          exact ⟨[line], rest, rfl, hstep, by simp⟩
      | failed e =>
          cases hrun
          exact ⟨[line], rest, rfl, hstep, by simp⟩

theorem exists_reaches_of_run {lines : List Line}
    (hrun : Draft.run { entrySize } lines = (d, verdict)) :
    ∃ front back, lines = front ++ back ∧ Reaches entrySize front d verdict ∧
      (verdict = .reading → back = []) :=
  Reaches.start.exists_of_run hrun

theorem reaches_of_run (hrun : Draft.run { entrySize } done = (d, .reading)) :
    Reaches entrySize done d .reading := by
  obtain ⟨front, back, rfl, hreaches, hback⟩ := exists_reaches_of_run hrun
  rw [hback rfl, List.append_nil]
  exact hreaches

end Runs

/-! ## Among the tables -/

/-- While the tables are read, a draft holds the entries that the lines before declare: every
operand so far has declared one, and there are no others. It has bound no label, begun no record
and remarked nothing. -/
structure InTables (entrySize : Nat) (before : List Line) (d : Draft) : Prop where
  entrySize_eq : d.entrySize = entrySize
  mode_eq : d.mode = .table
  declared_eq : (operandsOf before).map declarationOf? = d.declared.map some
  bindings_eq : d.bindings = []
  underway_eq : d.underway = none
  log_eq : d.log = []

theorem inTables_start (entrySize : Nat) : InTables entrySize [] { entrySize } :=
  ⟨rfl, rfl, rfl, rfl, rfl, rfl⟩

section Tables

/-- A label refers back when the draft has an entry that refers to it. -/
theorem InTables.refersTo_iff (h : d.InTables entrySize before) :
    d.refersTo name = true ↔ ∃ e ∈ declarationsOf before, e.label = name := by
  rw [declarationsOf, filterMap_declarationOf? h.declared_eq, refersTo, List.any_eq_true]
  simp only [decide_eq_true_eq]

/-- A line that does not switch leaves the draft among the tables. -/
theorem inTables_read (h : d.InTables entrySize before) (hclear : ¬ RefersBack before line)
    (hread : d.read line = (next, verdict))
    (hverdict : ∀ e, verdict ≠ .failed e) : next.InTables entrySize (before ++ [line]) := by
  have hwaits : ∀ label, labelOf? line = some label → d.refersTo label.name = false := by
    intro label hlabel
    rw [Bool.eq_false_iff]
    intro hrefers
    exact hclear ⟨label, hlabel, h.refersTo_iff.mp hrefers⟩
  obtain ⟨news, pending, hnews, rfl⟩ :=
    read_of_tables h.mode_eq h.underway_eq hwaits hread hverdict
  refine { h with declared_eq := ?_ }
  simp only [operandsOf_append, operandsOf_cons, operandsOf_nil, List.append_nil, List.map_append,
    h.declared_eq, hnews]

end Tables

/-! ## Where labels were declared first -/

/-- Where a label was declared first since the switch, and the record it names: the one it
is bound to, the one it waits for, or the one below a line to come. -/
def placeOf? (d : Draft) (lines : List Line) (name : String) : Option (Span × Option Record) :=
  match bindingOf? d.bindings name with
  | some binding => some (binding.first, some binding.record)
  | none =>
      match d.pending.find? (·.name = name) with
      | some label => some (label.span, d.awaits lines)
      | none => firstPlace? d.entrySize name lines

section Places

theorem placeOf?_of_bound {lines : List Line} {binding : Binding}
    (h : bindingOf? d.bindings name = some binding) :
    d.placeOf? lines name = some (binding.first, some binding.record) := by
  rw [placeOf?, h]

theorem placeOf?_of_pending {lines : List Line} (h : bindingOf? d.bindings name = none)
    (hlabel : d.pending.find? (·.name = name) = some label) :
    d.placeOf? lines name = some (label.span, d.awaits lines) := by
  rw [placeOf?, h, hlabel]

theorem placeOf?_of_unseen {lines : List Line} (h : bindingOf? d.bindings name = none)
    (hlabel : d.pending.find? (·.name = name) = none) :
    d.placeOf? lines name = firstPlace? d.entrySize name lines := by
  rw [placeOf?, h, hlabel]

/-- Binding a label adds it behind the labels that are bound. -/
theorem bindingOf?_bindLabel (record : Record) (bindings : List Binding) (label : Label)
    (name : String) :
    bindingOf? (bindLabel record bindings label) name =
      (bindingOf? bindings name).or
        (if label.name = name then some ⟨name, label.span, record⟩ else none) := by
  rw [bindLabel]
  split
  · rw [bindingOf?, List.find?_append, ← bindingOf?]
    congr 1
    by_cases hname : label.name = name
    · simp [hname]
    · simp [hname]
  · next binding hbound =>
      by_cases hname : label.name = name
      · rw [← hname, hbound, Option.some_or]
      · rw [if_neg hname, Option.or_none]

/-- Among the labels of a record the first one of a name is bound, unless the name was bound
before. -/
theorem bindingOf?_bindAll (record : Record) (bindings : List Binding) (labels : List Label)
    (name : String) :
    bindingOf? (bindAll bindings record labels) name =
      (bindingOf? bindings name).or
        ((labels.find? (·.name = name)).map fun label => ⟨name, label.span, record⟩) := by
  induction labels generalizing bindings with
  | nil => simp [bindAll]
  | cons label rest ih =>
      have hstep : bindAll bindings record (label :: rest) =
          bindAll (bindLabel record bindings label) record rest := rfl
      rw [hstep, ih, bindingOf?_bindLabel, Option.or_assoc]
      congr 1
      by_cases hname : label.name = name
      · simp [hname]
      · simp [hname]

/-- A label on the next line waits behind those that wait already. -/
theorem placeOf?_cons (hlabel : ∀ label, labelOf? line = some label → d.underway = none)
    (h : bindingOf? d.bindings name = none) :
    d.placeOf? (line :: rest) name =
      match (d.waiting line).find? (·.name = name) with
      | some label => some (label.span, d.awaits (line :: rest))
      | none => firstPlace? d.entrySize name rest := by
  rw [waiting, List.find?_append]
  cases hpending : d.pending.find? (·.name = name) with
  | some label =>
      rw [placeOf?_of_pending h hpending]
      rfl
  | none =>
      rw [placeOf?_of_unseen h hpending]
      cases hline : labelOf? line with
      | none =>
          rw [firstPlace?_cons_of_none hline]
          rfl
      | some label =>
          rw [firstPlace?_cons_of_some hline, awaits_of_none (hlabel label hline)]
          by_cases hname : label.name = name
          · simp [hname]
          · simp [hname]

/-- A line that completes no record changes no label's first place. -/
theorem placeOf?_of_waits (hlabel : ∀ label, labelOf? line = some label → d.underway = none)
    {underway : Option (Span × Reading)}
    (hnext : next = { d with pending := d.waiting line, underway })
    (hawaits : d.awaits (line :: rest) = next.awaits rest) (name : String) :
    next.placeOf? rest name = d.placeOf? (line :: rest) name := by
  subst hnext
  cases hbound : bindingOf? d.bindings name with
  | some binding => simp only [placeOf?, hbound]
  | none =>
      rw [placeOf?_cons hlabel hbound, hawaits]
      simp only [placeOf?, hbound]

/-- Reading a line among the records changes no label's first place, and neither does the
line that ends the artifact, after which there are no lines. -/
theorem placeOf?_of_read (hmode : d.mode = .data) (hread : d.read line = (next, verdict))
    (hrest : verdict = .reading ∨ verdict = .ended ∧ rest = []) (name : String) :
    next.placeOf? rest name = d.placeOf? (line :: rest) name := by
  rcases hrest with rfl | ⟨rfl, rfl⟩
  · obtain ⟨hlabel, hstep⟩ := read_of_records hmode hread
    rcases hstep with ⟨underway, rfl, hawaits⟩ | ⟨record, -, -, rfl, hawaits⟩
    · -- the labels go on waiting for the same record
      exact placeOf?_of_waits hlabel rfl (hawaits rest) name
    · -- they are bound to the record that they waited for
      cases hbound : bindingOf? d.bindings name with
      | some binding => simp only [placeOf?, bindingOf?_bindAll, hbound, Option.some_or]
      | none =>
          rw [placeOf?_cons hlabel hbound, hawaits, placeOf?]
          simp only [bindingOf?_bindAll, hbound, Option.none_or]
          cases (d.waiting line).find? (·.name = name) with
          | some label => rfl
          | none => rfl
  · obtain ⟨s, hstatement, hbody, hunderway, rfl⟩ := read_eq_ended hread
    rw [labelled_of_records hmode, ← labelOf?_of_ofLine hstatement]
    apply placeOf?_of_waits (fun _ _ => hunderway) rfl
    rw [awaits_nil, awaits_of_none hunderway, recordBelow?, hstatement]
    simp only [hbody]

/-- Once all lines are read, just the bound labels name a record. -/
theorem placeOf?_nil_eq_some_iff {span : Span} {record : Record} :
    d.placeOf? [] name = some (span, some record) ↔
      ∃ binding, bindingOf? d.bindings name = some binding ∧ binding.first = span ∧
        binding.record = record := by
  cases hbound : bindingOf? d.bindings name with
  | some binding => simp [placeOf?_of_bound hbound]
  | none =>
      simp only [reduceCtorEq, false_and, exists_false, iff_false]
      intro hplace
      cases hpending : d.pending.find? (·.name = name) with
      | some label =>
          rw [placeOf?_of_pending hbound hpending, awaits_nil] at hplace
          cases hplace
      | none =>
          rw [placeOf?_of_unseen hbound hpending] at hplace
          cases hplace

end Places

/-! ## Among the records -/

/-- While the records are read, a draft holds the entries from before the switch, each declared by
an operand there. The switch has been remarked and nothing else. -/
structure Among (entrySize : Nat) (before : List Line) (label : Label) (d : Draft) : Prop where
  entrySize_eq : d.entrySize = entrySize
  mode_eq : d.mode = .data
  declared_eq : (operandsOf before).map declarationOf? = d.declared.map some
  log_eq : d.log = [.switchedToData label.name]

section Records

/-- The line that switches is read as the first one among the records, when no label is
bound and none waits. -/
theorem among_switched (h : d.InTables entrySize before) (hlabel : labelOf? line = some label)
    (hrefers : ∃ e ∈ declarationsOf before, e.label = label.name) :
    d.read line = (d.switched label).read line ∧
      (d.switched label).Among entrySize before label ∧
      ∀ name rest, (d.switched label).placeOf? rest name = firstPlace? entrySize name rest := by
  refine ⟨read_of_switch h.mode_eq h.underway_eq hlabel (h.refersTo_iff.mpr hrefers), ?_, ?_⟩
  · refine ⟨h.entrySize_eq, rfl, h.declared_eq, ?_⟩
    rw [switched, h.log_eq]
    rfl
  · intro name rest
    have hbound : bindingOf? (d.switched label).bindings name = none := by
      rw [switched, h.bindings_eq]
      rfl
    rw [placeOf?_of_unseen hbound rfl, ← h.entrySize_eq]
    rfl

/-- A line leaves the draft among the records. -/
theorem among_read (h : d.Among entrySize before label) (hread : d.read line = (next, verdict))
    (hverdict : ∀ e, verdict ≠ .failed e) : next.Among entrySize before label := by
  cases verdict with
  | failed e => exact absurd rfl (hverdict e)
  | ended =>
      obtain ⟨s, -, -, -, rfl⟩ := read_eq_ended hread
      rw [labelled_of_records h.mode_eq]
      exact { h with }
  | reading =>
      rcases (read_of_records h.mode_eq hread).2 with ⟨underway, rfl, -⟩ | ⟨record, -, -, rfl, -⟩
      · exact { h with }
      · exact { h with }

end Records

/-! ## Any lines -/

/-- A draft that some lines lead to is among the tables if no line switched. Otherwise it is
among the records, and labels were declared first where the lines since the switch say so. -/
theorem Reaches.inTables_or_among (h : Reaches entrySize done d verdict)
    (hverdict : ∀ e, verdict ≠ .failed e) :
    (StayInTables done ∧ d.InTables entrySize done) ∨
    ∃ before line after label, done = before ++ line :: after ∧ Switches before line ∧
      labelOf? line = some label ∧ d.Among entrySize before label ∧
      ∀ name rest, verdict = .reading ∨ rest = [] →
        d.placeOf? rest name = firstPlace? entrySize name (line :: after ++ rest) := by
  induction h with
  | start => exact Or.inl ⟨stayInTables_nil, inTables_start entrySize⟩
  | @line done d next verdict last hdone hread ih =>
      have hrest : ∀ rest : List Line, verdict = .reading ∨ rest = [] →
          verdict = .reading ∨ verdict = .ended ∧ rest = [] := by
        intro rest hor
        cases verdict with
        | reading => exact Or.inl rfl
        | ended => simpa using hor
        | failed e => exact absurd rfl (hverdict e)
      rcases ih (by simp) with ⟨hstay, htables⟩ | ⟨before, line, after, label, rfl, hswitches,
        hlabel, hamong, hplaces⟩
      · by_cases hlast : RefersBack done last
        · obtain ⟨label, hlabel, hrefers⟩ := hlast
          obtain ⟨hsame, hamong, hplaces⟩ := among_switched htables hlabel hrefers
          rw [hsame] at hread
          refine Or.inr ⟨done, last, [], label, rfl, ⟨hstay, label, hlabel, hrefers⟩, hlabel,
            among_read hamong hread hverdict, ?_⟩
          intro name rest hor
          rw [placeOf?_of_read rfl hread (hrest rest hor), hplaces]
          rfl
        · exact Or.inl ⟨stayInTables_concat_iff.mpr ⟨hstay, hlast⟩,
            inTables_read htables hlast hread hverdict⟩
      · refine Or.inr ⟨before, line, after ++ [last], label, by simp, hswitches, hlabel,
          among_read hamong hread hverdict, ?_⟩
        intro name rest hor
        rw [placeOf?_of_read hamong.mode_eq hread (hrest rest hor), hplaces name _ (Or.inl rfl)]
        simp

end Draft

end SpriteTables
