import SpriteTables.Proofs.Artifact.Gathering
import SpriteTables.Proofs.Artifact.Lines

/-!
# Blocks of records

The records of a written artifact stand in blocks, labels above words. Blocks may repeat labels
and records; reading them succeeds as long as no label stands above two different records, and
fails at the first label that does (`run_blocks`). What a draft holds between two blocks is the
invariant `Draft.Reads`, which one more block carries on (`run_block`) or breaks
(`run_block_of_clash`).
-/

set_option autoImplicit false

namespace SpriteTables

open Text (Line)

/-! ## Blocks -/

/-- Labels above a record whose payload is written in some width. -/
structure Block where
  width : Width
  labels : List String
  record : Record

/-- The lines of a block. -/
def Block.lines (b : Block) : List String :=
  Listing.recordLines b.width b.labels b.record

/-- A block has labels, all of them identifiers, and a record of the announced length. -/
structure Block.WellFormed (entrySize : Nat) (b : Block) : Prop where
  labels_ne_nil : b.labels ≠ []
  label_names : ∀ label ∈ b.labels, isIdentifier label.toList = true
  fits : b.record.Fits entrySize

/-- No label stands above two different records. -/
def Consistent (blocks : List Block) : Prop :=
  ∀ b ∈ blocks, ∀ b' ∈ blocks, ∀ label ∈ b.labels, label ∈ b'.labels → b.record = b'.record

/-- A label stands above another record in one of some blocks. -/
def Clashes (blocks : List Block) (record : Record) (label : String) : Prop :=
  ∃ b ∈ blocks, label ∈ b.labels ∧ b.record ≠ record

/-- A label is, in the order of the text, the first one that an earlier block has
above a different record. -/
def FirstClash (blocks : List Block) (label : String) : Prop :=
  ∃ before b after front back, blocks = before ++ b :: after ∧
    b.labels = front ++ label :: back ∧ Consistent before ∧ Clashes before b.record label ∧
    ∀ l ∈ front, ¬ Clashes before b.record l

theorem consistent_nil : Consistent [] :=
  fun _ h => absurd h List.not_mem_nil

theorem consistent_concat_iff {blocks : List Block} {b : Block} :
    Consistent (blocks ++ [b]) ↔
      Consistent blocks ∧ ∀ label ∈ b.labels, ¬ Clashes blocks b.record label := by
  constructor
  · intro h
    refine ⟨fun x hx y hy => h x (List.mem_append_left _ hx) y (List.mem_append_left _ hy), ?_⟩
    rintro label hlabel ⟨x, hx, hlx, hne⟩
    exact hne (h x (List.mem_append_left _ hx) b (List.mem_append_right _ List.mem_cons_self)
      label hlx hlabel)
  · rintro ⟨hblocks, hb⟩ x hx y hy label hlx hly
    have hagree : ∀ z ∈ blocks, label ∈ z.labels → label ∈ b.labels → z.record = b.record :=
      fun z hz hlz hlb => Classical.not_not.mp fun hne => hb label hlb ⟨z, hz, hlz, hne⟩
    rcases List.mem_append.mp hx with hxold | hxnew
    · rcases List.mem_append.mp hy with hyold | hynew
      · exact hblocks x hxold y hyold label hlx hly
      · rw [List.mem_singleton.mp hynew] at hly ⊢
        exact hagree x hxold hlx hly
    · rw [List.mem_singleton.mp hxnew] at hlx ⊢
      rcases List.mem_append.mp hy with hyold | hynew
      · exact (hagree y hyold hly hlx).symm
      · rw [List.mem_singleton.mp hynew]

theorem Consistent.of_append {blocks more : List Block} (h : Consistent (blocks ++ more)) :
    Consistent blocks :=
  fun x hx y hy => h x (List.mem_append_left _ hx) y (List.mem_append_left _ hy)

/-- Blocks with a clash are not consistent. -/
theorem FirstClash.not_consistent {blocks : List Block} {label : String}
    (h : FirstClash blocks label) : ¬ Consistent blocks := by
  obtain ⟨before, b, after, front, back, rfl, hlabels, -, hclash, -⟩ := h
  intro hconsistent
  rw [List.append_cons] at hconsistent
  have hlabel : label ∈ b.labels := by
    rw [hlabels]
    exact List.mem_append_right _ List.mem_cons_self
  exact (consistent_concat_iff.mp hconsistent.of_append).2 label hlabel hclash

/-! ## Drafts that have read some blocks -/

/-- A draft between two blocks has bound exactly the labels of some blocks, and the records
appeared in the order of the blocks. No record is being read, and a label names at most one
record, the one below it. -/
structure Draft.Reads (d : Draft) (blocks : List Block) : Prop where
  underway_eq : d.underway = none
  functional : Functional d.bindings
  binds_iff : ∀ label record, Binds d.bindings label record ↔
    ∃ b ∈ blocks, b.record = record ∧ label ∈ b.labels
  eraseDups_eq : (d.bindings.map (·.record)).eraseDups = (blocks.map (·.record)).eraseDups

namespace Draft

section Reads

variable {d : Draft} {blocks : List Block}

theorem reads_nil (hunderway : d.underway = none) (hbindings : d.bindings = []) :
    d.Reads [] where
  underway_eq := hunderway
  functional _ _ _ h := by
    obtain ⟨b, hb, -⟩ := h
    rw [hbindings] at hb
    cases hb
  binds_iff label record := by simp [Binds, hbindings]
  eraseDups_eq := by rw [hbindings]; rfl

theorem Reads.agrees_iff (h : d.Reads blocks) {record : Record} {label : String} :
    Agrees d.bindings record label ↔ ¬ Clashes blocks record label := by
  constructor
  · rintro hagrees ⟨b, hb, hlabel, hne⟩
    exact hne (hagrees _ ((h.binds_iff _ _).mpr ⟨b, hb, rfl, hlabel⟩))
  · intro hclash r hr
    obtain ⟨b, hb, rfl, hlabel⟩ := (h.binds_iff _ _).mp hr
    exact Classical.not_not.mp fun hne => hclash ⟨b, hb, hlabel, hne⟩

/-- The records of the draft are those of the blocks. -/
theorem Reads.records_eq (h : d.Reads blocks) :
    d.artifact.records.map (·.record) = (blocks.map (·.record)).eraseDups :=
  (LabelledRecord.gathered_gather d.bindings).records_eq.trans h.eraseDups_eq

/-- A record has the labels of all blocks that hold it. -/
theorem Reads.mem_labels (h : d.Reads blocks) {entry : LabelledRecord}
    (hentry : entry ∈ d.artifact.records) {label : String} :
    label ∈ entry.labels ↔ ∃ b ∈ blocks, b.record = entry.record ∧ label ∈ b.labels :=
  ((LabelledRecord.gathered_gather d.bindings).mem_labels hentry).trans (h.binds_iff _ _)

end Reads

/-! ## One more block -/

section Block

variable {d : Draft} {blocks : List Block} {b : Block} {lines : List Line}

/-- The lines of a block lead to its complete record, with its labels waiting. -/
theorem run_lines_of_block (hunderway : d.underway = none)
    (hopens : ∀ label ∈ b.labels.head?, d.Opens label) (hb : b.WellFormed d.entrySize)
    (hlines : lines.map (·.chars) = b.lines.map (·.toList)) :
    ∃ (pending : List Label) (log : List LogEvent) (start : Text.Span)
        (underway : Option (Text.Span × Reading)),
      pending.map (·.name) = b.labels ∧
      d.run lines = ({ d with mode := .data, pending, underway, log } : Draft).settle start
        (.ok (.complete b.record)) := by
  obtain ⟨name, names, hlabels⟩ := List.exists_cons_of_ne_nil hb.labels_ne_nil
  rw [Block.lines, Listing.recordLines, List.map_append, List.map_map] at hlines
  -- label lines above, record lines below
  obtain ⟨above, below, rfl, habove, hbelow⟩ := List.map_eq_append_iff.mp hlines
  have hopens : d.Opens name := hopens name (by rw [hlabels]; rfl)
  have hnames := hb.label_names
  rw [hlabels] at habove hnames ⊢
  obtain ⟨pending, log, hpending, hrun⟩ := run_labelLines hunderway hopens hnames habove
  obtain ⟨start, underway, hrecord⟩ :=
    run_recordLines (d := { d with mode := .data, pending, log }) hunderway rfl hb.fits hbelow
  exact ⟨pending, log, start, underway, hpending, (run_append_of_reading hrun).trans hrecord⟩

/-- A block without a clash is read. -/
theorem run_block (h : d.Reads blocks) (hopens : ∀ label ∈ b.labels.head?, d.Opens label)
    (hb : b.WellFormed d.entrySize) (hlines : lines.map (·.chars) = b.lines.map (·.toList))
    (hclash : ∀ label ∈ b.labels, ¬ Clashes blocks b.record label) :
    ∃ next, d.run lines = (next, .reading) ∧ next.Reads (blocks ++ [b]) ∧ next.mode = .data ∧
      next.pending = [] ∧ next.declared = d.declared ∧ next.entrySize = d.entrySize := by
  obtain ⟨pending, log, start, underway, hpending, hrun⟩ :=
    run_lines_of_block h.underway_eq hopens hb hlines
  have hne : pending ≠ [] := by
    rintro rfl
    exact hb.labels_ne_nil hpending.symm
  have hagrees : ∀ label ∈ pending, Agrees d.bindings b.record label.name := by
    intro label hlabel
    refine h.agrees_iff.mpr (hclash _ ?_)
    rw [← hpending]
    exact List.mem_map_of_mem hlabel
  refine ⟨_, hrun.trans (settle_complete_of_agrees h.functional hne hagrees),
    ⟨rfl, functional_bindAll h.functional hagrees, ?_, ?_⟩, rfl, rfl, rfl, rfl⟩
  · -- a label is bound as before or to the record of this block
    intro label record
    have hnamed : (∃ l ∈ pending, l.name = label) ↔ label ∈ b.labels := by
      rw [← hpending, List.mem_map]
    rw [binds_bindAll_iff hagrees, h.binds_iff, hnamed]
    simp only [List.mem_append, List.mem_singleton, or_and_right, exists_or, exists_eq_left]
  · rw [eraseDups_bindAll hne hagrees, List.map_append, List.map_singleton]
    exact eraseDups_append_congr h.eraseDups_eq

/-- A block with a clash stops the reading, and the report names the first label
that clashes. -/
theorem run_block_of_clash (h : d.Reads blocks)
    (hopens : ∀ label ∈ b.labels.head?, d.Opens label) (hb : b.WellFormed d.entrySize)
    (hlines : lines.map (·.chars) = b.lines.map (·.toList))
    (hclash : ¬ ∀ label ∈ b.labels, ¬ Clashes blocks b.record label) :
    ∃ next e front label back, d.run lines = (next, .failed e) ∧
      e.cause = .duplicateLabel label ∧ b.labels = front ++ label :: back ∧
      Clashes blocks b.record label ∧ ∀ l ∈ front, ¬ Clashes blocks b.record l := by
  obtain ⟨pending, log, start, underway, hpending, hrun⟩ :=
    run_lines_of_block h.underway_eq hopens hb hlines
  have hnot : ¬ ∀ label ∈ pending, Agrees d.bindings b.record label.name := by
    intro hagrees
    apply hclash
    intro label hlabel
    rw [← hpending] at hlabel
    obtain ⟨l, hl, rfl⟩ := List.mem_map.mp hlabel
    exact h.agrees_iff.mp (hagrees l hl)
  obtain ⟨e, front, label, back, hsettle, hcause, hsplit, hfront, hlabel⟩ :=
    settle_complete_of_not_agrees (d := { d with mode := .data, pending, underway, log })
      h.functional hnot
  refine ⟨_, e, front.map (·.name), label.name, back.map (·.name), hrun.trans hsettle, hcause,
    ?_, ?_, ?_⟩
  · rw [← hpending, show pending = _ from hsplit, List.map_append, List.map_cons]
  · exact Classical.not_not.mp fun hno => hlabel (h.agrees_iff.mpr hno)
  · exact List.forall_mem_map.mpr fun l hl => h.agrees_iff.mp (hfront l hl)

end Block

/-! ## All blocks -/

/-- Consistent blocks are all read; otherwise the first clash stops the reading. -/
theorem run_blocks {d : Draft} {done blocks : List Block} {lines : List Line} (h : d.Reads done)
    (hdone : Consistent done)
    (hopens : ∀ b ∈ blocks.head?, ∀ label ∈ b.labels.head?, d.Opens label)
    (hblocks : ∀ b ∈ blocks, b.WellFormed d.entrySize)
    (hlines : lines.map (·.chars) = (blocks.flatMap Block.lines).map (·.toList)) :
    (∃ next, d.run lines = (next, .reading) ∧ next.Reads (done ++ blocks) ∧
        Consistent (done ++ blocks) ∧ next.declared = d.declared) ∨
      ∃ next e label, d.run lines = (next, .failed e) ∧ e.cause = .duplicateLabel label ∧
        FirstClash (done ++ blocks) label := by
  induction blocks generalizing d done lines with
  | nil =>
      obtain rfl : lines = [] := List.map_eq_nil_iff.mp hlines
      rw [List.append_nil]
      exact Or.inl ⟨d, rfl, h, hdone, rfl⟩
  | cons b others ih =>
      obtain ⟨hb, hothers⟩ := List.forall_mem_cons.mp hblocks
      have hopens := hopens b rfl
      rw [List.flatMap_cons, List.map_append] at hlines
      obtain ⟨first, rest, rfl, hfirst, hrest⟩ := List.map_eq_append_iff.mp hlines
      by_cases hclash : ∀ label ∈ b.labels, ¬ Clashes done b.record label
      · -- no clash: the other blocks follow on what this one leaves
        obtain ⟨next, hrun, hreads, hmode, hpending, hdeclared, hsize⟩ :=
          run_block h hopens hb hfirst hclash
        rw [List.append_cons, run_append_of_reading hrun, ← hdeclared]
        rw [← hsize] at hothers
        exact ih hreads (consistent_concat_iff.mpr ⟨hdone, hclash⟩)
          (fun _ _ _ _ => Or.inl ⟨hmode, hpending⟩) hothers hrest
      · -- a clash: the other blocks are not read
        obtain ⟨next, e, front, label, back, hrun, hcause, hlabels, hlabel, hfront⟩ :=
          run_block_of_clash h hopens hb hfirst hclash
        exact Or.inr ⟨next, e, label, run_append_of_failed hrun, hcause,
          done, b, others, front, back, rfl, hlabels, hdone, hlabel, hfront⟩

end Draft

end SpriteTables
