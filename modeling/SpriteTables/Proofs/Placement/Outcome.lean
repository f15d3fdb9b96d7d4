import SpriteTables.Proofs.Placement.Uneven

/-!
# Every outcome of placing

Placing a source on a target has three outcomes. The tables are refused, a label is unknown, or
all records are placed; each of them is met exactly under its own condition, and what is reported
or returned is determined by it (`linearize_outcomes`).

The list of placements is determined by what a reader can check of it: each record of the source
stands there once, at the first positions of its labels, and the least ranks of these increase
along the list (`Places`, `Places.eq_emitted`). This rests on three facts. No two records of a
source share a label, a position carries one label, and ranks do not tie.
-/

set_option autoImplicit false

namespace SpriteTables

/-! ## First positions -/

/-- A position carries a label, and none before it does. -/
def OffsetTable.IsFirst (target : OffsetTable) (label : String) (index : Nat) : Prop :=
  target.labelAt? index = some label ∧ ∀ before < index, target.labelAt? before ≠ some label

/-- The position found for a label is the first one that carries it. -/
theorem indexOf?_eq_some_iff {target : OffsetTable} {label : String} {index : Nat} :
    target.indexOf? label = some index ↔ target.IsFirst label index := by
  have hat : ∀ i, target.labelAt? i = some label ↔
      ∃ h : i < target.entries.length, target.entries[i].label = label := by
    intro i
    rw [OffsetTable.labelAt?, Option.map_eq_some_iff]
    constructor
    · rintro ⟨e, he, rfl⟩
      obtain ⟨hlt, rfl⟩ := List.getElem?_eq_some_iff.mp he
      exact ⟨hlt, rfl⟩
    · rintro ⟨hlt, hlabel⟩
      exact ⟨_, List.getElem?_eq_getElem hlt, hlabel⟩
  rw [OffsetTable.IsFirst, hat, OffsetTable.indexOf?, List.findIdx?_eq_some_iff_getElem]
  simp only [decide_eq_true_eq]
  constructor
  · rintro ⟨hlt, hlabel, hbefore⟩
    refine ⟨⟨hlt, hlabel⟩, fun before hbelow hfound => ?_⟩
    obtain ⟨_, hsame⟩ := (hat before).mp hfound
    exact hbefore before hbelow hsame
  · rintro ⟨⟨hlt, hlabel⟩, hbefore⟩
    refine ⟨hlt, hlabel, fun before hbelow hsame => ?_⟩
    exact hbefore before hbelow ((hat before).mpr ⟨Nat.lt_trans hbelow hlt, hsame⟩)

/-! ## Unknown labels -/

/-- Of some labels, one is the least that a target lacks. -/
def OffsetTable.LeastUnknown (target : OffsetTable) (labels : List String) (label : String) :
    Prop :=
  label ∈ labels ∧ (¬ ∃ e ∈ target.entries, e.label = label) ∧
    ∀ other ∈ labels, other < label → ∃ e ∈ target.entries, e.label = other

/-- A label is the first one of some records that a target lacks: the least one of a record
that comes after covered records only. -/
def OffsetTable.FirstUnknown (target : OffsetTable) (records : List LabelledRecord)
    (label : String) : Prop :=
  ∃ before entry after, records = before ++ entry :: after ∧
    (∀ earlier ∈ before, target.Covers earlier) ∧ target.LeastUnknown entry.labels label

namespace OffsetTable

variable {target : OffsetTable} {first label : String} {labels : List String}
  {entry : LabelledRecord} {rest : List LabelledRecord}

/-- An unknown label that comes before all others is the least one. -/
theorem leastUnknown_cons_of_unknown (hlt : ∀ other ∈ labels, first < other)
    (hunknown : ¬ ∃ e ∈ target.entries, e.label = first) :
    target.LeastUnknown (first :: labels) label ↔ label = first := by
  constructor
  · rintro ⟨hlabel, -, hbelow⟩
    rcases List.mem_cons.mp hlabel with rfl | hlabel
    · rfl
    · exact absurd (hbelow first List.mem_cons_self (hlt label hlabel)) hunknown
  · rintro rfl
    refine ⟨List.mem_cons_self, hunknown, fun other hother hless => ?_⟩
    rcases List.mem_cons.mp hother with rfl | hother
    · exact absurd hless Std.lt_irrefl
    · exact absurd hless (Std.not_gt_of_lt (hlt other hother))

/-- A known label is passed over. -/
theorem leastUnknown_cons_of_known (hknown : ∃ e ∈ target.entries, e.label = first) :
    target.LeastUnknown (first :: labels) label ↔ target.LeastUnknown labels label := by
  constructor
  · rintro ⟨hlabel, hunknown, hbelow⟩
    rcases List.mem_cons.mp hlabel with rfl | hlabel
    · exact absurd hknown hunknown
    · exact ⟨hlabel, hunknown, (List.forall_mem_cons.mp hbelow).2⟩
  · rintro ⟨hlabel, hunknown, hbelow⟩
    exact ⟨List.mem_cons_of_mem _ hlabel, hunknown,
      List.forall_mem_cons.mpr ⟨fun _ => hknown, hbelow⟩⟩

/-- The first unknown label belongs to the first record, or this one is covered. -/
theorem firstUnknown_cons_iff :
    target.FirstUnknown (entry :: rest) label ↔
      target.LeastUnknown entry.labels label ∨
        (target.Covers entry ∧ target.FirstUnknown rest label) := by
  constructor
  · rintro ⟨before, found, after, hsplit, hcovers, hleast⟩
    cases before with
    | nil =>
        cases hsplit
        exact Or.inl hleast
    | cons earlier before =>
        cases hsplit
        obtain ⟨hentry, hcovers⟩ := List.forall_mem_cons.mp hcovers
        exact Or.inr ⟨hentry, before, found, after, rfl, hcovers, hleast⟩
  · rintro (hleast | ⟨hentry, before, found, after, rfl, hcovers, hleast⟩)
    · exact ⟨[], entry, rest, rfl, fun _ h => absurd h List.not_mem_nil, hleast⟩
    · exact ⟨entry :: before, found, after, rfl,
        List.forall_mem_cons.mpr ⟨hentry, hcovers⟩, hleast⟩

end OffsetTable

section Unknown

variable {order : IndexOrder} {target : OffsetTable} {label : String} {error : PlacementError}

namespace Placement

/-- Of ascending labels the least unknown one is reported. -/
theorem indicesOf_eq_error_iff {labels : List String} (h : labels.Pairwise (· < ·)) :
    indicesOf target labels = .error error ↔
      ∃ label, target.LeastUnknown labels label ∧ error = .unknownLabel label := by
  induction labels with
  | nil =>
      constructor
      · intro h
        cases h
      · rintro ⟨label, ⟨hlabel, -⟩, -⟩
        exact absurd hlabel List.not_mem_nil
  | cons first rest ih =>
      obtain ⟨hfirst, hrest⟩ := List.pairwise_cons.mp h
      cases hindex : target.indexOf? first with
      | none =>
          have hunknown : ¬ ∃ e ∈ target.entries, e.label = first := by
            rw [← exists_indexOf?_iff, hindex]
            rintro ⟨index, hsome⟩
            cases hsome
          simp only [OffsetTable.leastUnknown_cons_of_unknown hfirst hunknown, exists_eq_left]
          rw [indicesOf, hindex, Except.error.injEq]
          exact eq_comm
      | some index =>
          have hknown : ∃ e ∈ target.entries, e.label = first :=
            exists_indexOf?_iff.mp ⟨index, hindex⟩
          have hchain : indicesOf target (first :: rest) = .error error ↔
              indicesOf target rest = .error error := by
            rw [indicesOf, hindex]
            cases indicesOf target rest <;> simp
          rw [hchain, ih hrest]
          simp only [OffsetTable.leastUnknown_cons_of_known hknown]

/-- The first record decides what is reported, unless it is covered. -/
theorem ofRecords_cons_eq_error_iff {entry : LabelledRecord} {rest : List LabelledRecord} :
    ofRecords order target (entry :: rest) = .error error ↔
      indicesOf target entry.labels = .error error ∨
        (target.Covers entry ∧ ofRecords order target rest = .error error) := by
  have hcovers : target.Covers entry ↔ ∃ indices, indicesOf target entry.labels = .ok indices := by
    constructor
    · intro h
      exact ⟨_, indicesOf_eq_ok_iff.mpr ⟨h, rfl⟩⟩
    · rintro ⟨indices, hindices⟩
      exact (indicesOf_eq_ok_iff.mp hindices).1
  rw [hcovers, ofRecords]
  cases indicesOf target entry.labels with
  | error reported => simp
  | ok indices => cases ofRecords order target rest <;> simp

/-- The first unknown label is reported. -/
theorem ofRecords_eq_error_iff {records : List LabelledRecord}
    (h : ∀ entry ∈ records, entry.labels.Pairwise (· < ·)) :
    ofRecords order target records = .error error ↔
      ∃ label, target.FirstUnknown records label ∧ error = .unknownLabel label := by
  induction records with
  | nil =>
      constructor
      · intro h
        cases h
      · rintro ⟨label, ⟨before, entry, after, hsplit, -⟩, -⟩
        simp at hsplit
  | cons entry rest ih =>
      obtain ⟨hentry, hrest⟩ := List.forall_mem_cons.mp h
      rw [ofRecords_cons_eq_error_iff, indicesOf_eq_error_iff hentry, ih hrest]
      simp only [OffsetTable.firstUnknown_cons_iff, or_and_right, exists_or, and_assoc,
        exists_and_left]

end Placement

variable {entrySize : Nat} {source : Artifact}

/-- A label is reported when the tables are not refused and it is the first unknown one. -/
theorem linearize_eq_unknownLabel_iff (hsource : source.WellFormed entrySize) :
    linearize order source target = .error (.unknownLabel label) ↔
      order.Suits target ∧ target.FirstUnknown source.records label := by
  have hrecords : Placement.ofRecords order target source.records = .error (.unknownLabel label) ↔
      target.FirstUnknown source.records label := by
    rw [Placement.ofRecords_eq_error_iff hsource.labels_ascending]
    simp
  rw [← hrecords]
  by_cases hrefused : order = .interleaved ∧ target.isUneven = true
  · rw [linearize, if_pos hrefused]
    constructor
    · intro h
      cases h
    · rintro ⟨hsuits, -⟩
      exact absurd hrefused hsuits
  · rw [linearize, if_neg hrefused]
    cases Placement.ofRecords order target source.records with
    | error reported =>
        constructor
        · intro h
          exact ⟨hrefused, h⟩
        · rintro ⟨-, h⟩
          exact h
    | ok placements => simp

end Unknown

/-! ## Placements -/

/-- A placement is that of a record on a target: at the first positions of its labels, in order
and each once, under these labels, with their least rank as its key. -/
structure Placement.IsOf (order : IndexOrder) (target : OffsetTable) (entry : LabelledRecord)
    (p : Placement) : Prop where
  record_eq : p.record = entry.record
  indices_ascending : p.indices.Pairwise (· < ·)
  mem_indices_iff : ∀ index, index ∈ p.indices ↔ ∃ label ∈ entry.labels, target.IsFirst label index
  labelsAt_eq : Listing.labelsAt target p.indices = entry.labels
  exists_rank_eq : ∃ index ∈ p.indices, order.rank target index = p.sortKey
  sortKey_le : ∀ index ∈ p.indices, p.sortKey ≤ order.rank target index

/-- The placements of all records of a source on a target: each record is placed once, under its
labels, and nothing else is; no position belongs to two placements; and the keys increase along
the list. -/
structure Places (order : IndexOrder) (source : Artifact) (target : OffsetTable)
    (placements : List Placement) : Prop where
  records_perm : (placements.map (·.record)).Perm (source.records.map (·.record))
  isOf : ∀ p ∈ placements, ∃ entry ∈ source.records, Placement.IsOf order target entry p
  indices_disjoint : placements.Pairwise fun p q => List.Disjoint p.indices q.indices
  sortKeys_ascending : (placements.map (·.sortKey)).Pairwise (· < ·)

section Placed

variable {order : IndexOrder} {source : Artifact} {target : OffsetTable} {entrySize : Nat}
  {x y : LabelledRecord}

theorem mem_indices_ofEntry_iff_isFirst {index : Nat} :
    index ∈ (Placement.ofEntry order target x).indices ↔
      ∃ label ∈ x.labels, target.IsFirst label index := by
  simp only [Placement.mem_indices_ofEntry, indexOf?_eq_some_iff]

/-- The key of a covered record is the least of its ranks. -/
theorem min?_rank_ofEntry (order : IndexOrder) (hne : x.labels ≠ [])
    (hcovers : target.Covers x) :
    ((Placement.ofEntry order target x).indices.map (order.rank target)).min? =
      some (Placement.ofEntry order target x).sortKey := by
  have hplaced : Placement.atIndices? order target x.record
      (x.labels.filterMap target.indexOf?) = some (Placement.ofEntry order target x) :=
    Placement.atIndices?_eq_some hne hcovers
  obtain ⟨key, hkey, heq⟩ := Option.map_eq_some_iff.mp hplaced
  rw [← heq]
  exact hkey

/-- A covered record is placed as described. -/
theorem Placement.isOf_ofEntry (hne : x.labels ≠ []) (hascending : x.labels.Pairwise (· < ·))
    (hcovers : target.Covers x) : IsOf order target x (ofEntry order target x) := by
  obtain ⟨hmem, hle⟩ := List.min?_eq_some_iff.mp (min?_rank_ofEntry order hne hcovers)
  exact {
    record_eq := rfl
    indices_ascending := Ascending.pairwise_ofList _
    mem_indices_iff := fun _ => mem_indices_ofEntry_iff_isFirst
    labelsAt_eq := labelsAt_ofEntry hcovers hascending
    exists_rank_eq := List.mem_map.mp hmem
    sortKey_le := fun index hindex => hle _ (List.mem_map_of_mem hindex) }

/-- The description leaves no choice. -/
theorem Placement.IsOf.eq_ofEntry {p : Placement} (h : IsOf order target x p) :
    p = ofEntry order target x := by
  have hindices : (ofEntry order target x).indices = p.indices :=
    Ascending.ofList_eq_of_mem_iff h.indices_ascending fun index => by
      rw [h.mem_indices_iff, List.mem_filterMap]
      simp only [indexOf?_eq_some_iff]
  have hkey : (p.indices.map (order.rank target)).min? = some p.sortKey := by
    obtain ⟨index, hindex, hrank⟩ := h.exists_rank_eq
    refine List.min?_eq_some_iff.mpr ⟨hrank ▸ List.mem_map_of_mem hindex, fun rank hrank => ?_⟩
    obtain ⟨other, hother, rfl⟩ := List.mem_map.mp hrank
    exact h.sortKey_le other hother
  have hsortKey : (ofEntry order target x).sortKey = p.sortKey := by
    show (((ofEntry order target x).indices.map (order.rank target)).min?).getD 0 = _
    rw [hindices, hkey, Option.getD_some]
  obtain ⟨record, indices, sortKey⟩ := p
  obtain rfl : record = x.record := h.record_eq
  obtain rfl : _ = indices := hindices
  obtain rfl : _ = sortKey := hsortKey
  rfl

/-- Records that share a position are one record. -/
theorem eq_of_mem_indices (hsource : source.WellFormed entrySize) (hx : x ∈ source.records)
    (hy : y ∈ source.records) {index : Nat}
    (hxindex : index ∈ (Placement.ofEntry order target x).indices)
    (hyindex : index ∈ (Placement.ofEntry order target y).indices) : x = y := by
  obtain ⟨label, hlabel, hat, -⟩ := mem_indices_ofEntry_iff_isFirst.mp hxindex
  obtain ⟨label', hlabel', hat', -⟩ := mem_indices_ofEntry_iff_isFirst.mp hyindex
  rw [hat] at hat'
  cases hat'
  exact hsource.eq_of_mem_labels x hx y hy label hlabel hlabel'

/-- No record is emitted twice. -/
theorem pairwise_ne_emitted (hsource : source.WellFormed entrySize) (order : IndexOrder)
    (target : OffsetTable) : (emitted order source target).Pairwise (· ≠ ·) :=
  (emitted_perm order source target).nodup_iff.mpr (List.Nodup.of_map _ hsource.records_nodup)

/-- The emitted records are placed as described. -/
theorem places_emitted (hsource : source.WellFormed entrySize) (hsuits : order.Suits target)
    (hcovers : ∀ entry ∈ source.records, target.Covers entry) :
    Places order source target
      ((emitted order source target).map (Placement.ofEntry order target)) where
  records_perm := by
    rw [List.map_map]
    exact (emitted_perm order source target).map _
  isOf := by
    intro p hp
    obtain ⟨entry, hentry, rfl⟩ := List.mem_map.mp hp
    have hentry := mem_emitted.mp hentry
    exact ⟨entry, hentry, Placement.isOf_ofEntry (hsource.labels_ne_nil entry hentry)
      (hsource.labels_ascending entry hentry) (hcovers entry hentry)⟩
  indices_disjoint := by
    rw [List.pairwise_map]
    refine (pairwise_ne_emitted hsource order target).imp_of_mem ?_
    intro x y hx hy hne index hxindex hyindex
    exact hne (eq_of_mem_indices hsource (mem_emitted.mp hx) (mem_emitted.mp hy) hxindex hyindex)
  sortKeys_ascending := by
    rw [List.map_map, List.pairwise_map]
    have hle := pairwise_emitted order source target
    refine (hle.and (pairwise_ne_emitted hsource order target)).imp_of_mem ?_
    rintro x y hx hy ⟨hle, hne⟩
    refine Nat.lt_of_le_of_ne hle fun hsame => hne ?_
    exact eq_of_sortKey_eq hsource hsuits hcovers (mem_emitted.mp hx) (mem_emitted.mp hy) hsame

/-- Placements as described are those of the records, and no others. -/
theorem Places.mem_iff (hsource : source.WellFormed entrySize) {placements : List Placement}
    (h : Places order source target placements) {p : Placement} :
    p ∈ placements ↔ ∃ entry ∈ source.records, Placement.ofEntry order target entry = p := by
  constructor
  · intro hp
    obtain ⟨entry, hentry, hof⟩ := h.isOf p hp
    exact ⟨entry, hentry, hof.eq_ofEntry.symm⟩
  · rintro ⟨entry, hentry, rfl⟩
    obtain ⟨p, hp, hrecord⟩ :=
      List.mem_map.mp (h.records_perm.mem_iff.mpr (List.mem_map_of_mem hentry))
    obtain ⟨entry', hentry', hof⟩ := h.isOf p hp
    have hsame : entry' = entry :=
      List.inj_on_of_nodup_map hsource.records_nodup hentry' hentry
        (hof.record_eq.symm.trans hrecord)
    rw [← hsame, ← hof.eq_ofEntry]
    exact hp

/-- Placements as described are those of the emitted records, in some order. -/
theorem Places.perm (hsource : source.WellFormed entrySize) {placements : List Placement}
    (h : Places order source target placements) :
    placements.Perm ((emitted order source target).map (Placement.ofEntry order target)) := by
  have hnodup : placements.Nodup :=
    List.Nodup.of_map _ (h.records_perm.nodup_iff.mpr hsource.records_nodup)
  have hnodup' : (source.records.map (Placement.ofEntry order target)).Nodup := by
    apply List.Nodup.of_map Placement.record
    rw [List.map_map]
    exact hsource.records_nodup
  have hperm : placements.Perm (source.records.map (Placement.ofEntry order target)) :=
    (List.perm_ext_iff_of_nodup hnodup hnodup').mpr fun p =>
      (h.mem_iff hsource).trans List.mem_map.symm
  exact hperm.trans ((emitted_perm order source target).map _).symm

/-- There is one list of placements as described: that of the emitted records. -/
theorem Places.eq_emitted (hsource : source.WellFormed entrySize) {placements : List Placement}
    (h : Places order source target placements) :
    placements = (emitted order source target).map (Placement.ofEntry order target) := by
  have hperm := h.perm hsource
  have hkeys : placements.Pairwise fun p q => p.sortKey ≤ q.sortKey :=
    (List.pairwise_map.mp h.sortKeys_ascending).imp Nat.le_of_lt
  have hkeys' : ((emitted order source target).map (Placement.ofEntry order target)).Pairwise
      fun p q => p.sortKey ≤ q.sortKey :=
    List.pairwise_map.mpr (pairwise_emitted order source target)
  -- both lists are sorted by keys, which in one of them do not tie
  refine hperm.eq_of_pairwise (fun p q hp hq hpq hqp => ?_) hkeys hkeys'
  exact List.inj_on_of_nodup_map (Ascending.nodup_of_pairwise h.sortKeys_ascending) hp
    (hperm.mem_iff.mpr hq) (Nat.le_antisymm hpq hqp)

/-- A source is placed when the tables are not refused and every label is known, and then as
described. -/
theorem linearize_eq_ok_iff_places (hsource : source.WellFormed entrySize)
    {placements : List Placement} :
    linearize order source target = .ok placements ↔
      order.Suits target ∧ (∀ entry ∈ source.records, target.Covers entry) ∧
        Places order source target placements := by
  rw [linearize_eq_ok_iff hsource.labels_ne_nil]
  constructor
  · rintro ⟨hsuits, hcovers, rfl⟩
    exact ⟨hsuits, hcovers, places_emitted hsource hsuits hcovers⟩
  · rintro ⟨hsuits, hcovers, hplaces⟩
    exact ⟨hsuits, hcovers, hplaces.eq_emitted hsource⟩

/-- Some label is the first unknown one when some label is unknown. -/
theorem exists_firstUnknown_iff (hsource : source.WellFormed entrySize) :
    (∃ label, target.FirstUnknown source.records label) ↔
      ∃ entry ∈ source.records, ∃ label ∈ entry.labels,
        ¬ ∃ e ∈ target.entries, e.label = label := by
  constructor
  · rintro ⟨label, before, entry, after, hsplit, -, hlabel, hunknown, -⟩
    exact ⟨entry, by simp [hsplit], label, hlabel, hunknown⟩
  · rintro ⟨entry, hentry, label, hlabel, hunknown⟩
    -- placing one table after the other cannot succeed, and refuses no tables
    cases hresult : linearize .sequential source target with
    | ok placements =>
        obtain ⟨-, hcovers, -⟩ := (linearize_eq_ok_iff_places hsource).mp hresult
        exact absurd (hcovers entry hentry label hlabel) hunknown
    | error error =>
        cases error with
        | unknownLabel first =>
            exact ⟨first, ((linearize_eq_unknownLabel_iff hsource).mp hresult).2⟩
        | unevenInterleave labels tables =>
            obtain ⟨⟨horder, -⟩, -⟩ := linearize_eq_unevenInterleave_iff.mp hresult
            cases horder

end Placed

/-! ## The outcomes -/

/-- The tables of a target cannot be read in an order: they are to be read in step, and their
number does not divide that of the entries. -/
def IndexOrder.Refuses (order : IndexOrder) (target : OffsetTable) : Prop :=
  order = .interleaved ∧ 0 < target.tableCount ∧ ¬ target.tableCount ∣ target.size

theorem refuses_iff {order : IndexOrder} {target : OffsetTable} :
    order.Refuses target ↔ order = .interleaved ∧ target.isUneven = true := by
  rw [IndexOrder.Refuses, OffsetTable.isUneven_iff]

theorem suits_iff_not_refuses {order : IndexOrder} {target : OffsetTable} :
    order.Suits target ↔ ¬ order.Refuses target := by
  rw [IndexOrder.Suits, refuses_iff]

/-- Whatever text a source is read from, and whatever the target and the order: placing
refuses the tables just when their number does not divide that of the entries and they are to
be read in step; otherwise it reports a label just when some label is unknown, and then the
first one; otherwise it gives the one list of placements that is as described. -/
theorem linearize_outcomes {entrySize : Nat} {text : String} {source : Artifact}
    (h : (Artifact.parse entrySize text).value = .ok source) (order : IndexOrder)
    (target : OffsetTable) :
    (∀ labels tables, linearize order source target = .error (.unevenInterleave labels tables) ↔
      order.Refuses target ∧ labels = target.size ∧ tables = target.tableCount) ∧
    (∀ label, linearize order source target = .error (.unknownLabel label) ↔
      ¬ order.Refuses target ∧ target.FirstUnknown source.records label) ∧
    ((∃ label, target.FirstUnknown source.records label) ↔
      ∃ entry ∈ source.records, ∃ label ∈ entry.labels,
        ¬ ∃ e ∈ target.entries, e.label = label) ∧
    ((∃ placements, linearize order source target = .ok placements) ↔
      ¬ order.Refuses target ∧ ∀ entry ∈ source.records, ∀ label ∈ entry.labels,
        ∃ e ∈ target.entries, e.label = label) ∧
    ∀ placements, linearize order source target = .ok placements ↔
      ¬ order.Refuses target ∧ (∀ entry ∈ source.records, ∀ label ∈ entry.labels,
        ∃ e ∈ target.entries, e.label = label) ∧ Places order source target placements := by
  have hsource := wellFormed_of_parse h
  refine ⟨?_, ?_, exists_firstUnknown_iff hsource, ?_, ?_⟩
  · intro labels tables
    rw [linearize_eq_unevenInterleave_iff, refuses_iff]
  · intro label
    rw [linearize_eq_unknownLabel_iff hsource, suits_iff_not_refuses]
  · rw [← suits_iff_not_refuses]
    constructor
    · rintro ⟨placements, hplaced⟩
      obtain ⟨hsuits, hcovers, -⟩ := (linearize_eq_ok_iff_places hsource).mp hplaced
      exact ⟨hsuits, hcovers⟩
    · rintro ⟨hsuits, hcovers⟩
      exact ⟨_, (linearize_eq_ok_iff_places hsource).mpr
        ⟨hsuits, hcovers, places_emitted hsource hsuits hcovers⟩⟩
  · intro placements
    rw [linearize_eq_ok_iff_places hsource, suits_iff_not_refuses]
    rfl

/-- Two tables whose first label stands in both: the record under that label comes first, and
its repetition is no position of it. -/
theorem linearize_outcomes_of_repeated_label :
    ∃ source target : Artifact,
      (Artifact.parse 1 "\tdc.w A-T\nA:\n\tdc.w 1,5\nB:\nZ:\n\tdc.w 1,6\n").value = .ok source ∧
      (Artifact.parse 1 "\tdc.w Z-T,A-T,B-U,Z-U\n").value = .ok target ∧
      ∃ placements, linearize .interleaved source target.offsets = .ok placements ∧
        Places .interleaved source target.offsets placements ∧
        placements.map (·.indices) = [[0, 2], [1]] := by
  have hsource : (Artifact.parse 1
      "\tdc.w A-T\nA:\n\tdc.w 1,5\nB:\nZ:\n\tdc.w 1,6\n").value =
        .ok ⟨⟨[⟨"A", "T"⟩]⟩, [⟨⟨1, [5]⟩, ["A"]⟩, ⟨⟨1, [6]⟩, ["B", "Z"]⟩]⟩ := by
    decide +kernel
  have htarget : (Artifact.parse 1 "\tdc.w Z-T,A-T,B-U,Z-U\n").value =
      .ok ⟨⟨[⟨"Z", "T"⟩, ⟨"A", "T"⟩, ⟨"B", "U"⟩, ⟨"Z", "U"⟩]⟩, []⟩ := by
    decide +kernel
  have hplaced : linearize .interleaved
      ⟨⟨[⟨"A", "T"⟩]⟩, [⟨⟨1, [5]⟩, ["A"]⟩, ⟨⟨1, [6]⟩, ["B", "Z"]⟩]⟩
      ⟨[⟨"Z", "T"⟩, ⟨"A", "T"⟩, ⟨"B", "U"⟩, ⟨"Z", "U"⟩]⟩ =
        .ok [⟨⟨1, [6]⟩, [0, 2], 0⟩, ⟨⟨1, [5]⟩, [1], 2⟩] := by
    rw [linearize_eq_insertionSort]
    decide +kernel
  obtain ⟨-, -, -, -, honly⟩ := linearize_outcomes hsource .interleaved
    ⟨[⟨"Z", "T"⟩, ⟨"A", "T"⟩, ⟨"B", "U"⟩, ⟨"Z", "U"⟩]⟩
  obtain ⟨-, -, hplaces⟩ := (honly _).mp hplaced
  exact ⟨_, _, hsource, htarget, _, hplaced, hplaces, rfl⟩

end SpriteTables
