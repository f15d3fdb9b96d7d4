import SpriteTables.Ascending

/-!
# Ascending lists are canonical

An ascending list is determined by its members (`eq_of_mem_iff`), so two label sets that hold the
same labels are the same list, and so are two sets of positions. Insertion keeps a list ascending
and changes nothing for a member.
-/

set_option autoImplicit false

namespace SpriteTables.Ascending

/-- An ascending list repeats no member. -/
theorem nodup_of_pairwise {α : Type} [LT α] [@Std.Irrefl α (· < ·)] {as : List α}
    (h : as.Pairwise (· < ·)) : as.Nodup :=
  h.imp fun hab => Std.ne_of_lt hab

/-- Two ascending lists with the same members are equal. -/
theorem eq_of_mem_iff {α : Type} [LE α] [LT α] [Std.IsLinearOrder α] [Std.LawfulOrderLT α]
    {as bs : List α} (ha : as.Pairwise (· < ·)) (hb : bs.Pairwise (· < ·))
    (h : ∀ c, c ∈ as ↔ c ∈ bs) : as = bs := by
  have hperm : as.Perm bs :=
    (List.perm_ext_iff_of_nodup (nodup_of_pairwise ha) (nodup_of_pairwise hb)).mpr h
  refine hperm.eq_of_pairwise (fun a b _ _ hab hba => ?_) ha hb
  exact absurd hba (Std.not_gt_of_lt hab)

variable {α : Type} [LE α] [LT α] [Std.IsLinearOrder α] [Std.LawfulOrderLT α]
  [DecidableLT α] [DecidableEq α]

/-- Insertion keeps a list ascending. -/
theorem pairwise_insert {a : α} {as : List α} (h : as.Pairwise (· < ·)) :
    (insert a as).Pairwise (· < ·) := by
  induction as with
  | nil => exact List.pairwise_singleton _ _
  | cons b rest ih =>
      obtain ⟨hb, hrest⟩ := List.pairwise_cons.mp h
      rw [insert]
      split
      · exact h
      · next hne =>
          split
          · next hlt =>
              refine List.pairwise_cons.mpr ⟨fun c hc => ?_, h⟩
              rcases List.mem_cons.mp hc with rfl | hc
              · exact hlt
              · exact Std.lt_trans hlt (hb c hc)
          · next hnlt =>
              refine List.pairwise_cons.mpr ⟨fun c hc => ?_, ih hrest⟩
              rcases mem_insert.mp hc with rfl | hc
              · exact Std.lt_of_le_of_ne (Std.not_lt.mp hnlt) (Ne.symm hne)
              · exact hb c hc

/-- The ascending list of some members is ascending. -/
theorem pairwise_ofList (as : List α) : (ofList as).Pairwise (· < ·) := by
  induction as with
  | nil => exact List.Pairwise.nil
  | cons a rest ih => exact pairwise_insert ih

/-- Sorting the members of an ascending list, in any order and number, gives the
list back. -/
theorem ofList_eq_of_mem_iff {as bs : List α} (hb : bs.Pairwise (· < ·))
    (h : ∀ c, c ∈ as ↔ c ∈ bs) : ofList as = bs :=
  eq_of_mem_iff (pairwise_ofList as) hb fun c => mem_ofList.trans (h c)

/-- Inserting a member changes nothing. -/
theorem insert_of_mem {a : α} {as : List α} (h : as.Pairwise (· < ·)) (ha : a ∈ as) :
    insert a as = as := by
  apply eq_of_mem_iff (pairwise_insert h) h
  intro b
  rw [mem_insert]
  constructor
  · rintro (rfl | hb)
    · exact ha
    · exact hb
  · exact Or.inr

end SpriteTables.Ascending
