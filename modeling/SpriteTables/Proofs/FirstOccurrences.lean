/-!
# First occurrences

Records and table names are kept in the order in which they first appear. This module holds what
that order does when a list grows at its end (`eraseDups_concat`), and when it is made of groups
(`eraseDups_flatMap`).
-/

set_option autoImplicit false

namespace SpriteTables

variable {α : Type} [DecidableEq α]

/-- The first occurrences are pairwise different. -/
theorem nodup_eraseDups (as : List α) : as.eraseDups.Nodup := by
  match as with
  | [] => exact List.nodup_nil
  | a :: rest =>
      have hshorter : (rest.filter fun b => !b == a).length < rest.length + 1 :=
        Nat.lt_succ_of_le (List.length_filter_le _ _)
      rw [List.eraseDups_cons, List.nodup_cons]
      refine ⟨fun hmem => ?_, nodup_eraseDups _⟩
      rw [List.mem_eraseDups, List.mem_filter] at hmem
      simp at hmem
termination_by as.length

/-- Pairwise different elements are all first occurrences. -/
theorem eraseDups_eq_self {as : List α} (h : as.Nodup) : as.eraseDups = as := by
  induction as with
  | nil => rfl
  | cons a rest ih =>
      obtain ⟨ha, hrest⟩ := List.nodup_cons.mp h
      have hkeep : (rest.filter fun b => !b == a) = rest := by
        apply List.filter_eq_self.mpr
        intro b hb
        have hne : b ≠ a := fun hba => ha (hba ▸ hb)
        simpa using hne
      rw [List.eraseDups_cons, hkeep, ih hrest]

/-- Elements that are there already add no first occurrence. -/
theorem eraseDups_append_of_subset {as bs : List α} (h : bs ⊆ as) :
    (as ++ bs).eraseDups = as.eraseDups := by
  have hgone : bs.removeAll as = [] :=
    List.filter_eq_nil_iff.mpr fun b hb => by simpa using h hb
  rw [List.eraseDups_append, hgone, List.eraseDups_nil, List.append_nil]

/-- What an extension adds depends on the first occurrences alone. -/
theorem eraseDups_append_congr {as bs cs : List α} (h : as.eraseDups = bs.eraseDups) :
    (as ++ cs).eraseDups = (bs ++ cs).eraseDups := by
  have hsame : cs.removeAll as = cs.removeAll bs := by
    apply List.filter_congr
    intro c _
    have hmem : c ∈ as ↔ c ∈ bs := by rw [← List.mem_eraseDups, h, List.mem_eraseDups]
    simp [hmem]
  rw [List.eraseDups_append, List.eraseDups_append, h, hsame]

/-- One more element is a first occurrence unless it is there already. -/
theorem eraseDups_concat (as : List α) (a : α) :
    (as ++ [a]).eraseDups = if a ∈ as then as.eraseDups else as.eraseDups ++ [a] := by
  split
  · next h => exact eraseDups_append_of_subset (by simpa using h)
  · next h =>
      have hstay : [a].removeAll as = [a] :=
        List.filter_eq_self.mpr fun b hb => by simpa [List.mem_singleton.mp hb] using h
      rw [List.eraseDups_append, hstay, eraseDups_eq_self (List.pairwise_singleton _ _)]

/-- A nonempty stretch of one element at the end counts once. -/
theorem eraseDups_append_of_forall {as bs : List α} {a : α} (hne : bs ≠ [])
    (h : ∀ b ∈ bs, b = a) :
    (as ++ bs).eraseDups = (as ++ [a]).eraseDups := by
  cases bs with
  | nil => exact absurd rfl hne
  | cons b rest =>
      obtain rfl : b = a := h b List.mem_cons_self
      rw [List.append_cons, eraseDups_append_of_subset]
      intro c hc
      rw [h c (List.mem_cons_of_mem _ hc)]
      exact List.mem_append_right _ List.mem_cons_self

/-- Of groups, each nonempty and made of its own element, the first occurrences
are those elements. -/
theorem eraseDups_flatMap {names : List α} {group : α → List α} (hnodup : names.Nodup)
    (hne : ∀ name ∈ names, group name ≠ []) (h : ∀ name ∈ names, ∀ b ∈ group name, b = name) :
    (names.flatMap group).eraseDups = names := by
  -- the groups may stand after any other elements, which the induction needs
  have key : ∀ before : List α,
      (before ++ names.flatMap group).eraseDups = (before ++ names).eraseDups := by
    induction names with
    | nil => intro before; rfl
    | cons name rest ih =>
        intro before
        have ih := ih (List.nodup_cons.mp hnodup).2
          (fun n hn => hne n (List.mem_cons_of_mem _ hn))
          (fun n hn => h n (List.mem_cons_of_mem _ hn))
        rw [List.flatMap_cons, ← List.append_assoc, ih, List.append_cons before name rest]
        exact eraseDups_append_congr
          (eraseDups_append_of_forall (hne name List.mem_cons_self) (h name List.mem_cons_self))
  have hkey := key []
  rw [List.nil_append, List.nil_append] at hkey
  rw [hkey, eraseDups_eq_self hnodup]

end SpriteTables
