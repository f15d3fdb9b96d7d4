/-!
# Entries by key

A list of pairs keeps at most one value for each key, in the order in which the keys first
appeared. A value that is put under a key replaces the previous one in its place, and all other
keys keep theirs (`lookup_put`).
-/

set_option autoImplicit false

namespace SpriteTables.Entries

variable {κ υ : Type} [DecidableEq κ]

/-- Replaces the value of a key, or appends the key. -/
def put (key : κ) (value : υ) : List (κ × υ) → List (κ × υ)
  | [] => [(key, value)]
  | entry :: rest =>
      if key = entry.1 then (key, value) :: rest else entry :: put key value rest

variable [BEq κ] [LawfulBEq κ]

/-- A look-up compares with the first key and goes on only when that differs. -/
theorem lookup_cons (entry : κ × υ) (rest : List (κ × υ)) (other : κ) :
    (entry :: rest).lookup other = if other = entry.1 then some entry.2 else rest.lookup other := by
  obtain ⟨key, value⟩ := entry
  by_cases hother : other = key
  · simp [hother]
  · have hbeq : (other == key) = false := beq_eq_false_iff_ne.mpr hother
    simp [List.lookup_cons, hbeq, hother]

theorem lookup_put (key other : κ) (value : υ) (entries : List (κ × υ)) :
    (put key value entries).lookup other =
      if other = key then some value else entries.lookup other := by
  induction entries with
  | nil => rw [put, lookup_cons]
  | cons entry rest ih =>
      rw [put]
      split
      · next hkey =>
          subst hkey
          rw [lookup_cons, lookup_cons]
          split <;> rfl
      · next hkey =>
          rw [lookup_cons, lookup_cons, ih]
          split
          · next hother =>
              rw [if_neg]
              exact fun hsame => hkey (hsame.symm.trans hother)
          · rfl

/-- To replace a value leaves all keys. -/
theorem map_fst_put {key : κ} {value previous : υ} {entries : List (κ × υ)}
    (h : entries.lookup key = some previous) :
    (put key value entries).map Prod.fst = entries.map Prod.fst := by
  induction entries with
  | nil => cases h
  | cons entry rest ih =>
      rw [put]
      split
      · next hkey => rw [List.map_cons, List.map_cons, hkey]
      · next hkey =>
          rw [lookup_cons, if_neg hkey] at h
          rw [List.map_cons, List.map_cons, ih h]

end SpriteTables.Entries
