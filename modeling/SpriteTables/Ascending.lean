/-!
# Ascending lists

Label sets and index sets are kept as strictly ascending lists without repetition, so that a set
has one form and its order is the order of output. Insertion into such a list neither loses nor
invents a member (`mem_insert`), and neither does sorting a list into one (`mem_ofList`).
-/

set_option autoImplicit false

namespace SpriteTables.Ascending

variable {α : Type} [LT α] [DecidableLT α] [DecidableEq α]

/-- Puts an element in its place, unless it is there already. -/
def insert (a : α) : List α → List α
  | [] => [a]
  | b :: rest =>
      if a = b then b :: rest
      else if a < b then a :: b :: rest
      else b :: insert a rest

/-- The members of a list in ascending order, each once. -/
def ofList (as : List α) : List α :=
  as.foldr insert []

@[simp] theorem mem_insert {a b : α} {as : List α} :
    b ∈ insert a as ↔ b = a ∨ b ∈ as := by
  induction as with
  | nil => simp [insert]
  | cons c rest ih =>
      rw [insert]
      split
      · next h =>
          subst h
          constructor
          · intro hmem
            exact Or.inr hmem
          · rintro (rfl | hmem)
            · exact List.mem_cons_self
            · exact hmem
      · split
        · simp
        · simp only [List.mem_cons, ih]
          constructor
          · rintro (hc | ha | hrest)
            · exact Or.inr (Or.inl hc)
            · exact Or.inl ha
            · exact Or.inr (Or.inr hrest)
          · rintro (ha | hc | hrest)
            · exact Or.inr (Or.inl ha)
            · exact Or.inl hc
            · exact Or.inr (Or.inr hrest)

@[simp] theorem mem_ofList {b : α} {as : List α} : b ∈ ofList as ↔ b ∈ as := by
  induction as with
  | nil => simp [ofList]
  | cons a rest ih =>
      have hstep : ofList (a :: rest) = insert a (ofList rest) := rfl
      rw [hstep, mem_insert, ih, List.mem_cons]

end SpriteTables.Ascending
