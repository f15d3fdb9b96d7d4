import SpriteTables.Log

/-!
# Steps that may fail

Reading and placing are chains of steps, and a chain succeeds when each step does. This module
says so once for plain steps (`bind_eq_ok_iff`) and for steps that leave remarks
(`Logged.andThen_eq_ok_iff`).
-/

set_option autoImplicit false

namespace SpriteTables

variable {ε δ α β : Type}

/-- A chain of two steps succeeds when each of them does. -/
theorem bind_eq_ok_iff {x : Except ε α} {f : α → Except ε β} {b : β} :
    x.bind f = .ok b ↔ ∃ a, x = .ok a ∧ f a = .ok b := by
  cases x with
  | error e =>
      constructor
      · intro h
        cases h
      · rintro ⟨a, ha, -⟩
        cases ha
  | ok a =>
      constructor
      · intro h
        exact ⟨a, rfl, h⟩
      · rintro ⟨_, ha, hb⟩
        cases ha
        exact hb

/-- A chain of two steps fails when one of them does. -/
theorem bind_eq_error_iff {x : Except ε α} {f : α → Except ε β} {e : ε} :
    x.bind f = .error e ↔ x = .error e ∨ ∃ a, x = .ok a ∧ f a = .error e := by
  cases x with
  | error e' => simp [Except.bind]
  | ok a => simp [Except.bind]

/-- A step whose result is changed succeeds as before. -/
theorem map_eq_ok_iff {x : Except ε α} {f : α → β} {b : β} :
    x.map f = .ok b ↔ ∃ a, x = .ok a ∧ f a = b := by
  cases x with
  | error e => simp [Except.map]
  | ok a => simp [Except.map]

/-- A step whose result is changed fails as before. -/
theorem map_eq_error_iff {x : Except ε α} {f : α → β} {e : ε} :
    x.map f = .error e ↔ x = .error e := by
  cases x with
  | error e' => simp [Except.map]
  | ok a => simp [Except.map]

namespace Logged

theorem andThen_eq_ok_iff {first : Logged (Except ε α)} {next : α → Logged (Except ε β)} {b : β} :
    (first.andThen next).value = .ok b ↔
      ∃ a, first.value = .ok a ∧ (next a).value = .ok b := by
  rw [← bind_eq_ok_iff, andThen]
  cases first.value <;> exact Iff.rfl

theorem mapError_eq_ok_iff {step : Logged (Except ε α)} {f : ε → δ} {a : α} :
    (step.mapError f).value = .ok a ↔ step.value = .ok a := by
  obtain ⟨log, value⟩ := step
  cases value with
  | error e =>
      constructor
      · intro h
        cases h
      · intro h
        cases h
  | ok found =>
      constructor
      · intro h
        cases h
        rfl
      · intro h
        cases h
        rfl

theorem mapError_eq_error_iff {step : Logged (Except ε α)} {f : ε → δ} {e : δ} :
    (step.mapError f).value = .error e ↔ ∃ e', step.value = .error e' ∧ f e' = e := by
  obtain ⟨log, value⟩ := step
  cases value with
  | error e' =>
      constructor
      · intro h
        cases h
        exact ⟨e', rfl, rfl⟩
      · rintro ⟨_, he, rfl⟩
        cases he
        rfl
  | ok found =>
      constructor
      · intro h
        cases h
      · rintro ⟨_, he, -⟩
        cases he

end Logged

end SpriteTables
