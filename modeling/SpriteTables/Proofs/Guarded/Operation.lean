import SpriteTables.Diagnostic
import SpriteTables.Operand.Token
import SpriteTables.Proofs.Text.Places

/-!
# Operations that may fault

Most of what a minifier does has a result for all arguments. A few operations do not: sums and
products that must fit an address, differences that must not be negative, divisions, list
positions, the negation of a literal, and cuts of a text at a byte offset, which must fall between
two characters. In this module each of them is checked and gives a fault where it has no result. A
lemma for each says where it has one, and which (`add_eq`, `index_eq`, `sliceTo_eq`); computations
that do not fault can be put one after the other (`run_bind_eq`, `mapM_eq`).
-/

set_option autoImplicit false

namespace SpriteTables.Guarded

open Text (byteSize)

/-! ## Faults -/

/-- Why an operation has no result. On `overflow` a sum, product or difference is no address, or a
negation no literal. A position can be `outOfRange` of a list. A text is cut inside a character or
beyond its end, and a record needs a first word. -/
inductive Fault where
  | overflow
  | divisionByZero
  | outOfRange
  | splitCharacter
  | noHeader
deriving DecidableEq, Repr

/-- A computation that may fault. -/
abbrev Checked (α : Type) : Type :=
  Except Fault α

/-- A computation that may fault or be refused with a diagnostic. -/
abbrev Step (α : Type) : Type :=
  ExceptT Diagnostic Checked α

/-- A result that may be a diagnostic and is no fault. -/
def ofResult {α : Type} (result : Except Diagnostic α) : Step α :=
  ExceptT.mk (.ok result)

section Steps

variable {α β : Type}

@[simp] theorem run_ofResult (result : Except Diagnostic α) : (ofResult result).run = .ok result :=
  rfl

@[simp] theorem ok_bind (a : α) (f : α → Checked β) : (Except.ok a : Checked α) >>= f = f a :=
  rfl

/-- After a step that does not fault the next one goes on with its result. -/
theorem run_bind_eq {x : Step α} {f : α → Step β} {result : Except Diagnostic α}
    {g : α → Except Diagnostic β} (hx : x.run = .ok result)
    (hf : ∀ a, result = .ok a → (f a).run = .ok (g a)) :
    (x >>= f).run = .ok (result.bind g) := by
  rw [ExceptT.run_bind, hx]
  cases result with
  | error e => rfl
  | ok a => exact hf a rfl

/-- A step that does not fault, with its result changed. -/
theorem run_map_eq {x : Step α} {result : Except Diagnostic α} (g : α → β)
    (hx : x.run = .ok result) : (x >>= fun a => pure (g a)).run = .ok (result.map g) := by
  have hstep : (x >>= fun a => pure (g a)).run = .ok (result.bind fun a => .ok (g a)) :=
    run_bind_eq hx fun _ _ => rfl
  rw [hstep]
  cases result <;> rfl

/-- After a computation that does not fault the next step goes on with its result. -/
theorem run_lift_bind_eq {x : Checked α} {f : α → Step β} {a : α} (hx : x = .ok a) :
    ((liftM x : Step α) >>= f).run = (f a).run := by
  rw [hx]
  rfl

/-- Computations over a list none of which faults. -/
theorem mapM_eq {f : α → Checked β} {g : α → β} {xs : List α} (h : ∀ x ∈ xs, f x = .ok (g x)) :
    xs.mapM f = .ok (xs.map g) := by
  induction xs with
  | nil => rfl
  | cons x rest ih =>
      obtain ⟨hx, hrest⟩ := List.forall_mem_cons.mp h
      rw [List.mapM_cons, hx, ok_bind, ih hrest, ok_bind]
      rfl

end Steps

/-! ## Arithmetic -/

/-- A sum that must be an address. -/
def add (a b : Nat) : Checked Nat :=
  if a + b < sizeBound then .ok (a + b) else .error .overflow

/-- A product that must be an address. -/
def mul (a b : Nat) : Checked Nat :=
  if a * b < sizeBound then .ok (a * b) else .error .overflow

/-- A difference that must not be negative. -/
def sub (a b : Nat) : Checked Nat :=
  if b ≤ a then .ok (a - b) else .error .overflow

/-- A quotient. -/
def div (a b : Nat) : Checked Nat :=
  if b = 0 then .error .divisionByZero else .ok (a / b)

/-- A remainder. -/
def mod (a b : Nat) : Checked Nat :=
  if b = 0 then .error .divisionByZero else .ok (a % b)

/-- The negation of a literal, which must be one. -/
def negate (a : Int) : Checked Int :=
  if -(Token.numberBound : Int) ≤ -a ∧ -a < Token.numberBound then .ok (-a) else .error .overflow

section Arithmetic

variable {a b : Nat}

theorem add_eq (h : a + b < sizeBound) : add a b = .ok (a + b) :=
  if_pos h

theorem eq_of_add {c : Nat} (h : add a b = .ok c) : c = a + b := by
  rw [add] at h
  split at h
  · exact (Except.ok.inj h).symm
  · cases h

theorem mul_eq (h : a * b < sizeBound) : mul a b = .ok (a * b) :=
  if_pos h

theorem sub_eq (h : b ≤ a) : sub a b = .ok (a - b) :=
  if_pos h

theorem div_eq (h : 0 < b) : div a b = .ok (a / b) :=
  if_neg (Nat.ne_of_gt h)

theorem mod_eq (h : 0 < b) : mod a b = .ok (a % b) :=
  if_neg (Nat.ne_of_gt h)

/-- A literal that is not negative can be negated. -/
theorem negate_eq (h : a < Token.numberBound) : negate a = .ok (-(a : Int)) := by
  apply if_pos
  omega

end Arithmetic

/-! ## Positions -/

/-- The element at a position. -/
def index {α : Type} (xs : List α) (i : Nat) : Checked α :=
  match xs[i]? with
  | some x => .ok x
  | none => .error .outOfRange

theorem index_eq {α : Type} {xs : List α} {i : Nat} {x : α} (h : xs[i]? = some x) :
    index xs i = .ok x := by
  rw [index, h]

/-! ## Cuts of a text -/

/-- The two parts of a text before and after a number of bytes, unless this many bytes end
inside a character or beyond the text. -/
def cutAtByte? : Nat → List Char → Option (List Char × List Char)
  | 0, cs => some ([], cs)
  | _ + 1, [] => none
  | n + 1, c :: cs =>
      if n + 1 < c.utf8Size then none
      else (cutAtByte? (n + 1 - c.utf8Size) cs).map fun parts => (c :: parts.1, parts.2)

/-- The beginning of a text up to a byte offset. -/
def sliceTo (cs : List Char) (offset : Nat) : Checked (List Char) :=
  match cutAtByte? offset cs with
  | some parts => .ok parts.1
  | none => .error .splitCharacter

/-- The rest of a text from a byte offset on. -/
def sliceFrom (cs : List Char) (offset : Nat) : Checked (List Char) :=
  match cutAtByte? offset cs with
  | some parts => .ok parts.2
  | none => .error .splitCharacter

section Cuts

variable {before after cs : List Char}

/-- After the bytes of some characters a text is cut behind these. -/
theorem cutAtByte?_byteSize (before after : List Char) :
    cutAtByte? (byteSize before) (before ++ after) = some (before, after) := by
  induction before with
  | nil => simp [cutAtByte?]
  | cons c cs ih =>
      have hc : 0 < c.utf8Size := Char.utf8Size_pos c
      obtain ⟨n, hn⟩ : ∃ n, c.utf8Size + byteSize cs = n + 1 :=
        ⟨c.utf8Size + byteSize cs - 1, by omega⟩
      have hrest : n + 1 - c.utf8Size = byteSize cs := by omega
      rw [Text.byteSize_cons, hn, List.cons_append, cutAtByte?, if_neg (by omega), hrest, ih]
      rfl

/-- Where a text is cut the bytes of the beginning end. -/
theorem cutAtByte?_eq_some {offset : Nat} (h : cutAtByte? offset cs = some (before, after)) :
    cs = before ++ after ∧ byteSize before = offset := by
  induction cs generalizing offset before with
  | nil =>
      cases offset with
      | zero =>
          cases h
          exact ⟨rfl, rfl⟩
      | succ n => cases h
  | cons c cs ih =>
      cases offset with
      | zero =>
          cases h
          exact ⟨rfl, rfl⟩
      | succ n =>
          rw [cutAtByte?] at h
          split at h
          · cases h
          · obtain ⟨⟨front, rest⟩, hcut, hparts⟩ := Option.map_eq_some_iff.mp h
            cases hparts
            obtain ⟨rfl, hsize⟩ := ih hcut
            refine ⟨rfl, ?_⟩
            rw [Text.byteSize_cons, hsize]
            omega

/-- A text is the bytes before an offset and the rest from it on. -/
theorem byteSize_of_sliceFrom {offset : Nat} (h : sliceFrom cs offset = .ok after) :
    byteSize cs = offset + byteSize after := by
  rw [sliceFrom] at h
  split at h
  · next parts hcut =>
      cases h
      obtain ⟨hsplit, hsize⟩ := cutAtByte?_eq_some hcut
      rw [hsplit, Text.byteSize_append, hsize]
  · cases h

theorem sliceTo_eq {offset : Nat} (h : offset = byteSize before) :
    sliceTo (before ++ after) offset = .ok before := by
  rw [sliceTo, h, cutAtByte?_byteSize]

theorem sliceFrom_eq {offset : Nat} (h : offset = byteSize before) :
    sliceFrom (before ++ after) offset = .ok after := by
  rw [sliceFrom, h, cutAtByte?_byteSize]

end Cuts

end SpriteTables.Guarded
