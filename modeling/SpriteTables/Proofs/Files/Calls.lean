import SpriteTables.Files.Store

/-!
# Noted uses of files

Which files a program reads and writes, and in which order, is noted beside what it does with them
(`FileAccess.noting`). Noting changes nothing else (`Forgets`). A program that uses a store in
memory then comes to a result, to the calls it made and to the store it left (`Does`). Any set of
paths may refuse in such a store (`Denials`), and a write changes no answer about another path
(`look_write_of_ne`).
-/

set_option autoImplicit false

namespace SpriteTables.Files

/-! ## Calls -/

/-- One use of a file. -/
inductive Call where
  | read (path : String)
  | write (path text : String)
deriving DecidableEq, Repr

section Noting

variable {m : Type → Type} [Monad m] {α β : Type}

/-- An access that notes each call before it is made. -/
def FileAccess.noting (access : FileAccess m) : FileAccess (StateT (List Call) m) where
  read path := do
    modify (· ++ [.read path])
    access.read path
  write path text := do
    modify (· ++ [.write path text])
    access.write path text

/-- A noted program does what a plain one does, whatever was noted before. -/
def Forgets (noted : StateT (List Call) m α) (plain : m α) : Prop :=
  ∀ calls, Prod.fst <$> noted.run calls = plain

namespace Forgets

variable [LawfulMonad m]

theorem pure (a : α) : Forgets (pure a : StateT (List Call) m α) (pure a) := by
  intro calls
  simp

theorem bind {x : StateT (List Call) m α} {y : m α} {f : α → StateT (List Call) m β}
    {g : α → m β} (h : Forgets x y) (hnext : ∀ a, Forgets (f a) (g a)) :
    Forgets (x >>= f) (y >>= g) := by
  intro calls
  rw [← h calls, StateT.run_bind, map_bind, bind_map_left]
  apply bind_congr
  intro p
  exact hnext p.1 p.2

theorem read (access : FileAccess m) (path : String) :
    Forgets (access.noting.read path) (access.read path) := by
  intro calls
  simp [FileAccess.noting]

theorem write (access : FileAccess m) (path text : String) :
    Forgets (access.noting.write path text) (access.write path text) := by
  intro calls
  simp [FileAccess.noting]

end Forgets

end Noting

/-! ## Stores that refuse -/

/-- Which displayed paths refuse to be read or written, be they finitely many or not. -/
structure Denials where
  reads : String → Bool
  writes : String → Bool

/-- The paths that some lists name. -/
def Refusals.denials (refusals : Refusals) : Denials where
  reads path := decide (path ∈ refusals.reads)
  writes path := decide (path ∈ refusals.writes)

/-- The same paths refuse to be read, and none to be written. -/
def Denials.accepting (denials : Denials) : Denials where
  reads := denials.reads
  writes _ := false

/-- Reads and writes a store in which any set of paths refuses. -/
def Store.denying (denials : Denials) : FileAccess (StateM Store) where
  read path := do
    if denials.reads path then return .error (.refused refusal)
    match (← get).get? path with
    | some text => return .ok text
    | none => return .error .missing
  write path text := do
    if denials.writes path then return .error refusal
    modify (·.write path text)
    return .ok ()

/-- Paths that refuse because lists name them are such a set. -/
theorem access_eq_denying (refusals : Refusals) :
    Store.access refusals = Store.denying refusals.denials := by
  rw [Store.access, Store.denying]
  congr 1
  · funext path
    by_cases h : path ∈ refusals.reads
    · exact (if_pos h).trans (if_pos (decide_eq_true h)).symm
    · exact (if_neg h).trans (if_neg (by simpa [Refusals.denials] using h)).symm
  · funext path text
    by_cases h : path ∈ refusals.writes
    · exact (if_pos h).trans (if_pos (decide_eq_true h)).symm
    · exact (if_neg h).trans (if_neg (by simpa [Refusals.denials] using h)).symm

/-- What a store answers when a path is read. -/
def Store.look (denials : Denials) (store : Store) (path : String) : Except ReadFault String :=
  if denials.reads path then .error (.refused refusal)
  else
    match store.get? path with
    | some text => .ok text
    | none => .error .missing

/-- Reading gives the answer and leaves the store. -/
theorem run_read_denying (denials : Denials) (store : Store) (path : String) :
    ((Store.denying denials).read path).run store = (store.look denials path, store) := by
  rw [Store.look]
  cases hdenied : denials.reads path with
  | true =>
      simp only [Store.denying, hdenied, if_true]
      rfl
  | false =>
      cases hget : store.get? path with
      | none =>
          simp [Store.denying, hdenied, hget]
          rfl
      | some text =>
          simp [Store.denying, hdenied, hget]
          rfl

/-- A write changes no answer about another path. -/
theorem look_write_of_ne {store : Store} {path other : String}
    (h : PathKey.of other ≠ PathKey.of path) (denials : Denials) (text : String) :
    (store.write path text).look denials other = store.look denials other := by
  rw [Store.look, Store.look, Store.get?_write, if_neg h]

/-- A store after some writes, in their order. -/
def Store.writeAll (store : Store) (writes : List (String × String)) : Store :=
  writes.foldl (fun store write => store.write write.1 write.2) store

section Writes

variable {store : Store} {writes writes' : List (String × String)}

@[simp] theorem writeAll_nil : store.writeAll [] = store :=
  rfl

theorem writeAll_append :
    store.writeAll (writes ++ writes') = (store.writeAll writes).writeAll writes' := by
  rw [Store.writeAll, List.foldl_append]
  rfl

/-- A store remembers all of its writes. -/
theorem writes_writeAll : (store.writeAll writes).writes = store.writes ++ writes := by
  induction writes generalizing store with
  | nil => rw [writeAll_nil, List.append_nil]
  | cons write rest ih =>
      have hrest : ((store.write write.1 write.2).writeAll rest).writes =
          store.writes ++ [write] ++ rest := ih
      rw [List.append_cons]
      exact hrest

end Writes

section Does

variable {α β : Type} {store next final : Store} {calls calls' : List Call}

/-- A noted program, begun in a store, comes to a result, makes some calls and leaves a
store. -/
def Does (program : StateT (List Call) (StateM Store) α) (store : Store) (result : α)
    (calls : List Call) (final : Store) : Prop :=
  ∀ before, (program.run before).run store = ((result, before ++ calls), final)

namespace Does

theorem pure (a : α) : Does (pure a) store a [] store := by
  intro before
  rw [List.append_nil]
  rfl

theorem bind {program : StateT (List Call) (StateM Store) α} {a : α} {b : β}
    {f : α → StateT (List Call) (StateM Store) β} (h : Does program store a calls next)
    (hnext : Does (f a) next b calls' final) :
    Does (program >>= f) store b (calls ++ calls') final := by
  intro before
  rw [StateT.run_bind, StateT.run_bind, h before, ← List.append_assoc]
  exact hnext (before ++ calls)

/-- Reading a store answers what it holds and leaves it. -/
theorem read (denials : Denials) (store : Store) (path : String) :
    Does ((Store.denying denials).noting.read path) store (store.look denials path)
      [.read path] store := by
  intro before
  show (fun answer => ((answer.1, before ++ [.read path]), answer.2))
    (((Store.denying denials).read path).run store) = _
  rw [run_read_denying]

/-- A write that is refused leaves the store. -/
theorem write_denied {denials : Denials} {path : String} (h : denials.writes path = true)
    (store : Store) (text : String) :
    Does ((Store.denying denials).noting.write path text) store (.error Store.refusal)
      [.write path text] store := by
  intro before
  simp only [FileAccess.noting, Store.denying, h, if_true]
  rfl

/-- A write that is not refused changes the store. -/
theorem write {denials : Denials} {path : String} (h : denials.writes path = false)
    (store : Store) (text : String) :
    Does ((Store.denying denials).noting.write path text) store (.ok ()) [.write path text]
      (store.write path text) := by
  intro before
  simp only [FileAccess.noting, Store.denying, h, Bool.false_eq_true, if_false]
  rfl

/-- The plain program comes to the same result and leaves the same store. -/
theorem plain {noted : StateT (List Call) (StateM Store) α} {program : StateM Store α} {a : α}
    (h : Does noted store a calls final) (hforgets : Forgets noted program) :
    program.run store = (a, final) := by
  rw [← hforgets [], StateT.run_map, h []]
  rfl

end Does

end Does

end SpriteTables.Files
