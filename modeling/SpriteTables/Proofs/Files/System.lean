import Mathlib.Data.List.Basic
import SpriteTables.Files.Tree
import SpriteTables.Proofs.Files.Calls
import SpriteTables.Proofs.Steps

/-!
# File systems

Programs use files by path and know nothing else about them. Two things hold of all files:
what a path is read as changes only by writes, and a write that is not refused, to a file
that could be read, replaces the text of this file and of no other. What a refused write
leaves is not said. Stores in memory and trees of files are such systems.

## What this module delivers

- `FileSystem`: reading and writing with these two properties.
- `run_read_bind`: a program that begins with reading.
- `Store.system`: a store in which any set of paths refuses.
- `Tree.lead`, `Tree.follow_append`, `Tree.lead_of_writePlace`: the place that a path leads
  to, and that a write goes there.
- `Tree.Replaces`, `Tree.replaces_of_write`: a tree after a write.
- `Tree.system`: a tree of files.
-/

set_option autoImplicit false

namespace SpriteTables.Files

/-- Files that are read and written by path. `look` says what a path is read as, and reading
changes no file. `OneFile` relates the paths that lead to one file; a path that can be read leads
to one. After a write to such a path its file has the text by every path, and all other files are
as before. -/
structure FileSystem (σ : Type) extends FileAccess (StateM σ) where
  look : σ → String → Except ReadFault String
  run_read : ∀ files path, (read path).run files = (look files path, files)
  OneFile : σ → String → String → Prop
  oneFile_self : ∀ {files : σ} {path text : String},
    look files path = .ok text → OneFile files path path
  look_of_oneFile : ∀ {files later : σ} {path other text old : String},
    look files path = .ok old → (write path text).run files = (.ok (), later) →
      OneFile files path other → look later other = .ok text
  look_of_not_oneFile : ∀ {files later : σ} {path other text old : String},
    look files path = .ok old → (write path text).run files = (.ok (), later) →
      ¬ OneFile files path other → look later other = look files other

/-- A program that begins with reading goes on with the answer. -/
theorem FileSystem.run_read_bind {σ α : Type} (fs : FileSystem σ) (files : σ) (path : String)
    (next : Except ReadFault String → StateM σ α) :
    (fs.read path >>= next).run files = (next (fs.look files path)).run files := by
  rw [StateT.run_bind, fs.run_read]
  rfl

/-! ## Stores in memory -/

/-- A write that is not refused replaces the artifact at its path. -/
theorem write_of_run_write_denying {denials : Denials} {store later : Store}
    {path text : String}
    (h : ((Store.denying denials).write path text).run store = (.ok (), later)) :
    later = store.write path text := by
  cases hdenied : denials.writes path with
  | true =>
      simp only [Store.denying, hdenied, if_true] at h
      cases h
  | false =>
      simp only [Store.denying, hdenied, Bool.false_eq_true, if_false] at h
      cases h
      rfl

/-- A store in which any set of paths refuses. -/
def Store.system (denials : Denials) : FileSystem Store where
  toFileAccess := Store.denying denials
  look := Store.look denials
  run_read := run_read_denying denials
  OneFile _ path other := PathKey.of other = PathKey.of path ∧ denials.reads other = false
  oneFile_self := by
    intro store path text hlook
    refine ⟨rfl, ?_⟩
    cases hreads : denials.reads path with
    | false => rfl
    | true =>
        rw [Store.look, if_pos hreads] at hlook
        cases hlook
  look_of_oneFile := by
    rintro store later path other text old - hwrite ⟨hkey, hreads⟩
    rw [write_of_run_write_denying hwrite, Store.look, Store.get?_write, if_pos hkey, hreads]
    rfl
  look_of_not_oneFile := by
    intro store later path other text old _ hwrite hother
    rw [write_of_run_write_denying hwrite]
    by_cases hkey : PathKey.of other = PathKey.of path
    · -- the artifact is the same, but it cannot be read by this path
      have hreads : denials.reads other = true := by
        cases hreads : denials.reads other with
        | true => rfl
        | false => exact absurd ⟨hkey, hreads⟩ hother
      rw [Store.look, Store.look, if_pos hreads, if_pos hreads]
    · exact look_write_of_ne hkey denials text

/-! ## Trees of files -/

namespace Tree

variable {tree later : Tree} {path other text : String} {place directory : Place}
  {content : Content}

/-- The place that a path leads to. -/
def lead (tree : Tree) (path : String) : Except ReadFault Place :=
  match components? path with
  | none => .error .missing
  | some components => tree.follow [] components

/-- What is read at a place. -/
def readAt (tree : Tree) (place : Place) : Except ReadFault String :=
  match tree.file? place with
  | some (.text text) => .ok text
  | some .binary => .error (.refused notText)
  | none => .error (if tree.isDirectory place then .refused isADirectory else .missing)

theorem read_eq (tree : Tree) (path : String) :
    tree.read path = (tree.lead path).bind tree.readAt := by
  rw [read, lead]
  cases components? path <;> rfl

/-- A path is followed through its beginning first. -/
theorem follow_append {front : List String} (back : List String)
    (h : tree.follow place front = .ok directory) :
    tree.follow place (front ++ back) = tree.follow directory back := by
  induction front generalizing place with
  | nil =>
      cases h
      rfl
  | cons component rest ih =>
      rw [follow] at h
      obtain ⟨entered, henter, h⟩ := bind_eq_ok_iff.mp h
      rw [List.cons_append, follow, henter]
      show (if isStay component = true then _ else _) = _
      by_cases hstay : isStay component = true
      · rw [if_pos hstay] at h ⊢
        exact ih h
      · rw [if_neg hstay] at h ⊢
        by_cases hname : (!isLeave component) = true
        · rw [if_pos hname] at h ⊢
          exact ih h
        · rw [if_neg hname] at h ⊢
          by_cases hbelow : place ≠ []
          · rw [if_pos hbelow] at h ⊢
            exact ih h
          · -- nothing is reached above the working directory
            rw [if_neg hbelow] at h
            split at h <;> cases h

/-- The last component of a path to a file is a name, and the others lead to its directory. -/
theorem exists_name_of_endsInDirectory {components : List String}
    (h : endsInDirectory components = false) :
    ∃ front name, components = front ++ [name] ∧ parentsOf components = front ∧
      isStay name = false ∧ isLeave name = false := by
  rcases List.eq_nil_or_concat' components with rfl | ⟨front, name, rfl⟩
  · cases h
  · rw [endsInDirectory, List.getLast?_concat, Option.all_some, Bool.or_eq_false_iff] at h
    have hname : name ≠ "" := by
      rintro rfl
      exact absurd h.1 (by decide)
    refine ⟨front, name, rfl, ?_, h⟩
    simp [parentsOf, hname]

/-- A write goes to the place that its path leads to. -/
theorem lead_of_writePlace (h : tree.writePlace path = .ok place) : tree.lead path = .ok place := by
  rw [writePlace] at h
  rw [lead]
  cases hcomponents : components? path with
  | none =>
      rw [hcomponents] at h
      cases h
  | some components =>
      rw [hcomponents] at h
      obtain ⟨directory, hfollow, h⟩ := bind_eq_ok_iff.mp h
      obtain ⟨entered, henter, h⟩ := bind_eq_ok_iff.mp h
      simp only at h
      split at h
      · cases h
      · next hfile =>
          rw [Bool.not_eq_true, Bool.or_eq_false_iff] at hfile
          obtain ⟨front, name, rfl, hparents, hstay, hleave⟩ :=
            exists_name_of_endsInDirectory hfile.1
          cases h
          -- the write enters the directory and adds the name; following the path does so, too
          rw [hparents] at hfollow
          show tree.follow [] (front ++ [name]) = _
          rw [follow_append [name] hfollow, follow, henter, List.getLast?_concat]
          show (if isStay name = true then _ else _) = _
          simp [hstay, hleave, follow]

/-! ### A file that is replaced -/

/-- A tree in which a file that was there is replaced. -/
structure Replaces (tree later : Tree) (place : Place) (content : Content) : Prop where
  isSome : (tree.file? place).isSome = true
  files : later.files = Entries.put place content tree.files

namespace Replaces

theorem file? (h : Replaces tree later place content) (other : Place) :
    later.file? other = if other = place then some content else tree.file? other := by
  rw [Tree.file?, Tree.file?, h.files, Entries.lookup_put]

theorem isDirectory (h : Replaces tree later place content) (other : Place) :
    later.isDirectory other = tree.isDirectory other := by
  obtain ⟨previous, hprevious⟩ := Option.isSome_iff_exists.mp h.isSome
  -- directories are told by the places of files
  have hplaces : ∀ tree : Tree, tree.isDirectory other =
      (other == [] || (tree.files.map Prod.fst).any fun place =>
        other.isPrefixOf place && other != place) := by
    intro tree
    rw [Tree.isDirectory, List.any_map]
    rfl
  rw [hplaces, hplaces, h.files, Entries.map_fst_put hprevious]

theorem enter (h : Replaces tree later place content) (other : Place) :
    later.enter other = tree.enter other := by
  have hfile : (later.file? other).isSome = (tree.file? other).isSome := by
    rw [h.file?]
    split
    · next hother => rw [hother, h.isSome]; rfl
    · rfl
  rw [Tree.enter, Tree.enter, h.isDirectory, hfile]

/-- Every path leads where it led. -/
theorem follow (h : Replaces tree later place content) (components : List String)
    (start : Place) : later.follow start components = tree.follow start components := by
  induction components generalizing start with
  | nil => rfl
  | cons component rest ih => simp only [Tree.follow, h.enter, ih]

theorem lead (h : Replaces tree later place content) (path : String) :
    later.lead path = tree.lead path := by
  rw [Tree.lead, Tree.lead]
  cases components? path with
  | none => rfl
  | some components => exact h.follow components []

/-- At every other place there is what was there before. -/
theorem readAt (h : Replaces tree later place content) {other : Place} (hother : other ≠ place) :
    later.readAt other = tree.readAt other := by
  rw [Tree.readAt, Tree.readAt, h.file?, if_neg hother, h.isDirectory]

end Replaces

/-- A write with a place replaces the file there or adds it. -/
theorem run_write_of_writePlace (h : tree.writePlace path = .ok place) (text : String) :
    (access.write path text).run tree = (.ok (), ⟨Entries.put place (.text text) tree.files⟩) := by
  have hwrite : tree.write path text = .ok ⟨Entries.put place (.text text) tree.files⟩ := by
    rw [write, h]
    rfl
  simp [access, hwrite]
  rfl

/-- A write without a place is refused. -/
theorem run_write_of_error {fault : ReadFault} (h : tree.writePlace path = .error fault)
    (text : String) : (access.write path text).run tree = (.error fault.cause, tree) := by
  have hwrite : tree.write path text = .error fault := by
    rw [write, h]
    rfl
  simp [access, hwrite]
  rfl

/-- A write to a path that can be read replaces the file there. -/
theorem replaces_of_write {old : String} (hread : tree.read path = .ok old)
    (hwrite : (access.write path text).run tree = (.ok (), later)) :
    ∃ place, tree.lead path = .ok place ∧ Replaces tree later place (.text text) := by
  cases hplace : tree.writePlace path with
  | error fault =>
      rw [run_write_of_error hplace] at hwrite
      cases hwrite
  | ok place =>
      rw [run_write_of_writePlace hplace] at hwrite
      cases hwrite
      have hlead := lead_of_writePlace hplace
      rw [read_eq, hlead] at hread
      refine ⟨place, hlead, ?_, rfl⟩
      cases hfile : tree.file? place with
      | some content => rfl
      | none =>
          have hnone : tree.readAt place = .ok old := hread
          rw [readAt, hfile] at hnone
          cases hnone

end Tree

/-- The files of a tree. -/
def Tree.system : FileSystem Tree where
  toFileAccess := Tree.access
  look := Tree.read
  run_read _ _ := rfl
  OneFile tree path other := ∃ place, tree.lead path = .ok place ∧ tree.lead other = .ok place
  oneFile_self := by
    intro tree path text hread
    rw [Tree.read_eq] at hread
    obtain ⟨place, hlead, -⟩ := bind_eq_ok_iff.mp hread
    exact ⟨place, hlead, hlead⟩
  look_of_oneFile := by
    rintro tree later path other text old hread hwrite ⟨place, hpath, hother⟩
    obtain ⟨place', hpath', hreplaces⟩ := Tree.replaces_of_write hread hwrite
    -- the other path still leads there, as no path leads elsewhere after a write
    obtain rfl : place = place' := Except.ok.inj (hpath.symm.trans hpath')
    rw [Tree.read_eq, hreplaces.lead, hother]
    show later.readAt place = _
    rw [Tree.readAt, hreplaces.file?, if_pos rfl]
  look_of_not_oneFile := by
    intro tree later path other text old hread hwrite hother
    obtain ⟨place, hpath, hreplaces⟩ := Tree.replaces_of_write hread hwrite
    rw [Tree.read_eq, Tree.read_eq, hreplaces.lead]
    cases hlead : tree.lead other with
    | error fault => rfl
    | ok place' =>
        have hdiffer : place' ≠ place := by
          rintro rfl
          exact hother ⟨place', hpath, hlead⟩
        exact hreplaces.readAt hdiffer

end SpriteTables.Files
