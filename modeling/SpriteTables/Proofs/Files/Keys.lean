import SpriteTables.Files.Path
import SpriteTables.Proofs.Text.Joined
import SpriteTables.Proofs.Text.Places

/-!
# Keys of joined paths

A relative path under a root directory has the components of the root and then its own, of which
those that do not count are left out. So two relative paths name one file under a root exactly
when the same components count in them, whatever the root is (`of_join_eq_iff`). Two paths in
which every component counts name one file only if they are written alike
(`of_join_eq_iff_of_isTidy`).
-/

set_option autoImplicit false

namespace SpriteTables.Files

open PathKey (significant)

section Components

variable {path other first : String} {rest : List String}

theorem componentsOf_ne_nil (path : String) : componentsOf path ≠ [] := by
  rw [componentsOf, ne_eq, List.map_eq_nil_iff]
  exact List.splitOn_ne_nil _ _

/-- What a slash divides has the components before it and those after it. -/
theorem componentsOf_of_slash {whole before after : String}
    (h : whole.toList = before.toList ++ '/' :: after.toList) :
    componentsOf whole = componentsOf before ++ componentsOf after := by
  rw [componentsOf, componentsOf, componentsOf, h, List.splitOn_append_cons_self,
    List.map_append]

/-- Paths with the same components are written alike. -/
theorem eq_of_componentsOf_eq (h : componentsOf path = componentsOf other) : path = other := by
  have hpieces : path.toList.splitOn '/' = other.toList.splitOn '/' :=
    (List.map_inj_right fun _ _ => String.ofList_inj.mp).mp h
  have hjoined : ∀ cs : List Char, ['/'].intercalate (cs.splitOn '/') = cs :=
    fun _ => List.intercalate_splitOn _
  rw [← String.toList_inj, ← hjoined path.toList, hpieces, hjoined]

/-- A path that begins with a slash has an empty component in front. -/
theorem componentsOf_of_isAbsolute (h : isAbsolute path = true) :
    ∃ rest, componentsOf path = "" :: rest := by
  obtain ⟨cs, hcs⟩ : ∃ cs, path.toList = '/' :: cs := by
    rw [isAbsolute, beq_iff_eq] at h
    exact List.head?_eq_some_iff.mp h
  rw [componentsOf, hcs, List.splitOn_cons_eq_if_modifyHead, if_pos (beq_self_eq_true '/')]
  exact ⟨_, rfl⟩

theorem significant_append (front back : List String) :
    significant (front ++ back) = significant front ++ significant back :=
  List.filter_append ..

/-- What the first component adds to the key of a path: a dot in front of a relative path
counts. -/
def lead (absolute : Bool) (first : String) : List String :=
  if absolute = false ∧ first = "." then ["."] else significant [first]

/-- The key of a path, by its first component and the others. -/
theorem of_eq (h : componentsOf path = first :: rest) :
    PathKey.of path =
      ⟨isAbsolute path, lead (isAbsolute path) first ++ significant rest⟩ := by
  have hall : significant (first :: rest) = significant [first] ++ significant rest :=
    significant_append [first] rest
  rw [PathKey.of, h, lead]
  cases isAbsolute path with
  | true => simp [hall]
  | false =>
      by_cases hdot : first = "."
      · subst hdot
        rfl
      · simp [hdot, hall]

end Components

/-! ## Paths under a root -/

section Joined

variable {root path other : String}

theorem isAbsolute_append (hroot : root ≠ "") (rest : String) :
    isAbsolute (root ++ rest) = isAbsolute root := by
  have hne : root.toList ≠ [] := by
    intro hnil
    exact hroot (String.toList_eq_nil_iff.mp hnil)
  obtain ⟨c, cs, hcs⟩ := List.exists_cons_of_ne_nil hne
  rw [isAbsolute, isAbsolute, String.toList_append, hcs, List.cons_append, List.head?_cons,
    List.head?_cons]

/-- A relative path under a root adds its components to the key of the root. -/
theorem of_join (hroot : root ≠ "") (hpath : isAbsolute path = false) :
    PathKey.of (join root path) = ⟨(PathKey.of root).absolute,
      (PathKey.of root).components ++ significant (componentsOf path)⟩ := by
  have hinside : (isAbsolute path || root.isEmpty) = false := by
    simp [hpath, hroot]
  rw [join, hinside, if_neg Bool.false_ne_true]
  split
  · next hslash =>
      -- the final slash of the root leaves an empty component, which does not count
      obtain ⟨front, hfront⟩ := List.getLast?_eq_some_iff.mp hslash
      obtain ⟨first, rest, hfirst⟩ :=
        List.exists_cons_of_ne_nil (componentsOf_ne_nil (String.ofList front))
      have hwhole : componentsOf root = first :: (rest ++ [""]) := by
        have hsplit : componentsOf root = componentsOf (String.ofList front) ++ componentsOf "" :=
          componentsOf_of_slash (by simpa using hfront)
        rw [hsplit, hfirst]
        rfl
      have hjoined : componentsOf (root ++ path) = first :: (rest ++ componentsOf path) := by
        have hsplit : componentsOf (root ++ path) =
            componentsOf (String.ofList front) ++ componentsOf path :=
          componentsOf_of_slash (by simp [hfront])
        rw [hsplit, hfirst, List.cons_append]
      have hempty : significant [""] = [] := rfl
      rw [of_eq hwhole, of_eq hjoined, isAbsolute_append hroot, significant_append,
        significant_append, hempty, List.append_nil, List.append_assoc]
  · obtain ⟨first, rest, hfirst⟩ := List.exists_cons_of_ne_nil (componentsOf_ne_nil root)
    have hjoined : componentsOf (root ++ "/" ++ path) =
        first :: (rest ++ componentsOf path) := by
      have hsplit : componentsOf (root ++ "/" ++ path) = componentsOf root ++ componentsOf path :=
        componentsOf_of_slash (by simp)
      rw [hsplit, hfirst, List.cons_append]
    rw [of_eq hfirst, of_eq hjoined, String.append_assoc, isAbsolute_append hroot,
      significant_append, List.append_assoc]

/-- Two relative paths name one file under a root exactly when the same components count in
both. -/
theorem of_join_eq_iff (hroot : root ≠ "") (hpath : isAbsolute path = false)
    (hother : isAbsolute other = false) :
    PathKey.of (join root path) = PathKey.of (join root other) ↔
      significant (componentsOf path) = significant (componentsOf other) := by
  rw [of_join hroot hpath, of_join hroot hother, PathKey.mk.injEq]
  constructor
  · rintro ⟨-, hcomponents⟩
    exact List.append_cancel_left hcomponents
  · intro hsame
    exact ⟨rfl, congrArg _ hsame⟩

end Joined

/-! ## Tidy paths -/

/-- Every component of a path counts: none is empty or a dot. -/
def IsTidy (path : String) : Prop :=
  ∀ component ∈ componentsOf path, component ≠ "" ∧ component ≠ "."

instance (path : String) : Decidable (IsTidy path) :=
  inferInstanceAs (Decidable (∀ component ∈ componentsOf path, _))

section Tidy

variable {path other : String}

theorem IsTidy.significant_eq (h : IsTidy path) :
    significant (componentsOf path) = componentsOf path :=
  List.filter_eq_self.mpr fun component hcomponent => decide_eq_true (h component hcomponent)

/-- A tidy path is relative. -/
theorem IsTidy.isAbsolute_eq (h : IsTidy path) : isAbsolute path = false := by
  apply Bool.eq_false_iff.mpr
  intro habsolute
  obtain ⟨rest, hcomponents⟩ := componentsOf_of_isAbsolute habsolute
  have hempty := h "" (by rw [hcomponents]; exact List.mem_cons_self)
  exact hempty.1 rfl

/-- The key of a tidy path are its components. -/
theorem IsTidy.of_eq (h : IsTidy path) : PathKey.of path = ⟨false, componentsOf path⟩ := by
  obtain ⟨first, rest, hfirst⟩ := List.exists_cons_of_ne_nil (componentsOf_ne_nil path)
  have hdot : first ≠ "." := (h first (by rw [hfirst]; exact List.mem_cons_self)).2
  rw [Files.of_eq hfirst, h.isAbsolute_eq, lead, if_neg (by simp [hdot]), ← significant_append,
    List.singleton_append, ← hfirst, h.significant_eq]

/-- Two tidy paths name one file under a root exactly when they are written alike. -/
theorem of_join_eq_iff_of_isTidy (hpath : IsTidy path) (hother : IsTidy other) (root : String) :
    PathKey.of (join root path) = PathKey.of (join root other) ↔ path = other := by
  constructor
  · intro hsame
    apply eq_of_componentsOf_eq
    by_cases hroot : root = ""
    · subst hroot
      rw [join, join, if_pos (by simp), if_pos (by simp), hpath.of_eq, hother.of_eq] at hsame
      exact congrArg PathKey.components hsame
    · rwa [of_join_eq_iff hroot hpath.isAbsolute_eq hother.isAbsolute_eq, hpath.significant_eq,
        hother.significant_eq] at hsame
  · intro hsame
    rw [hsame]

end Tidy

end SpriteTables.Files
