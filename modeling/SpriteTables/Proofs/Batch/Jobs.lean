import Mathlib.Data.List.Nodup
import SpriteTables.Batch

/-!
# The jobs of a configuration without faults

A configuration without faults names no entity and no kind twice. So the name of an entity and
that of a kind together name one of its jobs (`Config.nodup_jobNames`). Its kinds have different
templates for source and target; the paths made from these are another matter.
-/

set_option autoImplicit false

namespace SpriteTables.Batch

section Names

variable {earlier : List String} {entities : List Entity} {kinds : List Kind} {name : String}

/-- A name that was not used before may be added to those that were. -/
theorem nodup_concat_of_idxOf?_eq_none (hnodup : earlier.Nodup)
    (hnew : earlier.idxOf? name = none) : (earlier ++ [name]).Nodup := by
  have hmem : name ∉ earlier := List.idxOf?_eq_none_iff.mp hnew
  rw [← List.concat_eq_append]
  exact hnodup.concat hmem

/-- An entity and others are without a fault when its name is not blank and new, and the
others are without a fault. -/
theorem entityFault?_cons_eq_none_iff {entity : Entity} {rest : List Entity} :
    entityFault? earlier (entity :: rest) = none ↔
      Text.isAllBlank entity.name.toList = false ∧ earlier.idxOf? entity.name = none ∧
        entityFault? (earlier ++ [entity.name]) rest = none := by
  rw [entityFault?]
  cases Text.isAllBlank entity.name.toList with
  | true => simp
  | false => cases hused : earlier.idxOf? entity.name <;> simp

/-- A kind and others are without a fault when its name is not blank and new, its units have
words, its templates differ, and the others are without a fault. -/
theorem kindFault?_cons_eq_none_iff {kind : Kind} {rest : List Kind} :
    kindFault? earlier (kind :: rest) = none ↔
      Text.isAllBlank kind.name.toList = false ∧ earlier.idxOf? kind.name = none ∧
        kind.entrySize ≠ 0 ∧ kind.source ≠ kind.target ∧
        kindFault? (earlier ++ [kind.name]) rest = none := by
  rw [kindFault?]
  cases Text.isAllBlank kind.name.toList with
  | true => simp
  | false =>
      cases hused : earlier.idxOf? kind.name with
      | some index => simp
      | none =>
          by_cases hsize : kind.entrySize = 0
          · simp [hsize]
          · by_cases hsame : kind.source = kind.target <;> simp [hsize, hsame]

/-- Entities without a fault have names of their own, also beside those before them. -/
theorem nodup_entityNames (hnodup : earlier.Nodup) (h : entityFault? earlier entities = none) :
    (earlier ++ entities.map (·.name)).Nodup := by
  induction entities generalizing earlier with
  | nil => simpa using hnodup
  | cons entity rest ih =>
      obtain ⟨-, hnew, hrest⟩ := entityFault?_cons_eq_none_iff.mp h
      have hnames := ih (nodup_concat_of_idxOf?_eq_none hnodup hnew) hrest
      rwa [List.append_assoc] at hnames

/-- Kinds without a fault have names of their own, also beside those before them. -/
theorem nodup_kindNames (hnodup : earlier.Nodup) (h : kindFault? earlier kinds = none) :
    (earlier ++ kinds.map (·.name)).Nodup := by
  induction kinds generalizing earlier with
  | nil => simpa using hnodup
  | cons kind rest ih =>
      obtain ⟨-, hnew, -, -, hrest⟩ := kindFault?_cons_eq_none_iff.mp h
      have hnames := ih (nodup_concat_of_idxOf?_eq_none hnodup hnew) hrest
      rwa [List.append_assoc] at hnames

/-- Kinds without a fault have different templates for source and target. -/
theorem source_ne_target_of_kindFault? (h : kindFault? earlier kinds = none) :
    ∀ kind ∈ kinds, kind.source ≠ kind.target := by
  induction kinds generalizing earlier with
  | nil => exact fun _ hkind => absurd hkind List.not_mem_nil
  | cons kind rest ih =>
      obtain ⟨-, -, -, hdiffer, hrest⟩ := kindFault?_cons_eq_none_iff.mp h
      exact List.forall_mem_cons.mpr ⟨hdiffer, ih hrest⟩

end Names

/-- The names of a job: that of its entity and that of its kind. -/
def Job.names (job : Job) : String × String :=
  (job.entity.name, job.kind.name)

section Configurations

variable {config : Config}

/-- A configuration without faults has entities and kinds without faults. -/
theorem Config.faults_eq_none (h : config.fault? = none) :
    entityFault? [] config.entities = none ∧ kindFault? [] config.kinds = none := by
  rw [fault?] at h
  split at h
  · cases h
  · split at h
    · cases h
    · exact Option.or_eq_none_iff.mp h

/-- Different jobs of a configuration without faults have different names. -/
theorem Config.nodup_jobNames (h : config.fault? = none) :
    (config.jobs.map Job.names).Nodup := by
  obtain ⟨hentities, hkinds⟩ := faults_eq_none h
  have hproduct : config.jobs.map Job.names =
      List.product (config.entities.map (·.name)) (config.kinds.map (·.name)) := by
    simp only [jobs, List.product, List.map_flatMap, List.flatMap_map, List.map_map]
    rfl
  rw [hproduct]
  exact (nodup_entityNames List.nodup_nil hentities).product
    (nodup_kindNames List.nodup_nil hkinds)

/-- The jobs of a configuration are those of its kinds. -/
theorem Config.kind_mem_of_mem_jobs {job : Job} (h : job ∈ config.jobs) :
    job.kind ∈ config.kinds := by
  obtain ⟨entity, -, hentity⟩ := List.mem_flatMap.mp h
  obtain ⟨kind, hkind, rfl⟩ := List.mem_map.mp hentity
  exact hkind

/-- A job of a configuration without faults has different templates for source and
target. -/
theorem Config.source_ne_target (h : config.fault? = none) {job : Job}
    (hjob : job ∈ config.jobs) : job.kind.source ≠ job.kind.target :=
  source_ne_target_of_kindFault? (faults_eq_none h).2 job.kind (kind_mem_of_mem_jobs hjob)

end Configurations

end SpriteTables.Batch
