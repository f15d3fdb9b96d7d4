import SpriteTables.Proofs.Batch.Run
import SpriteTables.Proofs.Files.Keys
import SpriteTables.Proofs.Minify.RoundTrip

/-!
# Jobs that keep their sources

A job reads its source and writes its target, so it leaves the text of its source exactly when the
two are different paths (`Job.keepsSource_iff`). A configuration is refused when a kind has one
template for both. That is less than different paths: two templates can be spellings of one path,
and the name of an entity can turn one template into the other (`not_sources_kept`). In terms of
the templates, `sources_kept_iff` says when the jobs of a configuration without faults keep their
sources; those of the standard batch do.
-/

set_option autoImplicit false

namespace SpriteTables.Batch

open Files (Store Denials PathKey IsTidy)

/-- Doing a job leaves the text at its source, whatever a store holds and whatever it
refuses. -/
def Job.KeepsSource (root : String) (job : Job) : Prop :=
  ∀ (denials : Denials) (store : Store) (text : String),
    store.get? (job.source root) = some text →
      ((runJob (Store.denying denials) { root } job).run store).2.get? (job.source root) =
        some text

section OneJob

variable {root : String} {job : Job}

/-- A job whose target is another path keeps its source. -/
theorem Job.keepsSource_of_ne
    (h : PathKey.of (job.source root) ≠ PathKey.of (job.target root)) : job.KeepsSource root := by
  intro denials store text htext
  have hplain := runJob_forgets (Store.denying denials) { root } job
  rcases runJob_cases denials root store job with
    ⟨result, calls, writes, hjob, log, hdoes⟩ | ⟨fault, calls, -, log, hdoes⟩
  · rw [hdoes.plain hplain]
    cases hjob with
    | skipped => exact htext
    | written =>
        show (store.write _ _).get? _ = _
        rw [Store.get?_write, if_neg h]
        exact htext
  · rw [hdoes.plain hplain]
    exact htext

/-- A blank line is minified to nothing. -/
theorem Job.minify_lineFeed (job : Job) (root : String) :
    ∃ output : Output, (job.minify root "\n" "\n").value = .ok output ∧ output.text = "" := by
  have hparse : (Artifact.parse job.options.entrySize "\n").value = .ok ⟨⟨[]⟩, []⟩ := rfl
  have hplaced : linearize job.options.order ⟨⟨[]⟩, []⟩ ⟨[]⟩ = .ok [] := by
    rw [linearize, if_neg]
    · simp [Placement.ofRecords]
    · simp [OffsetTable.isUneven, OffsetTable.tableCount, OffsetTable.tableNames]
  exact ⟨_, minifyTexts_eq_ok_iff.mpr ⟨_, _, _, hparse, hparse, hplaced, rfl⟩, rfl⟩

/-- A job with a source and a target that are minified writes the result to its target. -/
theorem runJob_of_minified {denials : Denials} {store : Store} {sourceText targetText : String}
    {output : Output} (hsource : store.look denials (job.source root) = .ok sourceText)
    (htarget : store.look denials (job.target root) = .ok targetText)
    (hminify : (job.minify root sourceText targetText).value = .ok output)
    (hwrite : denials.writes (job.target root) = false) :
    ((runJob (Store.denying denials) { root } job).run store).2 =
      store.write (job.target root) output.text := by
  have hplain := runJob_forgets (Store.denying denials) { root } job
  rcases runJob_cases denials root store job with
    ⟨result, calls, writes, hjob, log, hdoes⟩ | ⟨fault, calls, hfails, log, hdoes⟩
  · rw [hdoes.plain hplain]
    cases hjob with
    | skipped hmissing => rw [hsource] at hmissing; cases hmissing
    | written hsource' htarget' hminify' =>
        rw [hsource] at hsource'
        rw [htarget] at htarget'
        cases hsource'
        cases htarget'
        rw [hminify] at hminify'
        cases hminify'
        rfl
  · -- none of the ways to fail is left
    cases hfails with
    | source hsource' => rw [hsource] at hsource'; cases hsource'
    | target _ htarget' => rw [htarget] at htarget'; cases htarget'
    | minify hsource' htarget' hminify' =>
        rw [hsource] at hsource'
        rw [htarget] at htarget'
        cases hsource'
        cases htarget'
        rw [hminify] at hminify'
        cases hminify'
    | store _ _ _ hwrite' => rw [hwrite] at hwrite'; cases hwrite'

/-- A job whose target is its source does not keep it. -/
theorem Job.not_keepsSource_of_eq
    (h : PathKey.of (job.source root) = PathKey.of (job.target root)) :
    ¬ job.KeepsSource root := by
  intro hkeeps
  have hget : ∀ path, PathKey.of path = PathKey.of (job.source root) →
      (({} : Store).write (job.source root) "\n").get? path = some "\n" := by
    intro path hpath
    rw [Store.get?_write, if_pos hpath]
  have hlook : ∀ path, PathKey.of path = PathKey.of (job.source root) →
      (({} : Store).write (job.source root) "\n").look ⟨fun _ => false, fun _ => false⟩ path =
        .ok "\n" := by
    intro path hpath
    rw [Store.look, hget path hpath]
    rfl
  obtain ⟨output, hminify, hempty⟩ := job.minify_lineFeed root
  have hkept := hkeeps ⟨fun _ => false, fun _ => false⟩ _ "\n" (hget _ rfl)
  rw [runJob_of_minified (hlook _ rfl) (hlook _ h.symm) hminify rfl, Store.get?_write, if_pos h,
    hempty] at hkept
  revert hkept
  decide

/-- A job keeps its source exactly when its target is another path. -/
theorem Job.keepsSource_iff : job.KeepsSource root ↔
    PathKey.of (job.source root) ≠ PathKey.of (job.target root) :=
  ⟨fun hkeeps h => Job.not_keepsSource_of_eq h hkeeps, Job.keepsSource_of_ne⟩

end OneJob

/-! ## Templates -/

/-- A template without the mark for the name stays as it is. -/
theorem fillIn_of_not_infix {template : String}
    (h : ¬ entityMark.toList <:+: template.toList) (name : String) :
    fillIn template name = template := by
  rw [fillIn, Text.replaceAll_of_not_infix h, String.ofList_toList]

section Templates

variable {root : String} {job : Job}

/-- If every component of its paths counts, a job keeps its source exactly when they are
written differently below the root. -/
theorem Job.keepsSource_iff_of_isTidy (hsource : IsTidy (fillIn job.kind.source job.entity.name))
    (htarget : IsTidy (fillIn job.kind.target job.entity.name)) :
    job.KeepsSource root ↔
      fillIn job.kind.source job.entity.name ≠ fillIn job.kind.target job.entity.name := by
  rw [Job.keepsSource_iff]
  exact not_congr (Files.of_join_eq_iff_of_isTidy hsource htarget root)

/-- Every job of the standard batch keeps its source, under every root. -/
theorem keepsSource_of_mem_standard (h : job ∈ Config.standard.jobs) (root : String) :
    job.KeepsSource root := by
  have hpaths : ∀ job ∈ Config.standard.jobs,
      IsTidy (fillIn job.kind.source job.entity.name) ∧
      IsTidy (fillIn job.kind.target job.entity.name) ∧
      fillIn job.kind.source job.entity.name ≠ fillIn job.kind.target job.entity.name := by
    decide +kernel
  obtain ⟨hsource, htarget, hdiffer⟩ := hpaths job h
  exact (Job.keepsSource_iff_of_isTidy hsource htarget).mpr hdiffer

end Templates

/-- The templates of a job in a configuration without faults differ. The job keeps its
source exactly when the paths made from them differ. If every component of these counts,
that is when they are written differently after the name is filled in, and if the templates
have no mark for the name, the job keeps its source. -/
theorem sources_kept_iff {config : Config} (hfault : config.fault? = none) {job : Job}
    (hjob : job ∈ config.jobs) (root : String) :
    job.kind.source ≠ job.kind.target ∧
      (job.KeepsSource root ↔
        PathKey.of (job.source root) ≠ PathKey.of (job.target root)) ∧
      (IsTidy (fillIn job.kind.source job.entity.name) →
        IsTidy (fillIn job.kind.target job.entity.name) →
        (job.KeepsSource root ↔
          fillIn job.kind.source job.entity.name ≠ fillIn job.kind.target job.entity.name)) ∧
      (IsTidy job.kind.source → IsTidy job.kind.target →
        ¬ entityMark.toList <:+: job.kind.source.toList →
        ¬ entityMark.toList <:+: job.kind.target.toList → job.KeepsSource root) := by
  have hdiffer := Config.source_ne_target hfault hjob
  refine ⟨hdiffer, Job.keepsSource_iff, Job.keepsSource_iff_of_isTidy, ?_⟩
  intro hsource htarget hmark hmark'
  have hfilled := fillIn_of_not_infix hmark job.entity.name
  have hfilled' := fillIn_of_not_infix hmark' job.entity.name
  refine (Job.keepsSource_iff_of_isTidy ?_ ?_).mpr ?_
  · rwa [hfilled]
  · rwa [hfilled']
  · rwa [hfilled, hfilled']

/-- A job of the standard batch keeps its source. -/
theorem sources_kept_of_standard :
    Config.standard.fault? = none ∧ ∃ job ∈ Config.standard.jobs,
      job.source "art" = "art/Sonic/map.asm" ∧ job.KeepsSource "art" := by
  have hfault : Config.standard.fault? = none := by decide +kernel
  obtain ⟨job, hjob, hsource, htidy, htidy', hdiffer⟩ : ∃ job ∈ Config.standard.jobs,
      job.source "art" = "art/Sonic/map.asm" ∧
      IsTidy (fillIn job.kind.source job.entity.name) ∧
      IsTidy (fillIn job.kind.target job.entity.name) ∧
      fillIn job.kind.source job.entity.name ≠ fillIn job.kind.target job.entity.name := by
    decide +kernel
  obtain ⟨-, -, hkeeps, -⟩ := sources_kept_iff hfault hjob "art"
  exact ⟨hfault, job, hjob, hsource, (hkeeps htidy htidy').mpr hdiffer⟩

/-- Maps of every entity that are written over those of one. -/
def mapsOntoSonic : Kind where
  name := "mappings"
  source := entityMark ++ "/map.asm"
  target := "Sonic/map.asm"
  entrySize := 1

/-- The maps of one entity, written over themselves. -/
def sonicOntoItself : Config where
  entities := [{ name := "Sonic" }]
  kinds := [mapsOntoSonic]

/-- These maps, with a remark. -/
def remarkedMaps : Store :=
  ({} : Store).insert "art/Sonic/map.asm"
    "Map_Sonic:\n\t\tdc.w F0-Map_Sonic\nF0:\t\tdc.w 1, 7 ; the only frame\n"

/-- Not every job of a configuration without faults has different paths for source and
target, and a batch without faults can replace the text of a source by what it was minified
to. -/
theorem not_sources_kept :
    (¬ ∀ (config : Config) (root : String), config.fault? = none →
      ∀ job ∈ config.jobs, PathKey.of (job.source root) ≠ PathKey.of (job.target root)) ∧
    sonicOntoItself.fault? = none ∧
    remarkedMaps.get? "art/Sonic/map.asm" =
      some "Map_Sonic:\n\t\tdc.w F0-Map_Sonic\nF0:\t\tdc.w 1, 7 ; the only frame\n" ∧
    ((run (Store.denying ⟨fun _ => false, fun _ => false⟩) { root := "art" }
        sonicOntoItself).run remarkedMaps).2.get? "art/Sonic/map.asm" =
      some "Map_Sonic:\n\t\tdc.w F0-Map_Sonic\nF0:\n\t\tdc.w 1\n\t\tdc.w 7\n" := by
  refine ⟨?_, by decide +kernel, by decide +kernel, by decide +kernel⟩
  intro hdistinct
  have hsame : ∃ job ∈ sonicOntoItself.jobs,
      PathKey.of (job.source "art") = PathKey.of (job.target "art") := by
    decide +kernel
  obtain ⟨job, hjob, hsame⟩ := hsame
  exact hdistinct sonicOntoItself "art" (by decide +kernel) job hjob hsame

end SpriteTables.Batch
