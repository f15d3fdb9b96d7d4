import SpriteTables.CommandLine
import SpriteTables.Proofs.Batch.Faults
import SpriteTables.Proofs.Files.System
import SpriteTables.Proofs.Placement.Emission

/-!
# A batch of one job and a single pair

A batch of one entity and one kind has one job, and this job can be done without a batch: by
minifying its source onto its target, with arguments that say of the pair what the configuration
says of the job (`Job.arguments`). Both commands read the source before the target, minify the
same texts in the same way and write last, so either both write the same text to the target or
both fail before anything is written (`run_agrees_with_minify`).
-/

set_option autoImplicit false

namespace SpriteTables

open Files (FileSystem FileAccess Tree)

/-- The arguments with which a job is done as a single pair. -/
def Batch.Job.arguments (job : Batch.Job) (root : String) : CommandLine.MinifyArguments where
  source := job.source root
  target := job.target root
  entrySize := job.kind.entrySize
  bytes := decide (job.kind.payload = .byte)
  interleave := job.entity.interleave
  output := none

namespace CommandLine

open Batch (Config Entity Kind Job)

theorem source_arguments (job : Job) (root : String) :
    (job.arguments root).source = job.source root := by
  rw [Job.arguments]

theorem target_arguments (job : Job) (root : String) :
    (job.arguments root).target = job.target root := by
  rw [Job.arguments]

/-- The text of a pair goes to its target, whatever that is called. -/
theorem output_arguments (job : Job) (root : String) : (job.arguments root).output = none := by
  rw [Job.arguments]

theorem options_arguments (job : Job) (root : String) :
    (job.arguments root).options = job.options := by
  rw [MinifyArguments.options, Job.options, Job.arguments]
  cases job.kind.payload <;> rfl

/-- A batch of one entity and one kind has one job. -/
theorem jobs_eq_singleton {config : Config} {entity : Entity} {kind : Kind}
    (hentities : config.entities = [entity]) (hkinds : config.kinds = [kind]) :
    config.jobs = [⟨entity, kind⟩] := by
  rw [Config.jobs, hentities, hkinds]
  rfl

/-! ## The two commands -/

section Commands

variable {σ : Type} {fs : FileSystem σ} {files later : σ} {root : String} {config : Config}
  {job : Job} {sourceText targetText : String} {failure : Failure} {output : Output}

/-- The texts of a job can be read, the first from its source and the second from its target. -/
structure Readable (fs : FileSystem σ) (files : σ) (root : String) (job : Job)
    (sourceText targetText : String) : Prop where
  source : fs.look files (job.source root) = .ok sourceText
  target : fs.look files (job.target root) = .ok targetText

/-- A job reads its texts, minifies them and stores the result. -/
theorem run_runJob (hreadable : Readable fs files root job sourceText targetText) :
    (Batch.runJob fs.toFileAccess { root } job).run files =
      match (job.minify root sourceText targetText).value with
      | .error failure =>
          (⟨(job.minify root sourceText targetText).log, .error (.minify failure)⟩, files)
      | .ok output =>
          (Batch.storeResult fs.toFileAccess { root } job output >>= fun stored =>
            return ⟨(job.minify root sourceText targetText).log ++ stored.log,
              stored.value⟩).run files := by
  rw [Batch.runJob, fs.run_read_bind, hreadable.source]
  simp only
  rw [fs.run_read_bind, hreadable.target]
  simp only
  cases (job.minify root sourceText targetText).value <;> rfl

/-- A job whose texts cannot be minified fails and changes no file. -/
theorem run_runJob_of_failure (hreadable : Readable fs files root job sourceText targetText)
    (hminify : (job.minify root sourceText targetText).value = .error failure) :
    ∃ log, (Batch.runJob fs.toFileAccess { root } job).run files =
      (⟨log, .error (.minify failure)⟩, files) := by
  rw [run_runJob hreadable, hminify]
  exact ⟨_, rfl⟩

/-- A job whose texts are minified, and whose write is not refused, completes. -/
theorem run_runJob_of_output (hreadable : Readable fs files root job sourceText targetText)
    (hminify : (job.minify root sourceText targetText).value = .ok output)
    (hwrite : (fs.write (job.target root) output.text).run files = (.ok (), later)) :
    ∃ log, (Batch.runJob fs.toFileAccess { root } job).run files =
      (⟨log, .ok (.written (job.target root) output.statistics)⟩, later) := by
  have hstored : ∃ log, (Batch.storeResult fs.toFileAccess { root } job output).run files =
      (⟨log, .ok (.written (job.target root) output.statistics)⟩, later) := by
    refine ⟨[.wrote (job.target root) output.statistics.offsetEntries
      output.statistics.distinctRecords], ?_⟩
    rw [Batch.storeResult]
    simp [hwrite]
    rfl
  obtain ⟨log, hstored⟩ := hstored
  rw [run_runJob hreadable, hminify]
  -- the remarks of minifying come before the one about the write
  refine ⟨(job.minify root sourceText targetText).log ++ log, ?_⟩
  show (Batch.storeResult fs.toFileAccess { root } job output >>= _).run files = _
  rw [StateT.run_bind, hstored]
  rfl

/-- A batch of one job fails with it. -/
theorem run_runConfig_of_error {fault : Batch.JobFault} {log : List LogEvent} (colored : Bool)
    (hvalid : config.fault? = none) (hjobs : config.jobs = [job])
    (hjob : (Batch.runJob fs.toFileAccess { root } job).run files =
      (⟨log, .error fault⟩, later)) :
    ∃ outcome, (runConfig fs.toFileAccess colored false root config).run files =
        (outcome, later) ∧ outcome.code = Outcome.failureCode := by
  refine ⟨.failure log (Batch.RunFailure.chain colored (.job job fault)), ?_, rfl⟩
  rw [runConfig, Batch.run, hvalid, hjobs, Batch.runJobs, StateT.run_bind, StateT.run_bind, hjob]
  rfl

/-- A batch of one job succeeds with it. -/
theorem run_runConfig_of_ok {result : Batch.Result} {log : List LogEvent} (colored : Bool)
    (hvalid : config.fault? = none) (hjobs : config.jobs = [job])
    (hjob : (Batch.runJob fs.toFileAccess { root } job).run files =
      (⟨log, .ok result⟩, later)) :
    ∃ outcome, (runConfig fs.toFileAccess colored false root config).run files =
        (outcome, later) ∧ outcome.code = 0 := by
  refine ⟨.success (log ++ []) (runReport false [⟨job, result⟩]), ?_, rfl⟩
  rw [runConfig, Batch.run, hvalid, hjobs, Batch.runJobs, StateT.run_bind, StateT.run_bind, hjob]
  rfl

/-- A pair is minified as the job is, and delivered to its target. -/
theorem run_performMinify (colored : Bool) (hsize : job.kind.entrySize ≠ 0)
    (hreadable : Readable fs files root job sourceText targetText) :
    (performMinify fs.toFileAccess colored (job.arguments root)).run files =
      match (job.minify root sourceText targetText).value with
      | .error failure =>
          (.failure (job.minify root sourceText targetText).log [failure.report colored], files)
      | .ok output =>
          (deliver fs.toFileAccess (job.arguments root)
            (job.minify root sourceText targetText).log output.text).run files := by
  have hsize : (job.arguments root).entrySize ≠ 0 := hsize
  rw [performMinify, if_neg hsize, fs.run_read_bind, source_arguments, hreadable.source]
  simp only
  rw [fs.run_read_bind, target_arguments, hreadable.target]
  simp only [options_arguments]
  rw [Job.minify]
  cases (minifyTexts job.options ⟨job.source root, sourceText⟩
    ⟨job.target root, targetText⟩).value <;> rfl

/-- A pair whose texts cannot be minified fails and changes no file. -/
theorem run_performMinify_of_failure (colored : Bool) (hsize : job.kind.entrySize ≠ 0)
    (hreadable : Readable fs files root job sourceText targetText)
    (hminify : (job.minify root sourceText targetText).value = .error failure) :
    ∃ outcome, (performMinify fs.toFileAccess colored (job.arguments root)).run files =
        (outcome, files) ∧ outcome.code = Outcome.failureCode := by
  rw [run_performMinify colored hsize hreadable, hminify]
  exact ⟨_, rfl, rfl⟩

/-- A pair whose texts are minified, and whose write is not refused, succeeds. -/
theorem run_performMinify_of_output (colored : Bool) (hsize : job.kind.entrySize ≠ 0)
    (hreadable : Readable fs files root job sourceText targetText)
    (hminify : (job.minify root sourceText targetText).value = .ok output)
    (hwrite : (fs.write (job.target root) output.text).run files = (.ok (), later)) :
    ∃ outcome, (performMinify fs.toFileAccess colored (job.arguments root)).run files =
        (outcome, later) ∧ outcome.code = 0 := by
  rw [run_performMinify colored hsize hreadable, hminify]
  refine ⟨.success (job.minify root sourceText targetText).log "", ?_, rfl⟩
  show (deliver fs.toFileAccess (job.arguments root) _ output.text).run files = _
  rw [deliver, output_arguments, target_arguments]
  simp [hwrite]
  rfl

/-! ### Agreement -/

/-- The arguments of a run lead to a configuration: the standard one, or the one in a file
that can be read. -/
def Loads (fs : FileSystem σ) (files : σ) (arguments : RunArguments) (config : Config) : Prop :=
  match arguments.config with
  | none => config = .standard
  | some path => ∃ text, fs.look files path = .ok text ∧ Config.ofText text = .ok config

/-- A run whose arguments lead to a configuration runs the batch of this configuration. -/
theorem performRun_of_loads {arguments : RunArguments} (colored : Bool)
    (h : Loads fs files arguments config) :
    (performRun fs.toFileAccess colored arguments).run files =
      (runConfig fs.toFileAccess colored arguments.rehearse arguments.root config).run files := by
  rw [performRun]
  rw [Loads] at h
  cases hconfig : arguments.config with
  | none =>
      rw [hconfig] at h
      simp only at h
      rw [h]
  | some path =>
      rw [hconfig] at h
      obtain ⟨text, hlook, htext⟩ := h
      simp only
      rw [fs.run_read_bind, hlook]
      simp only [htext]

/-- Two commands that were to write what some texts are minified to, each with its outcome and the
files it left, agree. Either both succeed and leave the same files, in which the target has the
minified text and the others are as before; or the texts cannot be minified, both fail, and all
files are as before. -/
inductive Agree (fs : FileSystem σ) (files : σ) (target : String) :
    Except Failure Output → Outcome × σ → Outcome × σ → Prop where
  | success {output : Output} {first second : Outcome} {later : σ} (hfirst : first.code = 0)
      (hsecond : second.code = 0) (htarget : fs.look later target = .ok output.text)
      (hothers : ∀ path, ¬ fs.OneFile files target path →
        fs.look later path = fs.look files path) :
      Agree fs files target (.ok output) (first, later) (second, later)
  | failure {failure : Failure} {first second : Outcome}
      (hfirst : first.code = Outcome.failureCode) (hsecond : second.code = Outcome.failureCode) :
      Agree fs files target (.error failure) (first, files) (second, files)

/-- Commands that agree on texts that can be minified both succeed. -/
theorem Agree.of_ok {target : String} {first second : Outcome × σ}
    (h : Agree fs files target (.ok output) first second) :
    first.1.code = 0 ∧ second.1.code = 0 ∧ first.2 = second.2 ∧
      fs.look first.2 target = .ok output.text ∧
      ∀ path, ¬ fs.OneFile files target path → fs.look first.2 path = fs.look files path := by
  cases h with
  | success hfirst hsecond htarget hothers => exact ⟨hfirst, hsecond, rfl, htarget, hothers⟩

/-- A batch of one job and its single pair agree, unless the write of the target is
refused. -/
theorem agree_of_readable (colored : Bool) (hvalid : config.fault? = none)
    (hjobs : config.jobs = [job]) (hsize : job.kind.entrySize ≠ 0)
    (hreadable : Readable fs files root job sourceText targetText)
    (haccepted : ∀ output, (job.minify root sourceText targetText).value = .ok output →
      ∃ later, (fs.write (job.target root) output.text).run files = (.ok (), later)) :
    Agree fs files (job.target root) (job.minify root sourceText targetText).value
      ((runConfig fs.toFileAccess colored false root config).run files)
      ((performMinify fs.toFileAccess colored (job.arguments root)).run files) := by
  cases hminify : (job.minify root sourceText targetText).value with
  | error failure =>
      obtain ⟨log, hjob⟩ := run_runJob_of_failure hreadable hminify
      obtain ⟨first, hrun, hfirst⟩ := run_runConfig_of_error colored hvalid hjobs hjob
      obtain ⟨second, hpair, hsecond⟩ :=
        run_performMinify_of_failure colored hsize hreadable hminify
      rw [hrun, hpair]
      exact .failure hfirst hsecond
  | ok output =>
      -- both write the same text to the same path, so one write answers for both
      obtain ⟨later, hwrite⟩ := haccepted output hminify
      obtain ⟨log, hjob⟩ := run_runJob_of_output hreadable hminify hwrite
      obtain ⟨first, hrun, hfirst⟩ := run_runConfig_of_ok colored hvalid hjobs hjob
      obtain ⟨second, hpair, hsecond⟩ :=
        run_performMinify_of_output colored hsize hreadable hminify hwrite
      rw [hrun, hpair]
      refine .success hfirst hsecond ?_ ?_
      · exact fs.look_of_oneFile hreadable.target hwrite (fs.oneFile_self hreadable.target)
      · intro path hother
        exact fs.look_of_not_oneFile hreadable.target hwrite hother

/-- Let a configuration without faults have one entity and one kind, and let the source and
the target of its job be readable. The batch of the configuration, and so every run whose
arguments lead to it, agrees with the command that minifies the job as a single pair, unless
the write of the target is refused: both write the minified text to the target and leave the
other files, or both fail and leave all files. -/
theorem run_agrees_with_minify (colored : Bool) (hvalid : config.fault? = none)
    (hentities : config.entities = [job.entity]) (hkinds : config.kinds = [job.kind])
    (hreadable : Readable fs files root job sourceText targetText)
    (haccepted : ∀ output, (job.minify root sourceText targetText).value = .ok output →
      ∃ later, (fs.write (job.target root) output.text).run files = (.ok (), later)) :
    Agree fs files (job.target root) (job.minify root sourceText targetText).value
      ((runConfig fs.toFileAccess colored false root config).run files)
      ((perform fs.toFileAccess colored (.minify (job.arguments root))).run files) ∧
    ∀ arguments : RunArguments, arguments.root = root → arguments.rehearse = false →
      Loads fs files arguments config →
      Agree fs files (job.target root) (job.minify root sourceText targetText).value
        ((perform fs.toFileAccess colored (.run arguments)).run files)
        ((perform fs.toFileAccess colored (.minify (job.arguments root))).run files) := by
  have hjobs := jobs_eq_singleton hentities hkinds
  -- the pair checks this itself, the batch has checked its configuration
  have hsize : job.kind.entrySize ≠ 0 := by
    have hpos := (Config.fault?_eq_none_iff.mp hvalid).entrySizes job.kind (by simp [hkinds])
    omega
  have hagree := agree_of_readable colored hvalid hjobs hsize hreadable haccepted
  refine ⟨hagree, ?_⟩
  rintro arguments rfl hrehearse hloads
  show Agree fs files _ _ ((performRun fs.toFileAccess colored arguments).run files) _
  rw [performRun_of_loads colored hloads, hrehearse]
  exact hagree

end Commands

/-- The maps of one character, written as bytes. -/
def sonicMaps : Job where
  entity := { name := "Sonic", interleave := true }
  kind :=
    { name := "maps"
      source := Batch.entityMark ++ "/map.asm"
      target := Batch.entityMark ++ "/out.asm"
      entrySize := 1
      payload := .byte }

/-- A batch of these maps. -/
def sonicBatch : Config where
  entities := [sonicMaps.entity]
  kinds := [sonicMaps.kind]

/-- This batch as a configuration file. -/
def sonicConfig : String :=
  "(entities: [(name: \"Sonic\", interleave: true)], kinds: [(name: \"maps\", " ++
    "source: \"\x7bentity\x7d/map.asm\", target: \"\x7bentity\x7d/out.asm\", " ++
    "entry_size: 1, payload: Byte)])"

/-- The records of these maps. -/
def sonicSource : String :=
  "\tdc.w A-T,B-T\nB:\n\tdc.w 1,-2\nA:\n\tdc.w 0\n"

/-- The table under which they are written. -/
def sonicTarget : String :=
  "\tdc.w A-T,B-T\n"

/-- What they are minified to. -/
def sonicMinified : String :=
  "T:\n\t\tdc.w A-T\n\t\tdc.w B-T\nA:\n\t\tdc.w 0\nB:\n\t\tdc.w 1\n\t\tdc.b  $FF, $FE\n"

/-- A directory with these maps, and the configuration beside it. -/
def sonicFiles : Tree where
  files :=
    [(["art", "Sonic", "map.asm"], .text sonicSource),
     (["art", "Sonic", "out.asm"], .text sonicTarget),
     (["one.ron"], .text sonicConfig)]

/-- Run as a batch and minified as a pair, these maps are written to the same file, and the
configuration stays. -/
theorem run_agrees_with_minify_in_tree :
    sonicBatch.fault? = none ∧
    Readable Tree.system sonicFiles "art" sonicMaps sonicSource sonicTarget ∧
    Loads Tree.system sonicFiles { config := some "one.ron", root := "art" } sonicBatch ∧
    ∃ ran minified : Outcome × Tree,
      (perform Tree.access false (.run { config := some "one.ron", root := "art" })).run
        sonicFiles = ran ∧
      (perform Tree.access false (.minify (sonicMaps.arguments "art"))).run
        sonicFiles = minified ∧
      ran.1.code = 0 ∧ minified.1.code = 0 ∧ ran.2 = minified.2 ∧
      ran.2.read "art/Sonic/out.asm" = .ok sonicMinified ∧
      ran.2.read "one.ron" = sonicFiles.read "one.ron" := by
  have hvalid : sonicBatch.fault? = none := by
    decide +kernel
  have hsource : sonicMaps.source "art" = "art/Sonic/map.asm" := by
    decide +kernel
  have htarget : sonicMaps.target "art" = "art/Sonic/out.asm" := by
    decide +kernel
  have hreadable : Readable Tree.system sonicFiles "art" sonicMaps sonicSource sonicTarget := by
    have hfirst : sonicFiles.read (sonicMaps.source "art") = .ok sonicSource := by
      decide +kernel
    have hsecond : sonicFiles.read (sonicMaps.target "art") = .ok sonicTarget := by
      decide +kernel
    exact ⟨hfirst, hsecond⟩
  have hloads :
      Loads Tree.system sonicFiles { config := some "one.ron", root := "art" } sonicBatch := by
    have hread : sonicFiles.read "one.ron" = .ok sonicConfig := by
      decide +kernel
    have hconfig : Config.ofText sonicConfig = .ok sonicBatch := by
      decide +kernel
    exact ⟨sonicConfig, hread, hconfig⟩
  have hplace : sonicFiles.writePlace (sonicMaps.target "art") =
      .ok ["art", "Sonic", "out.asm"] := by
    decide +kernel
  have hother : ¬ Tree.system.OneFile sonicFiles (sonicMaps.target "art") "one.ron" := by
    rintro ⟨place, hpath, hconfig⟩
    have hdiffer : sonicFiles.lead (sonicMaps.target "art") ≠ sonicFiles.lead "one.ron" := by
      decide +kernel
    exact hdiffer (hpath.trans hconfig.symm)
  have hminified : (sonicMaps.minify "art" sonicSource sonicTarget).value =
      .ok ⟨sonicMinified, ⟨1, 2, 2, 2, 0⟩⟩ := by
    have hoptions : sonicMaps.options = ⟨1, .byte, .interleaved⟩ := by
      decide
    rw [Job.minify, hoptions, hsource, htarget]
    simp only [minifyTexts, minify, linearize_eq_insertionSort]
    decide +kernel
  have hagree := (run_agrees_with_minify false hvalid rfl rfl hreadable
    (fun output _ => ⟨_, Tree.run_write_of_writePlace hplace output.text⟩)).2
      { config := some "one.ron", root := "art" } rfl rfl hloads
  rw [hminified] at hagree
  obtain ⟨hran, hminify, hsame, hwritten, hothers⟩ := hagree.of_ok
  rw [← htarget]
  exact ⟨hvalid, hreadable, hloads, _, _, rfl, rfl, hran, hminify, hsame, hwritten,
    hothers _ hother⟩

end CommandLine

end SpriteTables
