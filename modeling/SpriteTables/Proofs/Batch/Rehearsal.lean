import SpriteTables.Proofs.Batch.Run

/-!
# Rehearsals

A rehearsal does everything but write: it reads what the jobs read, minifies what they minify and
leaves the store. What it comes to is determined by the answers to its reads alone (`Job.preview`,
`runJobs_rehearsed`). So it foresees the batch as long as no job reads what an earlier one has
written (`run_rehearsed`). A batch and its rehearsal then see the same texts, although the batch's
store moves away from the other one with every write.
-/

set_option autoImplicit false

namespace SpriteTables.Batch

open Files (FileAccess FileFault ReadFault Store Denials Call Does PathKey)

/-! ## What a job comes to -/

/-- The paths that a job reads: its target only if it has a source. -/
def Job.reads (answer : String → Except ReadFault String) (root : String) (job : Job) :
    List String :=
  match answer (job.source root) with
  | .error _ => [job.source root]
  | .ok _ => [job.source root, job.target root]

/-- What a job comes to when no write is refused. -/
def Job.preview (answer : String → Except ReadFault String) (root : String) (job : Job) :
    Except JobFault Result :=
  match answer (job.source root) with
  | .error .missing => .ok (.skipped (job.source root))
  | .error fault => .error (.source (.ofRead (job.source root) fault))
  | .ok sourceText =>
      match answer (job.target root) with
      | .error fault => .error (.target (.ofRead (job.target root) fault))
      | .ok targetText =>
          match (job.minify root sourceText targetText).value with
          | .error failure => .error (.minify failure)
          | .ok output => .ok (.written (job.target root) output.statistics)

section OneJob

variable {answer other : String → Except ReadFault String} {denials : Denials} {root : String}
  {store : Store} {job : Job} {result : Result} {calls : List Call}
  {writes : List (String × String)}

/-- A job reads its source in any case. -/
theorem Job.source_mem_reads (answer : String → Except ReadFault String) (root : String)
    (job : Job) : job.source root ∈ job.reads answer root := by
  rw [Job.reads]
  split <;> exact List.mem_cons_self

/-- What a job comes to depends on the answers to its reads only. -/
theorem Job.preview_congr
    (h : ∀ path ∈ job.reads answer root, other path = answer path) :
    job.preview other root = job.preview answer root := by
  have hsource : other (job.source root) = answer (job.source root) :=
    h _ (Job.source_mem_reads answer root job)
  rw [Job.preview, Job.preview, hsource]
  cases hanswer : answer (job.source root) with
  | error fault => cases fault <;> rfl
  | ok sourceText =>
      have htarget : other (job.target root) = answer (job.target root) := by
        apply h
        rw [Job.reads, hanswer]
        exact List.mem_cons_of_mem _ List.mem_cons_self
      simp only [htarget]

/-- A job that completes has come to its result. -/
theorem Completes.preview_eq (h : Completes denials root store job result calls writes) :
    job.preview (store.look denials) root = .ok result := by
  cases h with
  | skipped hsource => rw [Job.preview, hsource]
  | written hsource htarget hminify => simp only [Job.preview, hsource, htarget, hminify]

/-- A job that fails although no write is refused has come to its fault. -/
theorem Fails.preview_eq {fault : JobFault} (haccepts : ∀ path, denials.writes path = false)
    (h : Fails denials root store job fault calls) :
    job.preview (store.look denials) root = .error fault := by
  cases h with
  | source hsource =>
      rw [Job.preview, hsource]
      rfl
  | target hsource htarget => simp only [Job.preview, hsource, htarget]
  | minify hsource htarget hminify => simp only [Job.preview, hsource, htarget, hminify]
  | store _ _ _ hwrite => rw [haccepts] at hwrite; cases hwrite

/-- A job that completes changes no answer but those about its target, and these only if it
has a source. -/
theorem Completes.look_writeAll (h : Completes denials root store job result calls writes)
    {path : String} (hpath : store.look denials (job.source root) ≠ .error .missing →
      PathKey.of path ≠ PathKey.of (job.target root)) :
    (store.writeAll writes).look denials path = store.look denials path := by
  cases h with
  | skipped => rfl
  | written hsource =>
      have hfound : store.look denials (job.source root) ≠ .error .missing := by
        rw [hsource]
        intro hmissing
        cases hmissing
      exact Files.look_write_of_ne (hpath hfound) denials _

/-- A rehearsed job makes its reads and leaves the store. -/
theorem runJob_rehearsed (denials : Denials) (root : String) (store : Store) (job : Job) :
    ∃ log, Does (runJob (Store.denying denials).noting { root, rehearse := true } job) store
      ⟨log, job.preview (store.look denials) root⟩
      ((job.reads (store.look denials) root).map .read) store := by
  have hreadSource := Does.read denials store (job.source root)
  have hreadTarget := Does.read denials store (job.target root)
  rw [runJob, Job.preview, Job.reads]
  cases hsource : store.look denials (job.source root) with
  | error fault =>
      rw [hsource] at hreadSource
      cases fault with
      | missing => exact ⟨_, hreadSource.bind (.pure _)⟩
      | refused cause => exact ⟨_, hreadSource.bind (.pure _)⟩
  | ok sourceText =>
      rw [hsource] at hreadSource
      cases htarget : store.look denials (job.target root) with
      | error fault =>
          rw [htarget] at hreadTarget
          exact ⟨_, hreadSource.bind (hreadTarget.bind (.pure _))⟩
      | ok targetText =>
          rw [htarget] at hreadTarget
          cases hminify : (job.minify root sourceText targetText).value with
          | error failure =>
              refine ⟨(job.minify root sourceText targetText).log, ?_⟩
              apply hreadSource.bind
              apply hreadTarget.bind
              simp only [hminify]
              exact .pure _
          | ok output =>
              have hstored : Does (storeResult (Store.denying denials).noting
                  { root, rehearse := true } job output) store
                  ⟨[.rehearsed job.kind.name job.entity.name output.statistics.distinctRecords],
                    .ok (.written (job.target root) output.statistics)⟩ [] store :=
                .pure _
              refine ⟨(job.minify root sourceText targetText).log ++ [.rehearsed job.kind.name
                job.entity.name output.statistics.distinctRecords], ?_⟩
              apply hreadSource.bind
              apply hreadTarget.bind
              simp only [hminify]
              exact hstored.bind (.pure _)

end OneJob

/-! ## Jobs in order -/

/-- The jobs up to the first one that fails, that one included. -/
def attempted (answer : String → Except ReadFault String) (root : String) : List Job → List Job
  | [] => []
  | job :: rest =>
      match job.preview answer root with
      | .error _ => [job]
      | .ok _ => job :: attempted answer root rest

/-- What jobs come to when no write is refused and each of them reads the same answers. -/
def previewAll (answer : String → Except ReadFault String) (root : String) :
    List Job → Except RunFailure (List Finished)
  | [] => .ok []
  | job :: rest =>
      match job.preview answer root with
      | .error fault => .error (.job job fault)
      | .ok result => (previewAll answer root rest).map (⟨job, result⟩ :: ·)

/-- A job is skipped, or a later one reads no path that it writes. -/
def Job.Spares (answer : String → Except ReadFault String) (root : String)
    (earlier later : Job) : Prop :=
  answer (earlier.source root) ≠ .error .missing →
    ∀ path ∈ later.reads answer root, PathKey.of path ≠ PathKey.of (earlier.target root)

/-- Only jobs of the list are attempted, in their order. -/
theorem attempted_sublist (answer : String → Except ReadFault String) (root : String)
    (jobs : List Job) : (attempted answer root jobs).Sublist jobs := by
  induction jobs with
  | nil => exact .slnil
  | cons job rest ih =>
      rw [attempted]
      split
      · exact .cons_cons job (List.nil_sublist rest)
      · exact .cons_cons job ih

section Jobs

variable {access : FileAccess (StateT (List Call) (StateM Store))} {options : RunOptions}
  {answer : String → Except ReadFault String} {denials : Denials} {root : String}
  {store now next final : Store} {job : Job} {rest : List Job} {log log' : List LogEvent}
  {calls calls' : List Call}

/-- Jobs end with the first one that fails. -/
theorem does_runJobs_of_error {fault : JobFault}
    (h : Does (runJob access options job) store ⟨log, .error fault⟩ calls next) :
    Does (runJobs access options (job :: rest)) store ⟨log, .error (.job job fault)⟩ calls
      next := by
  rw [runJobs, ← List.append_nil calls]
  exact h.bind (.pure _)

/-- Jobs go on after one that completes. -/
theorem does_runJobs_of_ok {result : Result} {value : Except RunFailure (List Finished)}
    (h : Does (runJob access options job) store ⟨log, .ok result⟩ calls next)
    (hrest : Does (runJobs access options rest) next ⟨log', value⟩ calls' final) :
    Does (runJobs access options (job :: rest)) store
      ⟨log ++ log', value.map (⟨job, result⟩ :: ·)⟩ (calls ++ calls') final := by
  rw [runJobs]
  apply h.bind
  rw [← List.append_nil calls']
  exact hrest.bind (.pure _)

/-- Rehearsed jobs make their reads and leave the store. -/
theorem runJobs_rehearsed (denials : Denials) (root : String) (store : Store)
    (jobs : List Job) :
    ∃ log, Does (runJobs (Store.denying denials).noting { root, rehearse := true } jobs) store
      ⟨log, previewAll (store.look denials) root jobs⟩
      ((attempted (store.look denials) root jobs).flatMap fun job =>
        (job.reads (store.look denials) root).map .read) store := by
  induction jobs with
  | nil => exact ⟨_, .pure _⟩
  | cons job rest ih =>
      obtain ⟨log, hjob⟩ := runJob_rehearsed denials root store job
      rw [previewAll, attempted]
      cases hpreview : job.preview (store.look denials) root with
      | error fault =>
          rw [hpreview] at hjob
          refine ⟨log, ?_⟩
          rw [List.flatMap_singleton]
          exact does_runJobs_of_error hjob
      | ok result =>
          rw [hpreview] at hjob
          obtain ⟨log', hrest⟩ := ih
          refine ⟨log ++ log', ?_⟩
          rw [List.flatMap_cons]
          exact does_runJobs_of_ok hjob hrest

/-- Jobs that read nothing that an earlier one writes come to what their rehearsal comes to.
The store may have moved on, as long as it answers their reads as at the beginning. -/
theorem runJobs_foreseen (haccepts : ∀ path, denials.writes path = false) {jobs : List Job}
    (hsame : ∀ job ∈ attempted answer root jobs, ∀ path ∈ job.reads answer root,
      now.look denials path = answer path)
    (hspares : (attempted answer root jobs).Pairwise (Job.Spares answer root)) :
    ∃ log calls final, Does (runJobs (Store.denying denials).noting { root } jobs) now
      ⟨log, previewAll answer root jobs⟩ calls final := by
  induction jobs generalizing now with
  | nil => exact ⟨_, _, _, .pure _⟩
  | cons job rest ih =>
      rw [previewAll]
      rw [attempted] at hsame hspares
      have hfirst : ∀ path ∈ job.reads answer root, now.look denials path = answer path := by
        apply hsame
        split <;> exact List.mem_cons_self
      have hpreview := Job.preview_congr hfirst
      rcases runJob_cases denials root now job with
        ⟨result, calls, writes, hjob, log, hdoes⟩ | ⟨fault, calls, hfails, log, hdoes⟩
      · have hok : job.preview answer root = .ok result := hpreview.symm.trans hjob.preview_eq
        rw [hok] at hsame hspares
        obtain ⟨hspared, hspares⟩ := List.pairwise_cons.mp hspares
        -- the write of this job changes no answer that a later one reads
        have hlater : ∀ later ∈ attempted answer root rest, ∀ path ∈ later.reads answer root,
            (now.writeAll writes).look denials path = answer path := by
          intro later hlater path hpath
          rw [hjob.look_writeAll]
          · exact hsame later (List.mem_cons_of_mem _ hlater) path hpath
          · intro hfound
            refine hspared later hlater ?_ path hpath
            rwa [← hfirst _ (Job.source_mem_reads answer root job)]
        obtain ⟨log', calls', final, hrest⟩ := ih hlater hspares
        rw [hok]
        exact ⟨_, _, _, does_runJobs_of_ok hdoes hrest⟩
      · have herror : job.preview answer root = .error fault :=
          hpreview.symm.trans (hfails.preview_eq haccepts)
        rw [herror]
        exact ⟨_, _, _, does_runJobs_of_error hdoes⟩

end Jobs

/-! ## Batches -/

/-- The jobs of a batch up to the first one that fails; a faulty configuration has none. -/
def Config.attempted (config : Config) (answer : String → Except ReadFault String)
    (root : String) : List Job :=
  match config.fault? with
  | some _ => []
  | none => Batch.attempted answer root config.jobs

/-- Only jobs of the configuration are attempted, in their order. -/
theorem Config.attempted_sublist (config : Config) (answer : String → Except ReadFault String)
    (root : String) : (config.attempted answer root).Sublist config.jobs := by
  rw [attempted]
  split
  · exact List.nil_sublist _
  · exact Batch.attempted_sublist answer root config.jobs

/-- A rehearsal makes the reads of the jobs that it attempts and no other calls, and leaves
the store, whether it fails or not. If none of these jobs reads a path that an earlier one
writes, the batch itself, when no write is refused, fails with the same failure or finishes
the same jobs in the same way. -/
theorem run_rehearsed (denials : Denials) (root : String) (config : Config) (store : Store) :
    ∃ rehearsed,
      (run (Store.denying denials) { root, rehearse := true } config).run store =
        (rehearsed, store) ∧
      Does (run (Store.denying denials).noting { root, rehearse := true } config) store rehearsed
        ((config.attempted (store.look denials) root).flatMap fun job =>
          (job.reads (store.look denials) root).map .read) store ∧
      ((config.attempted (store.look denials) root).Pairwise
          (Job.Spares (store.look denials) root) →
        ∃ logged final,
          (run (Store.denying denials.accepting) { root } config).run store = (logged, final) ∧
          logged.value = rehearsed.value) := by
  have hplain := run_forgets (Store.denying denials) { root, rehearse := true } config
  have hplain' := run_forgets (Store.denying denials.accepting) { root } config
  rw [Config.attempted]
  cases hfault : config.fault? with
  | some fault =>
      have hnothing : ∀ (access : FileAccess (StateT (List Call) (StateM Store)))
          (options : RunOptions), Does (run access options config) store
            ⟨[], .error (.config fault)⟩ [] store := by
        intro access options
        rw [run, hfault]
        exact .pure _
      refine ⟨_, (hnothing _ _).plain hplain, hnothing _ _, fun _ => ?_⟩
      exact ⟨_, _, (hnothing _ _).plain hplain', rfl⟩
  | none =>
      have hrun : ∀ (access : FileAccess (StateT (List Call) (StateM Store)))
          (options : RunOptions), run access options config =
            runJobs access options config.jobs := by
        intro access options
        rw [run, hfault]
      obtain ⟨log, hrehearsed⟩ := runJobs_rehearsed denials root store config.jobs
      rw [← hrun] at hrehearsed
      refine ⟨_, hrehearsed.plain hplain, hrehearsed, fun hspares => ?_⟩
      have haccepts : ∀ path, denials.accepting.writes path = false := fun _ => rfl
      have hsame : ∀ job ∈ attempted (store.look denials) root config.jobs,
          ∀ path ∈ job.reads (store.look denials) root,
            store.look denials.accepting path = store.look denials path :=
        fun _ _ _ _ => rfl
      obtain ⟨log', calls, final, hdoes⟩ := runJobs_foreseen haccepts hsame hspares
      rw [← hrun] at hdoes
      exact ⟨_, final, hdoes.plain hplain', rfl⟩

/-- Maps that are all written to one file. -/
def mapsInOneFile : Kind where
  name := "maps"
  source := entityMark ++ ".asm"
  target := "out.asm"
  entrySize := 1

/-- Two entities whose maps are written to one file. -/
def twoInOneFile : Config where
  entities := [{ name := "A" }, { name := "B" }]
  kinds := [mapsInOneFile]

/-- That file and the maps of the first entity. -/
def firstOfTwo : Store :=
  (({} : Store).insert "art/A.asm" "\tdc.w X-T,Y-T\nX:\n\tdc.w 0\nY:\n\tdc.w 0\n").insert
    "art/out.asm" "\tdc.w X-T,Y-T\n"

/-- Everything may be read, and nothing written. -/
def readOnly : Denials where
  reads _ := false
  writes _ := true

/-- The second of two entities with one file has no source, so it does not read what the
first one writes there. The rehearsal foresees both, although it could not write. -/
theorem run_rehearsed_of_shared_target :
    (twoInOneFile.attempted (firstOfTwo.look readOnly) "art").Pairwise
        (Job.Spares (firstOfTwo.look readOnly) "art") ∧
      ∃ rehearsed logged final,
        (run (Store.denying readOnly) { root := "art", rehearse := true } twoInOneFile).run
          firstOfTwo = (rehearsed, firstOfTwo) ∧
        (run (Store.denying readOnly.accepting) { root := "art" } twoInOneFile).run firstOfTwo =
          (logged, final) ∧
        logged.value = rehearsed.value ∧
        rehearsed.value = .ok [⟨⟨{ name := "A" }, mapsInOneFile⟩,
            .written "art/out.asm" ⟨1, 2, 2, 1, 0⟩⟩,
          ⟨⟨{ name := "B" }, mapsInOneFile⟩, .skipped "art/B.asm"⟩] := by
  have hspares : (twoInOneFile.attempted (firstOfTwo.look readOnly) "art").Pairwise
      (Job.Spares (firstOfTwo.look readOnly) "art") := by
    apply List.Pairwise.sublist (Config.attempted_sublist _ _ _)
    have hjobs : twoInOneFile.jobs =
        [⟨{ name := "A" }, mapsInOneFile⟩, ⟨{ name := "B" }, mapsInOneFile⟩] := rfl
    have hreads : Job.reads (firstOfTwo.look readOnly) "art" ⟨{ name := "B" }, mapsInOneFile⟩ =
        ["art/B.asm"] := by
      decide +kernel
    rw [hjobs, List.pairwise_pair]
    intro _ path hpath
    rw [hreads] at hpath
    rw [List.mem_singleton.mp hpath]
    decide +kernel
  obtain ⟨rehearsed, hrehearsed, -, hforesees⟩ :=
    run_rehearsed readOnly "art" twoInOneFile firstOfTwo
  obtain ⟨logged, final, hrun, hvalue⟩ := hforesees hspares
  refine ⟨hspares, rehearsed, logged, final, hrehearsed, hrun, hvalue, ?_⟩
  have hresults : ((run (Store.denying readOnly) { root := "art", rehearse := true }
      twoInOneFile).run firstOfTwo).1.value = .ok [⟨⟨{ name := "A" }, mapsInOneFile⟩,
          .written "art/out.asm" ⟨1, 2, 2, 1, 0⟩⟩,
        ⟨⟨{ name := "B" }, mapsInOneFile⟩, .skipped "art/B.asm"⟩] := by
    decide +kernel
  rwa [hrehearsed] at hresults

end SpriteTables.Batch
