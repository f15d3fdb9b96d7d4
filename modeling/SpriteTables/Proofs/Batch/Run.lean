import SpriteTables.Proofs.Batch.Jobs
import SpriteTables.Proofs.Files.Calls

/-!
# What a batch comes to in a store

A job either completes or fails (`runJob_cases`). It completes with at most one write, which comes
after everything else, or without any when it has no source; a job that fails has written nothing.
So a batch leaves its store with the writes of a beginning of its jobs, and the calls it made are
those of these jobs and of the one that failed (`run_completes_prefix`).
-/

set_option autoImplicit false

namespace SpriteTables.Batch

open Files (FileAccess FileFault ReadFault Store Denials Call Does Forgets)

/-! ## Noting the calls of a batch -/

section Noting

variable {m : Type → Type} [Monad m] [LawfulMonad m] (access : FileAccess m)
  (options : RunOptions)

theorem storeResult_forgets (job : Job) (output : Output) :
    Forgets (storeResult access.noting options job output)
      (storeResult access options job output) := by
  rw [storeResult, storeResult]
  split
  · exact .pure _
  · apply Forgets.bind (Forgets.write access _ _)
    intro answer
    cases answer with
    | error cause => exact .pure _
    | ok done => exact .pure _

theorem runJob_forgets (job : Job) :
    Forgets (runJob access.noting options job) (runJob access options job) := by
  rw [runJob, runJob]
  apply Forgets.bind (Forgets.read access _)
  intro sourceAnswer
  cases sourceAnswer with
  | error fault =>
      cases fault with
      | missing => exact .pure _
      | refused cause => exact .pure _
  | ok sourceText =>
      apply Forgets.bind (Forgets.read access _)
      intro targetAnswer
      cases targetAnswer with
      | error fault => exact .pure _
      | ok targetText =>
          simp only
          cases (job.minify options.root sourceText targetText).value with
          | error failure => exact .pure _
          | ok output =>
              apply Forgets.bind (storeResult_forgets access options job output)
              intro stored
              exact .pure _

theorem runJobs_forgets (jobs : List Job) :
    Forgets (runJobs access.noting options jobs) (runJobs access options jobs) := by
  induction jobs with
  | nil => exact .pure _
  | cons job rest ih =>
      rw [runJobs, runJobs]
      apply Forgets.bind (runJob_forgets access options job)
      intro first
      cases first.value with
      | error fault => exact .pure _
      | ok result =>
          apply Forgets.bind ih
          intro others
          exact .pure _

/-- Noting the calls of a batch changes nothing else. -/
theorem run_forgets (config : Config) :
    Forgets (run access.noting options config) (run access options config) := by
  rw [run, run]
  cases config.fault? with
  | some fault => exact .pure _
  | none => exact runJobs_forgets access options config.jobs

end Noting

/-! ## One job -/

/-- A job completes in a store, with a result, some calls and some writes. Without a source
nothing else is read, and nothing is written. With one, the minified text of source and target, as
the store holds them, is written to the target. -/
inductive Completes (denials : Denials) (root : String) (store : Store) (job : Job) :
    Result → List Call → List (String × String) → Prop where
  | skipped (hsource : store.look denials (job.source root) = .error .missing) :
      Completes denials root store job (.skipped (job.source root))
        [.read (job.source root)] []
  | written {sourceText targetText : String} {output : Output}
      (hsource : store.look denials (job.source root) = .ok sourceText)
      (htarget : store.look denials (job.target root) = .ok targetText)
      (hminify : (job.minify root sourceText targetText).value = .ok output)
      (hwrite : denials.writes (job.target root) = false) :
      Completes denials root store job (.written (job.target root) output.statistics)
        [.read (job.source root), .read (job.target root),
          .write (job.target root) output.text]
        [(job.target root, output.text)]

/-- A job fails in a store, with a fault and some calls, and writes nothing. In this order, the
source is there but cannot be read, the target is missing or cannot be read, the texts cannot be
minified, or the write is refused. -/
inductive Fails (denials : Denials) (root : String) (store : Store) (job : Job) :
    JobFault → List Call → Prop where
  | source {cause : String}
      (hsource : store.look denials (job.source root) = .error (.refused cause)) :
      Fails denials root store job (.source (.refused (job.source root) cause))
        [.read (job.source root)]
  | target {sourceText : String} {fault : ReadFault}
      (hsource : store.look denials (job.source root) = .ok sourceText)
      (htarget : store.look denials (job.target root) = .error fault) :
      Fails denials root store job (.target (.ofRead (job.target root) fault))
        [.read (job.source root), .read (job.target root)]
  | minify {sourceText targetText : String} {failure : Failure}
      (hsource : store.look denials (job.source root) = .ok sourceText)
      (htarget : store.look denials (job.target root) = .ok targetText)
      (hminify : (job.minify root sourceText targetText).value = .error failure) :
      Fails denials root store job (.minify failure)
        [.read (job.source root), .read (job.target root)]
  | store {sourceText targetText : String} {output : Output}
      (hsource : store.look denials (job.source root) = .ok sourceText)
      (htarget : store.look denials (job.target root) = .ok targetText)
      (hminify : (job.minify root sourceText targetText).value = .ok output)
      (hwrite : denials.writes (job.target root) = true) :
      Fails denials root store job (.store (.refused (job.target root) Store.refusal))
        [.read (job.source root), .read (job.target root),
          .write (job.target root) output.text]

section OneJob

variable {denials : Denials} {root : String} {store : Store} {job : Job} {result : Result}
  {calls : List Call} {writes : List (String × String)}

/-- A job that completes is skipped exactly when its source is missing. -/
theorem Completes.isWritten_eq_false_iff
    (h : Completes denials root store job result calls writes) :
    Finished.isWritten ⟨job, result⟩ = false ↔
      store.look denials (job.source root) = .error .missing := by
  cases h with
  | skipped hsource => exact iff_of_true rfl hsource
  | written hsource =>
      rw [hsource]
      constructor
      · intro hskipped
        cases hskipped
      · intro hmissing
        cases hmissing

/-- A job that fails has a source, be it one that cannot be read. -/
theorem Fails.look_ne_missing {fault : JobFault}
    (h : Fails denials root store job fault calls) :
    store.look denials (job.source root) ≠ .error .missing := by
  intro hmissing
  cases h with
  | source hsource => rw [hmissing] at hsource; cases hsource
  | target hsource => rw [hmissing] at hsource; cases hsource
  | minify hsource => rw [hmissing] at hsource; cases hsource
  | store hsource => rw [hmissing] at hsource; cases hsource

/-- Storing a result that the store refuses leaves it. -/
theorem does_storeResult_denied (hwrite : denials.writes (job.target root) = true)
    (output : Output) :
    Does (storeResult (Store.denying denials).noting { root } job output) store
      ⟨[], .error (.store (.refused (job.target root) Store.refusal))⟩
      [.write (job.target root) output.text] store := by
  rw [storeResult]
  exact (Does.write_denied hwrite store output.text).bind (.pure _)

/-- Storing a result puts its text at the target. -/
theorem does_storeResult (hwrite : denials.writes (job.target root) = false) (output : Output) :
    Does (storeResult (Store.denying denials).noting { root } job output) store
      ⟨[.wrote (job.target root) output.statistics.offsetEntries
        output.statistics.distinctRecords],
        .ok (.written (job.target root) output.statistics)⟩
      [.write (job.target root) output.text] (store.write (job.target root) output.text) := by
  rw [storeResult]
  exact (Does.write hwrite store output.text).bind (.pure _)

/-- A job completes, and the store gets its writes, or fails, and the store stays. -/
theorem runJob_cases (denials : Denials) (root : String) (store : Store) (job : Job) :
    (∃ result calls writes, Completes denials root store job result calls writes ∧
      ∃ log, Does (runJob (Store.denying denials).noting { root } job) store
        ⟨log, .ok result⟩ calls (store.writeAll writes)) ∨
    ∃ fault calls, Fails denials root store job fault calls ∧
      ∃ log, Does (runJob (Store.denying denials).noting { root } job) store
        ⟨log, .error fault⟩ calls store := by
  have hreadSource := Does.read denials store (job.source root)
  have hreadTarget := Does.read denials store (job.target root)
  rw [runJob]
  cases hsource : store.look denials (job.source root) with
  | error fault =>
      rw [hsource] at hreadSource
      cases fault with
      | missing =>
          left
          exact ⟨_, _, _, .skipped hsource, _, hreadSource.bind (.pure _)⟩
      | refused cause =>
          right
          exact ⟨_, _, .source hsource, _, hreadSource.bind (.pure _)⟩
  | ok sourceText =>
      rw [hsource] at hreadSource
      cases htarget : store.look denials (job.target root) with
      | error fault =>
          rw [htarget] at hreadTarget
          right
          exact ⟨_, _, .target hsource htarget, _, hreadSource.bind (hreadTarget.bind (.pure _))⟩
      | ok targetText =>
          rw [htarget] at hreadTarget
          cases hminify : (job.minify root sourceText targetText).value with
          | error failure =>
              right
              refine ⟨_, _, .minify hsource htarget hminify,
                (job.minify root sourceText targetText).log, ?_⟩
              apply hreadSource.bind
              apply hreadTarget.bind
              simp only [hminify]
              exact .pure _
          | ok output =>
              -- the write comes last, and decides
              cases hwrite : denials.writes (job.target root) with
              | true =>
                  have hstored : Does _ store _ _ store := does_storeResult_denied hwrite output
                  right
                  refine ⟨_, _, .store hsource htarget hminify hwrite,
                    (job.minify root sourceText targetText).log ++ [], ?_⟩
                  apply hreadSource.bind
                  apply hreadTarget.bind
                  simp only [hminify]
                  exact hstored.bind (.pure _)
              | false =>
                  have hstored : Does _ store _ _ _ := does_storeResult hwrite output
                  left
                  refine ⟨_, _, _, .written hsource htarget hminify hwrite,
                    (job.minify root sourceText targetText).log ++ [.wrote (job.target root)
                      output.statistics.offsetEntries output.statistics.distinctRecords], ?_⟩
                  apply hreadSource.bind
                  apply hreadTarget.bind
                  simp only [hminify]
                  exact hstored.bind (.pure _)

end OneJob

/-! ## Jobs in a row -/

/-- Jobs complete in a row, each in the store that those before it left. -/
inductive CompleteAll (denials : Denials) (root : String) :
    Store → List Finished → List Call → List (String × String) → Prop where
  | nil {store : Store} : CompleteAll denials root store [] [] []
  | cons {store : Store} {job : Job} {result : Result} {calls calls' : List Call}
      {writes writes' : List (String × String)} {done : List Finished}
      (hjob : Completes denials root store job result calls writes)
      (hrest : CompleteAll denials root (store.writeAll writes) done calls' writes') :
      CompleteAll denials root store (⟨job, result⟩ :: done) (calls ++ calls')
        (writes ++ writes')

/-- The jobs that were done, of some that need no more work. -/
def written (done : List Finished) : List Finished :=
  done.filter (·.isWritten)

/-- The jobs without a source, of some that need no more work. -/
def skipped (done : List Finished) : List Finished :=
  done.filter (!·.isWritten)

/-- A job that was done wrote its result to its target. -/
def Finished.Wrote (root : String) (finished : Finished) (write : String × String) : Prop :=
  ∃ output : Output,
    finished.result = .written (finished.job.target root) output.statistics ∧
    write = (finished.job.target root, output.text)

section Runs

variable {denials : Denials} {root : String} {store : Store} {config : Config}
  {done : List Finished} {calls : List Call} {writes : List (String × String)}

/-- Each write belongs to one of the jobs that were done, in their order. -/
theorem CompleteAll.wrote (h : CompleteAll denials root store done calls writes) :
    List.Forall₂ (Finished.Wrote root) (written done) writes := by
  induction h with
  | nil => exact .nil
  | cons hjob _ ih =>
      cases hjob with
      | skipped => exact ih
      | @written _ _ output => exact .cons ⟨output, rfl, rfl⟩ ih

/-- Jobs complete up to the last one, or up to one that fails; the store gets the writes of
those that complete. -/
theorem runJobs_cases (denials : Denials) (root : String) (store : Store) (jobs : List Job) :
    (∃ done calls writes, CompleteAll denials root store done calls writes ∧
      done.map (·.job) = jobs ∧
      ∃ log, Does (runJobs (Store.denying denials).noting { root } jobs) store
        ⟨log, .ok done⟩ calls (store.writeAll writes)) ∨
    ∃ done calls writes job rest fault last,
      CompleteAll denials root store done calls writes ∧
      Fails denials root (store.writeAll writes) job fault last ∧
      jobs = done.map (·.job) ++ job :: rest ∧
      ∃ log, Does (runJobs (Store.denying denials).noting { root } jobs) store
        ⟨log, .error (.job job fault)⟩ (calls ++ last) (store.writeAll writes) := by
  induction jobs generalizing store with
  | nil =>
      left
      exact ⟨[], [], [], .nil, rfl, [], .pure _⟩
  | cons job jobs ih =>
      rw [runJobs]
      rcases runJob_cases denials root store job with
        ⟨result, calls, writes, hjob, log, hdoes⟩ | ⟨fault, calls, hfails, log, hdoes⟩
      · rcases ih (store.writeAll writes) with
          ⟨done, calls', writes', hall, hjobs, log', hothers⟩ |
          ⟨done, calls', writes', failing, rest, fault, last, hall, hfails, hjobs, log', hothers⟩
        · left
          refine ⟨⟨job, result⟩ :: done, _, _, .cons hjob hall, ?_, log ++ log', ?_⟩
          · rw [List.map_cons, hjobs]
          · rw [Files.writeAll_append]
            apply hdoes.bind
            rw [← List.append_nil calls']
            exact hothers.bind (.pure _)
        · right
          refine ⟨⟨job, result⟩ :: done, _, _, failing, rest, fault, last, .cons hjob hall, ?_, ?_,
            log ++ log', ?_⟩
          · rw [Files.writeAll_append]
            exact hfails
          · rw [List.map_cons, hjobs, List.cons_append]
          · rw [Files.writeAll_append, List.append_assoc]
            apply hdoes.bind
            rw [← List.append_nil (calls' ++ last)]
            exact hothers.bind (.pure _)
      · right
        refine ⟨[], [], [], job, jobs, fault, calls, .nil, hfails, rfl, log, ?_⟩
        rw [List.nil_append, ← List.append_nil calls]
        exact hdoes.bind (.pure _)

/-- What the jobs that need no more work say about a batch: each entity and kind is in exactly one
of the two lists, both are in the order of the jobs, and the writes are those of the jobs that
were done. -/
structure Reported (root : String) (config : Config) (done : List Finished)
    (writes : List (String × String)) : Prop where
  jobs_eq : done.map (·.job) = config.jobs
  once : ∀ entity ∈ config.entities, ∀ kind ∈ config.kinds,
    ((entity.name, kind.name) ∈ (written done).map (·.job.names) ↔
      (entity.name, kind.name) ∉ (skipped done).map (·.job.names))
  written_sublist : ((written done).map (·.job)).Sublist config.jobs
  skipped_sublist : ((skipped done).map (·.job)).Sublist config.jobs
  wrote : List.Forall₂ (Finished.Wrote root) (written done) writes

/-- If all jobs of a configuration without faults complete, their list reports them. -/
theorem CompleteAll.reported (hfault : config.fault? = none)
    (h : CompleteAll denials root store done calls writes)
    (hjobs : done.map (·.job) = config.jobs) : Reported root config done writes := by
  have hnames : (done.map (·.job.names)).Nodup := by
    have hnodup := Config.nodup_jobNames hfault
    rw [← hjobs, List.map_map] at hnodup
    exact hnodup
  refine ⟨hjobs, ?_, ?_, ?_, h.wrote⟩
  · intro entity hentity kind hkind
    have hjob : (⟨entity, kind⟩ : Job) ∈ done.map (·.job) := by
      rw [hjobs]
      exact List.mem_flatMap.mpr ⟨entity, hentity, List.mem_map_of_mem hkind⟩
    obtain ⟨finished, hfinished, hjob⟩ := List.mem_map.mp hjob
    have hself : finished.job.names = (entity.name, kind.name) := congrArg Job.names hjob
    constructor
    · intro hwritten hskipped
      obtain ⟨x, hx, hxnames⟩ := List.mem_map.mp hwritten
      obtain ⟨y, hy, hynames⟩ := List.mem_map.mp hskipped
      obtain ⟨hx, hxw⟩ := List.mem_filter.mp hx
      obtain ⟨hy, hyw⟩ := List.mem_filter.mp hy
      obtain rfl := List.inj_on_of_nodup_map hnames hx hy (hxnames.trans hynames.symm)
      simp [hxw] at hyw
    · intro hnot
      apply List.mem_map.mpr
      refine ⟨finished, List.mem_filter.mpr ⟨hfinished, ?_⟩, hself⟩
      by_contra hskipped
      apply hnot
      refine List.mem_map.mpr ⟨finished, List.mem_filter.mpr ⟨hfinished, ?_⟩, hself⟩
      simpa using hskipped
  · rw [← hjobs]
    exact List.filter_sublist.map _
  · rw [← hjobs]
    exact List.filter_sublist.map _

end Runs

/-- A batch completes a beginning of its jobs and never half a job. It comes to a result,
makes some calls and leaves the store with some writes. With a faulty configuration there
are no calls and no writes. Without, either all jobs complete in a row and the list of them
reports every entity and kind, or they complete up to one job that fails, and all writes are
those of the jobs before it. Any paths may refuse; those that lists name are a case of this
by `access_eq_denying`. -/
theorem run_completes_prefix (denials : Denials) (root : String) (config : Config)
    (store : Store) :
    ∃ logged calls writes,
      (run (Store.denying denials) { root } config).run store =
        (logged, store.writeAll writes) ∧
      Does (run (Store.denying denials).noting { root } config) store logged calls
        (store.writeAll writes) ∧
      (store.writeAll writes).writes = store.writes ++ writes ∧
      match config.fault? with
      | some fault => logged.value = .error (.config fault) ∧ calls = [] ∧ writes = []
      | none =>
          (∃ done, logged.value = .ok done ∧
            CompleteAll denials root store done calls writes ∧
            Reported root config done writes) ∨
          ∃ done before job rest fault last, logged.value = .error (.job job fault) ∧
            config.jobs = done.map (·.job) ++ job :: rest ∧
            CompleteAll denials root store done before writes ∧
            Fails denials root (store.writeAll writes) job fault last ∧
            calls = before ++ last := by
  have hplain := run_forgets (Store.denying denials) { root } config
  cases hfault : config.fault? with
  | some fault =>
      have hdoes : Does (run (Store.denying denials).noting { root } config) store
          ⟨[], .error (.config fault)⟩ [] store := by
        rw [run, hfault]
        exact .pure _
      exact ⟨_, [], [], hdoes.plain hplain, hdoes, Files.writes_writeAll, rfl, rfl, rfl⟩
  | none =>
      have hrun : run (Store.denying denials).noting { root } config =
          runJobs (Store.denying denials).noting { root } config.jobs := by
        rw [run, hfault]
      rcases runJobs_cases denials root store config.jobs with
        ⟨done, calls, writes, hall, hjobs, log, hdoes⟩ |
        ⟨done, before, writes, job, rest, fault, last, hall, hfails, hjobs, log, hdoes⟩
      · rw [← hrun] at hdoes
        refine ⟨_, calls, writes, hdoes.plain hplain, hdoes, Files.writes_writeAll, ?_⟩
        exact Or.inl ⟨done, rfl, hall, hall.reported hfault hjobs⟩
      · rw [← hrun] at hdoes
        refine ⟨_, _, writes, hdoes.plain hplain, hdoes, Files.writes_writeAll, ?_⟩
        exact Or.inr ⟨done, before, job, rest, fault, last, rfl, hjobs, hall, hfails, rfl⟩

end SpriteTables.Batch
