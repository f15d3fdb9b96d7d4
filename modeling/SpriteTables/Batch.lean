import SpriteTables.Batch.Config
import SpriteTables.Files.Access

/-!
# Running a batch

A batch is a list of jobs, one for every entity and kind (`Config.jobs`). A job without a source
is skipped; any other fault ends the run, and what was written before stays. A fault is told as a
chain of messages, from the outermost one to the cause.
-/

set_option autoImplicit false

namespace SpriteTables.Batch

open Files (FileAccess FileFault)

/-! ## Jobs -/

/-- Minifying one kind of artifact of one entity. -/
structure Job where
  entity : Entity
  kind : Kind
deriving DecidableEq, Repr

/-- The jobs of a batch: for each entity, every kind. -/
def Config.jobs (config : Config) : List Job :=
  config.entities.flatMap fun entity => config.kinds.map fun kind => ⟨entity, kind⟩

namespace Job

/-- Where the records of a job are. -/
def source (job : Job) (root : String) : String :=
  job.kind.sourcePath root job.entity.name

/-- Where the offset tables of a job are, and where its result goes. -/
def target (job : Job) (root : String) : String :=
  job.kind.targetPath root job.entity.name

/-- How a job minifies. -/
def options (job : Job) : Options where
  entrySize := job.kind.entrySize
  payload := job.kind.payload
  order := if job.entity.interleave then .interleaved else .sequential

/-- Minifies the two texts of a job. -/
def minify (job : Job) (root sourceText targetText : String) :
    Logged (Except Failure Output) :=
  minifyTexts job.options ⟨job.source root, sourceText⟩ ⟨job.target root, targetText⟩

end Job

/-! ## Failures -/

/-- Why a job cannot be done: its source or its target cannot be read, their texts cannot be
minified, or the result cannot be stored. -/
inductive JobFault where
  | source (fault : FileFault)
  | target (fault : FileFault)
  | minify (failure : Failure)
  | store (fault : FileFault)
deriving DecidableEq, Repr

/-- The messages of a job's fault, the outermost first. -/
def JobFault.chain (colored : Bool) (job : Job) : JobFault → List String
  | source fault =>
      s!"failed to load {job.kind.name} source for {job.entity.name}" :: fault.chain
  | target fault =>
      s!"failed to load {job.kind.name} target for {job.entity.name}" :: fault.chain
  | minify failure =>
      [s!"failed to minify {job.kind.name} for {job.entity.name}", failure.report colored]
  | store fault =>
      s!"failed to store {job.kind.name} for {job.entity.name}" :: fault.chain

/-- Why a batch was not run to its end: its configuration is faulty, or one of its jobs cannot be
done. -/
inductive RunFailure where
  | config (fault : ConfigFault)
  | job (job : Job) (fault : JobFault)
deriving DecidableEq, Repr

/-- The messages of a failure, the outermost first. -/
def RunFailure.chain (colored : Bool) : RunFailure → List String
  | config fault => [fault.message]
  | job failed fault => fault.chain colored failed

/-! ## Results -/

/-- What became of a job. Either its result is `written` to the target path, or it was `skipped`
because the source at a path does not exist. -/
inductive Result where
  | written (path : String) (statistics : Statistics)
  | skipped (path : String)
deriving DecidableEq, Repr

/-- A job that needs no more work, and what became of it. -/
structure Finished where
  job : Job
  result : Result
deriving DecidableEq, Repr

/-- A job that was done. -/
def Finished.isWritten (finished : Finished) : Bool :=
  match finished.result with
  | .written _ _ => true
  | .skipped _ => false

/-! ## Running -/

/-- How a batch is run. Paths are relative to `root`; a rehearsal writes nothing. -/
structure RunOptions where
  root : String
  rehearse : Bool := false
deriving Repr

variable {m : Type → Type} [Monad m]

/-- Stores the result of a job, unless this is a rehearsal. -/
def storeResult (access : FileAccess m) (options : RunOptions) (job : Job) (output : Output) :
    m (Logged (Except JobFault Result)) := do
  let path := job.target options.root
  let counts := output.statistics
  let result := Result.written path counts
  if options.rehearse then
    return ⟨[.rehearsed job.kind.name job.entity.name counts.distinctRecords], .ok result⟩
  match ← access.write path output.text with
  | .error cause => return ⟨[], .error (.store (.refused path cause))⟩
  | .ok () => return ⟨[.wrote path counts.offsetEntries counts.distinctRecords], .ok result⟩

/-- Does one job: its source is read, then its target, and nothing is written
before everything else has succeeded. -/
def runJob (access : FileAccess m) (options : RunOptions) (job : Job) :
    m (Logged (Except JobFault Result)) := do
  let sourcePath := job.source options.root
  let targetPath := job.target options.root
  match ← access.read sourcePath with
  | .error .missing =>
      return ⟨[.skipped job.kind.name job.entity.name sourcePath], .ok (.skipped sourcePath)⟩
  | .error fault => return ⟨[], .error (.source (.ofRead sourcePath fault))⟩
  | .ok sourceText =>
      match ← access.read targetPath with
      | .error fault => return ⟨[], .error (.target (.ofRead targetPath fault))⟩
      | .ok targetText =>
          let minified := job.minify options.root sourceText targetText
          match minified.value with
          | .error failure => return ⟨minified.log, .error (.minify failure)⟩
          | .ok output =>
              let stored ← storeResult access options job output
              return ⟨minified.log ++ stored.log, stored.value⟩

/-- Does jobs in order, up to the first one that cannot be done. -/
def runJobs (access : FileAccess m) (options : RunOptions) :
    List Job → m (Logged (Except RunFailure (List Finished)))
  | [] => return ⟨[], .ok []⟩
  | job :: rest => do
      let first ← runJob access options job
      match first.value with
      | .error fault => return ⟨first.log, .error (.job job fault)⟩
      | .ok result =>
          let others ← runJobs access options rest
          return ⟨first.log ++ others.log, others.value.map (⟨job, result⟩ :: ·)⟩

/-- Runs a batch, if its configuration has no fault. -/
def run (access : FileAccess m) (options : RunOptions) (config : Config) :
    m (Logged (Except RunFailure (List Finished))) :=
  match config.fault? with
  | some fault => return ⟨[], .error (.config fault)⟩
  | none => runJobs access options config.jobs

end SpriteTables.Batch
