/-!
# What is logged

Work on artifacts leaves remarks that are no errors. They are data, returned beside the result, so
that a log can be compared and reasoned about. Of two steps the second one needs the first to
succeed, and the remarks of a failed step are kept (`Logged.andThen`).
-/

set_option autoImplicit false

namespace SpriteTables

/-- How important a remark is: `debug` remarks are for those who look into the reading of an
artifact, `info` is for everybody, and at `warn` something may be wrong. -/
inductive LogLevel where
  | debug
  | info
  | warn
deriving DecidableEq, Repr

/-- The name of a level. -/
def LogLevel.name : LogLevel → String
  | debug => "DEBUG"
  | info => "INFO"
  | warn => "WARN"

/-- A remark on the work done. Reading tells which label ended the offset table and began the
records, and how many labels at the end of the text name no record; placing tells which offset
entries have no record. A job is `skipped` for want of a source, `rehearsed` when it is done
without storing its result, and otherwise it `wrote` one. -/
inductive LogEvent where
  | switchedToData (label : String)
  | droppedLabels (count : Nat)
  | uncovered (label table : String)
  | skipped (kind entity path : String)
  | rehearsed (kind entity : String) (records : Nat)
  | wrote (path : String) (entries records : Nat)
deriving DecidableEq, Repr

namespace LogEvent

/-- How important an event is. -/
def level : LogEvent → LogLevel
  | switchedToData _ | droppedLabels _ => .debug
  | uncovered _ _ => .warn
  | skipped _ _ _ | rehearsed _ _ _ | wrote _ _ _ => .info

/-- The text of an event. -/
def message : LogEvent → String
  | switchedToData label =>
      s!"label '{label}' is referenced by the offset table, switching to record data"
  | droppedLabels count => s!"dropping {count} trailing label(s) without a record"
  | uncovered label table =>
      s!"offset entry '{label}-{table}' has no record in the source artifact"
  | skipped kind entity path => s!"skipping {kind} for {entity}: '{path}' does not exist"
  | rehearsed kind entity records =>
      s!"{kind} for {entity}: {records} distinct record(s), not written (dry run)"
  | wrote path entries records =>
      s!"wrote '{path}': {entries} offset entries, {records} distinct record(s)"

/-- An event as one line of a log. -/
def line (e : LogEvent) : String :=
  s!"{e.level.name} {e.message}"

end LogEvent

/-- A result and what was remarked on the way to it, in order. -/
structure Logged (α : Type) where
  log : List LogEvent
  value : α
deriving DecidableEq, Repr

namespace Logged

variable {ε α β : Type}

/-- Goes on from a success; the remarks of both steps are kept in order. -/
def andThen (first : Logged (Except ε α)) (next : α → Logged (Except ε β)) :
    Logged (Except ε β) :=
  match first.value with
  | .error e => ⟨first.log, .error e⟩
  | .ok a => ⟨first.log ++ (next a).log, (next a).value⟩

/-- Changes the error of a failed step. -/
def mapError {δ : Type} (f : ε → δ) (step : Logged (Except ε α)) : Logged (Except δ α) :=
  ⟨step.log, step.value.mapError f⟩

end Logged

end SpriteTables
