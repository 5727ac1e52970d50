import ElementModules.Path

/-!
# Reports

A stage reports one entry for every file or planned operation, in the order in which they ran, and a
run reports its stages. Main statements: `Summary.ofEntries_append` and `RunReport.summary_eq`, the
summary of a run is the summary of all of its entries.
-/

namespace ElementModules

/-- The stages of a run. -/
inductive Stage
  /-- Directories are created, files moved, stubs written. -/
  | normalize
  /-- Modules are put into canonical form. -/
  | convert
  /-- Modules are written from a table of elements. -/
  | generate
  /-- Registrations are repaired. -/
  | patch
  /-- Index modules are written. -/
  | index
  deriving DecidableEq, Repr

/-- What happened to a file or directory. -/
inductive Outcome
  /-- It did not exist and does now. -/
  | created
  /-- It is in another place now. -/
  | moved
  /-- It was an empty directory and is gone. -/
  | removed
  /-- Its content is new. -/
  | written
  /-- It was as it should be. -/
  | unchanged
  /-- There was nothing to work on. -/
  | skipped
  /-- Something else stands in its place and was kept. -/
  | conflict
  /-- A placeholder was written, because the old content could not be used. -/
  | fallback
  /-- An error kept it as it was. -/
  | failed
  deriving DecidableEq, Repr

/-- The name of a stage in headings. -/
def Stage.label : Stage → Text
  | .normalize => "Normalize"
  | .convert => "Convert"
  | .generate => "Generate"
  | .patch => "Patch"
  | .index => "Index"

namespace Outcome

/-- The name of an outcome. -/
def label : Outcome → Text
  | .created => "created"
  | .moved => "moved"
  | .removed => "removed"
  | .written => "written"
  | .unchanged => "unchanged"
  | .skipped => "skipped"
  | .conflict => "conflict"
  | .fallback => "fallback"
  | .failed => "failed"

/-- The sign in front of an entry. -/
def marker : Outcome → Text
  | .created | .written => "✔"
  | .moved => "→"
  | .removed => "✖"
  | .unchanged => "·"
  | .skipped | .conflict => "ℹ"
  | .fallback => "⚠"
  | .failed => "❌"

/-- Whether the tree was modified. -/
def isChange : Outcome → Bool
  | .created | .moved | .removed | .written | .fallback => true
  | _ => false

/-- Whether the outcome counts as a failure. -/
def isFailure : Outcome → Bool
  | .fallback | .failed => true
  | _ => false

end Outcome

/-- One line of a report. -/
structure Entry where
  stage : Stage
  /-- The file or directory. -/
  path : Path
  outcome : Outcome
  /-- An explanation. -/
  detail : Option Text := none
  deriving DecidableEq, Repr

/-- The entry as a line: the label is padded to nine characters. -/
def Entry.line (e : Entry) : Text :=
  let label := e.outcome.label
  let explanation : Text := match e.detail with
    | some d => " (" ++ d ++ ")"
    | none => ""
  e.outcome.marker ++ ' ' :: label ++ List.replicate (9 - label.length) ' ' ++ ' ' :: e.path.text
    ++ explanation

/-- How many entries had which outcome. -/
structure Summary where
  total : Nat := 0
  changed : Nat := 0
  unchanged : Nat := 0
  skipped : Nat := 0
  conflicts : Nat := 0
  failures : Nat := 0
  deriving DecidableEq, Repr

namespace Summary

/-- The summary of some entries. -/
def ofEntries (es : List Entry) : Summary where
  total := es.length
  changed := es.countP fun e => e.outcome.isChange
  unchanged := es.countP fun e => e.outcome = .unchanged
  skipped := es.countP fun e => e.outcome = .skipped
  conflicts := es.countP fun e => e.outcome = .conflict
  failures := es.countP fun e => e.outcome.isFailure

/-- The sum of two summaries. -/
def add (a b : Summary) : Summary where
  total := a.total + b.total
  changed := a.changed + b.changed
  unchanged := a.unchanged + b.unchanged
  skipped := a.skipped + b.skipped
  conflicts := a.conflicts + b.conflicts
  failures := a.failures + b.failures

theorem ofEntries_append (es fs : List Entry) :
    ofEntries (es ++ fs) = (ofEntries es).add (ofEntries fs) := by
  simp [ofEntries, add]

end Summary

/-- The entries of a stage. -/
structure StageReport where
  stage : Stage
  entries : List Entry := []
  deriving DecidableEq, Repr

namespace StageReport

/-- The report with an entry more. -/
def push (r : StageReport) (e : Entry) : StageReport :=
  { r with entries := r.entries ++ [e] }

/-- The report with an entry of its own stage more. -/
def record (r : StageReport) (path : Path) (outcome : Outcome) (detail : Option Text := none) :
    StageReport :=
  r.push ⟨r.stage, path, outcome, detail⟩

/-- The report with the entries of another one more. -/
def extend (r other : StageReport) : StageReport :=
  { r with entries := r.entries ++ other.entries }

/-- The first entry for a path. -/
def entryFor? (r : StageReport) (path : Path) : Option Entry :=
  r.entries.find? fun e => e.path.same path

/-- The entries with an outcome. -/
def withOutcome (r : StageReport) (outcome : Outcome) : List Entry :=
  r.entries.filter fun e => e.outcome = outcome

/-- The counts of a stage. -/
def summary (r : StageReport) : Summary :=
  .ofEntries r.entries

end StageReport

/-- The reports of the stages that ran, in order. -/
structure RunReport where
  stages : List StageReport := []
  deriving DecidableEq, Repr

namespace RunReport

/-- The first report of a stage. -/
def stage? (r : RunReport) (s : Stage) : Option StageReport :=
  r.stages.find? fun report => report.stage = s

/-- The summaries of the stages, added up. -/
def summary (r : RunReport) : Summary :=
  r.stages.foldr (fun report sum => report.summary.add sum) {}

/-- The summary of a run is the summary of all of its entries. -/
theorem summary_eq (r : RunReport) :
    r.summary = .ofEntries (r.stages.flatMap StageReport.entries) := by
  unfold summary
  induction r.stages with
  | nil => rfl
  | cons s stages ih =>
    rw [List.foldr_cons, List.flatMap_cons, Summary.ofEntries_append, ih]
    rfl

end RunReport

end ElementModules
