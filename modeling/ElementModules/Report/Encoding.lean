import ElementModules.Json.Shape
import ElementModules.Report.Basic

/-!
# Reports as JSON

A report is written as a record of its fields, in which stages and outcomes stand as lower-case
names. An entry without explanation has no such field; on reading, `null` means the same.
-/

namespace ElementModules

/-- The stages by their names. -/
def Stage.names : List (Text × Stage) :=
  [("normalize", .normalize), ("convert", .convert), ("generate", .generate), ("patch", .patch),
    ("index", .index)]

/-- The outcomes by their names. -/
def Outcome.names : List (Text × Outcome) :=
  [.created, .moved, .removed, .written, .unchanged, .skipped, .conflict, .fallback, .failed].map
    fun o => (o.label, o)

/-- The name of a stage in JSON. -/
def Stage.name : Stage → Text
  | .normalize => "normalize"
  | .convert => "convert"
  | .generate => "generate"
  | .patch => "patch"
  | .index => "index"

theorem Stage.lookup_names (s : Stage) : names.lookup s.name = some s := by
  cases s <;> decide

theorem Outcome.lookup_names (o : Outcome) : names.lookup o.label = some o := by
  cases o <;> decide

namespace Entry

/-- The keys of an entry in order. -/
def keys : List Text := ["stage", "path", "outcome", "detail"]

/-- An entry as a record. -/
def toJson (e : Entry) : Json :=
  let explanation : List (Text × Json) := match e.detail with
    | some d => [("detail", .string d)]
    | none => []
  .object ([(("stage" : Text), .string e.stage.name), ("path", .string e.path.text),
    ("outcome", .string e.outcome.label)] ++ explanation)

/-- The entry that a record stands for. -/
def ofJson? (v : Json) : Option Entry := do
  let fields ← v.asRecord? keys
  let stage ← Json.required? fields "stage" (Json.asCase? Stage.names)
  let path ← Json.required? fields "path" Json.asText?
  let outcome ← Json.required? fields "outcome" (Json.asCase? Outcome.names)
  let detail ← Json.optional? fields "detail" (Json.asOption? Json.asText?) none
  return { stage, path := ⟨path⟩, outcome, detail }

end Entry

namespace StageReport

/-- The keys of a stage report in order. -/
def keys : List Text := ["stage", "entries"]

/-- A stage report as a record. -/
def toJson (r : StageReport) : Json :=
  .object [("stage", .string r.stage.name), ("entries", .array (r.entries.map Entry.toJson))]

/-- The stage report that a record stands for. -/
def ofJson? (v : Json) : Option StageReport := do
  let fields ← v.asRecord? keys
  let stage ← Json.required? fields "stage" (Json.asCase? Stage.names)
  let entries ← Json.required? fields "entries" (Json.asList? Entry.ofJson?)
  return { stage, entries }

end StageReport

namespace RunReport

/-- The keys of a run report. -/
def keys : List Text := ["stages"]

/-- A run report as a record. -/
def toJson (r : RunReport) : Json :=
  .object [("stages", .array (r.stages.map StageReport.toJson))]

/-- The run report that a record stands for. -/
def ofJson? (v : Json) : Option RunReport := do
  let fields ← v.asRecord? keys
  let stages ← Json.required? fields "stages" (Json.asList? StageReport.ofJson?)
  return { stages }

/-- The run report that a JSON text holds. -/
def parse? (t : Text) : Option RunReport :=
  (Json.parse? t).bind ofJson?

end RunReport

end ElementModules
