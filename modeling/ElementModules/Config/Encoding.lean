import ElementModules.Config.Check
import ElementModules.Json.Shape

/-!
# Configurations as JSON

A configuration is a record of records. Every field may be missing, except in the entries of the
lists of moves, stubs and libraries; the default stands in for it.
-/

namespace ElementModules

/-- The path that a string stands for. -/
def Path.ofJson? (v : Json) : Option Path :=
  v.asText?.map Path.mk

namespace Relocation

/-- The keys of a move in order. -/
def keys : List Text := ["from", "to"]

/-- A relocation as JSON. -/
def toJson (r : Relocation) : Json :=
  .object [("from", .string r.source.text), ("to", .string r.target.text)]

/-- The relocation that a JSON value holds. -/
def ofJson? (v : Json) : Option Relocation := do
  let fields ← v.asRecord? keys
  let source ← Json.required? fields "from" Path.ofJson?
  let target ← Json.required? fields "to" Path.ofJson?
  return { source, target }

end Relocation

namespace Stub

/-- The keys of a stub in order. -/
def keys : List Text := ["path", "body"]

/-- A stub as JSON. -/
def toJson (s : Stub) : Json :=
  .object [("path", .string s.path.text), ("body", .string s.body)]

/-- The stub that a JSON value holds. -/
def ofJson? (v : Json) : Option Stub := do
  let fields ← v.asRecord? keys
  let path ← Json.required? fields "path" Path.ofJson?
  let body ← Json.required? fields "body" Json.asText?
  return { path, body }

end Stub

namespace LayoutPlan

/-- The keys of a layout plan in order. -/
def keys : List Text := ["services_root", "directories", "relocations", "stubs"]

/-- A layout plan as JSON. -/
def toJson (l : LayoutPlan) : Json :=
  .object [("services_root", .string l.servicesRoot.text),
    ("directories", .array (l.directories.map fun d => .string d.text)),
    ("relocations", .array (l.relocations.map Relocation.toJson)),
    ("stubs", .array (l.stubs.map Stub.toJson))]

/-- The layout plan that a JSON value holds. -/
def ofJson? (v : Json) : Option LayoutPlan := do
  let fields ← v.asRecord? keys
  let default : LayoutPlan := {}
  let servicesRoot ← Json.optional? fields "services_root" Path.ofJson? default.servicesRoot
  let directories ←
    Json.optional? fields "directories" (Json.asList? Path.ofJson?) default.directories
  let relocations ←
    Json.optional? fields "relocations" (Json.asList? Relocation.ofJson?) default.relocations
  let stubs ← Json.optional? fields "stubs" (Json.asList? Stub.ofJson?) default.stubs
  return { servicesRoot, directories, relocations, stubs }

end LayoutPlan

namespace Library

/-- The keys of a library in order. -/
def keys : List Text := ["name", "dir"]

/-- A library as JSON. -/
def toJson (l : Library) : Json :=
  .object [("name", .string l.name), ("dir", .string l.dir.text)]

/-- The library that a JSON value holds. -/
def ofJson? (v : Json) : Option Library := do
  let fields ← v.asRecord? keys
  let name ← Json.required? fields "name" Json.asText?
  let dir ← Json.required? fields "dir" Path.ofJson?
  return { name, dir }

end Library

namespace Registry

/-- The keys of the registry settings in order. -/
def keys : List Text := ["receiver", "import_path", "index_file"]

/-- A registry as JSON. -/
def toJson (r : Registry) : Json :=
  .object [("receiver", .string r.receiver), ("import_path", .string r.importPath),
    ("index_file", .string r.indexFile)]

/-- The registry that a JSON value holds. -/
def ofJson? (v : Json) : Option Registry := do
  let fields ← v.asRecord? keys
  let default : Registry := {}
  let receiver ← Json.optional? fields "receiver" Json.asText? default.receiver
  let importPath ← Json.optional? fields "import_path" Json.asText? default.importPath
  let indexFile ← Json.optional? fields "index_file" Json.asText? default.indexFile
  return { receiver, importPath, indexFile }

end Registry

namespace ConvertSettings

/-- The keys of the settings in order. -/
def keys : List Text := ["backup", "backup_dir_prefix"]

/-- Conversion settings as JSON. -/
def toJson (s : ConvertSettings) : Json :=
  .object [("backup", .bool s.backup), ("backup_dir_prefix", .string s.backupPrefix)]

/-- The conversion settings that a JSON value holds. -/
def ofJson? (v : Json) : Option ConvertSettings := do
  let fields ← v.asRecord? keys
  let default : ConvertSettings := {}
  let backup ← Json.optional? fields "backup" Json.asBool? default.backup
  let backupPrefix ← Json.optional? fields "backup_dir_prefix" Json.asText? default.backupPrefix
  return { backup, backupPrefix }

end ConvertSettings

namespace GenerateSettings

/-- The keys of the settings in order. -/
def keys : List Text := ["output_dir", "overwrite", "table"]

/-- Generation settings as JSON. -/
def toJson (s : GenerateSettings) : Json :=
  let table : Json := match s.table with
    | some p => .string p.text
    | none => .null
  .object [("output_dir", .string s.outputDir.text), ("overwrite", .bool s.overwrite),
    ("table", table)]

/-- The generation settings that a JSON value holds. -/
def ofJson? (v : Json) : Option GenerateSettings := do
  let fields ← v.asRecord? keys
  let default : GenerateSettings := {}
  let outputDir ← Json.optional? fields "output_dir" Path.ofJson? default.outputDir
  let overwrite ← Json.optional? fields "overwrite" Json.asBool? default.overwrite
  let table ← Json.optional? fields "table" (Json.asOption? Path.ofJson?) default.table
  return { outputDir, overwrite, table }

end GenerateSettings

/-- The keys of the selection settings. -/
def selectionKeys : List Text := ["exclude"]

/-- The excluded identifiers as a record. -/
def selectionToJson (exclude : List Text) : Json :=
  .object [("exclude", .array (exclude.map .string))]

/-- The excluded identifiers that a record stands for. -/
def selectionOfJson? (v : Json) : Option (List Text) := do
  let fields ← v.asRecord? selectionKeys
  Json.optional? fields "exclude" (Json.asList? Json.asText?) []

namespace CategoryMap

/-- The keys of a category map in order. -/
def keys : List Text := ["entries", "fallback"]

/-- A category map as JSON. -/
def toJson (m : CategoryMap) : Json :=
  .object [("entries", .object (m.entries.map fun e => (e.1, .string e.2))),
    ("fallback", .string m.fallback)]

/-- The category map that a JSON value holds. -/
def ofJson? (v : Json) : Option CategoryMap := do
  let fields ← v.asRecord? keys
  let entries ←
    Json.optional? fields "entries" (Json.asMap? Json.asText?) CategoryMap.builtin.entries
  let fallback ← Json.optional? fields "fallback" Json.asText? CategoryMap.builtin.fallback
  return ofPairs entries fallback

end CategoryMap

namespace Config

/-- The keys of a configuration in order. -/
def keys : List Text :=
  ["root", "layout", "libraries", "registry", "convert", "generate", "elements", "categories"]

/-- A configuration as JSON. -/
def toJson (c : Config) : Json :=
  .object [("root", .string c.root.text), ("layout", c.layout.toJson),
    ("libraries", .array (c.libraries.map Library.toJson)), ("registry", c.registry.toJson),
    ("convert", c.convert.toJson), ("generate", c.generate.toJson),
    ("elements", selectionToJson c.exclude), ("categories", c.categories.toJson)]

/-- The configuration that a JSON value holds. -/
def ofJson? (v : Json) : Option Config := do
  let fields ← v.asRecord? keys
  let default : Config := {}
  let root ← Json.optional? fields "root" Path.ofJson? default.root
  let layout ← Json.optional? fields "layout" LayoutPlan.ofJson? default.layout
  let libraries ← Json.optional? fields "libraries" (Json.asList? Library.ofJson?) default.libraries
  let registry ← Json.optional? fields "registry" Registry.ofJson? default.registry
  let convert ← Json.optional? fields "convert" ConvertSettings.ofJson? default.convert
  let generate ← Json.optional? fields "generate" GenerateSettings.ofJson? default.generate
  let exclude ← Json.optional? fields "elements" selectionOfJson? default.exclude
  let categories ← Json.optional? fields "categories" CategoryMap.ofJson? default.categories
  return { root, layout, libraries, registry, convert, generate, exclude, categories }

/-- The configuration that a JSON text holds, if it passes the checks. -/
def parse (t : Text) : Except ConfigError Config :=
  match (Json.parse? t).bind ofJson? with
  | none => .error .malformed
  | some c =>
    match c.check with
    | .ok () => .ok c
    | .error e => .error e

end Config

end ElementModules
