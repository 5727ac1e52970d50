import ElementModules.Config.Encoding
import ElementModules.Project.Arrangement
import ElementModules.Project.Conversion
import ElementModules.Project.Generation
import ElementModules.Project.IndexFile
import ElementModules.Project.Registration

/-!
# Runs

A run works on a project in five stages, each of which can also be carried out alone: the tree is
arranged, modules are converted, modules are generated, registrations are repaired, and index modules
are written. A stage begins only if the root of the project is a directory.

Main statement: `stage_eq_error`, a stage that fails changes nothing, and its failure is fatal.
-/

namespace ElementModules.Project

open Descriptor

/-- The text of a file of the configuration. -/
def readConfigFile (t : Tree) (p : Path) : Except ConfigError Text :=
  if !t.hasNode p then .error (.missingFile p)
  else
    match t.readText p with
    | .ok text => .ok text
    | .error e => .error (.unreadable e)

/-- The configuration in a file. -/
def readConfig (t : Tree) (p : Path) : Except ConfigError Config :=
  (readConfigFile t p).bind Config.parse

/-- The table of elements of a project. -/
def elementTable (c : Config) (t : Tree) : Except ConfigError ElementTable :=
  match c.tablePath? with
  | some p => (readConfigFile t p).bind ElementTable.parse
  | none => .ok .builtin

/-- Fails unless the root of the project is a directory. -/
def requireRoot (c : Config) (t : Tree) : Except Failure Unit :=
  if t.isDir c.root then .ok () else .error (.layout (.missingRoot c.root))

/-- Converts the modules of all libraries. -/
def convertAll (c : Config) (stamp : Text) (t : Tree) : Tree × StageReport :=
  let (t, reports) := t.each (Converter.ofConfig c stamp).convertModules c.resolvedLibraries
  (t, ⟨.convert, reports.flatMap StageReport.entries⟩)

/-- Writes the modules of the table of elements. -/
def generateTable (c : Config) (t : Tree) : Tree × StageReport :=
  match elementTable c t with
  | .ok table =>
    (ModuleWriter.mk c.generateDir c.generate.overwrite).writeModules t table c.registry
  | .error e => (t, ⟨.generate, [⟨.generate, c.tablePath?.getD ⟨[]⟩, .failed, some e.message⟩]⟩)

/-- Repairs the registrations in all directories that hold modules. -/
def repairAll (c : Config) (t : Tree) : Tree × StageReport :=
  let (t, reports) := t.each (Registrar.ofConfig c).repairModules c.moduleDirs
  (t, ⟨.patch, reports.flatMap StageReport.entries⟩)

/-- The library to which the index module of a directory belongs: the first one with its directory,
else one with the name of the directory. -/
def libraryAt (c : Config) (dir : Path) : Library :=
  match c.resolvedLibraries.find? fun l => l.dir.same dir with
  | some l => l
  | none => ⟨dir.fileName?.getD [], dir⟩

/-- Writes the index modules of all directories that hold modules. -/
def indexAll (c : Config) (t : Tree) : Tree × StageReport :=
  let (t, entries) := t.each (Indexer.ofConfig c).write (c.moduleDirs.map (libraryAt c))
  (t, ⟨.index, entries⟩)

/-- Carries out a stage on a project whose root is a directory. -/
def perform (c : Config) (stamp : Text) (t : Tree) : Stage → Tree × Except Failure StageReport
  | .normalize =>
    match arrange t c.servicesRoot c.layout c.resolvedLibraries with
    | (t, .ok r) => (t, .ok r)
    | (t, .error e) => (t, .error (.layout e))
  | .convert => let (t, r) := convertAll c stamp t; (t, .ok r)
  | .generate => let (t, r) := generateTable c t; (t, .ok r)
  | .patch => let (t, r) := repairAll c t; (t, .ok r)
  | .index => let (t, r) := indexAll c t; (t, .ok r)

/-- Carries out a stage. -/
def stage (c : Config) (stamp : Text) (t : Tree) (s : Stage) : Tree × Except Failure StageReport :=
  match requireRoot c t with
  | .error e => (t, .error e)
  | .ok () => perform c stamp t s

/-- Carries out some stages in order, up to the first that fails. -/
def stages (c : Config) (stamp : Text) (t : Tree) :
    List Stage → Tree × Except Failure (List StageReport)
  | [] => (t, .ok [])
  | s :: rest =>
    match stage c stamp t s with
    | (t, .error e) => (t, .error e)
    | (t, .ok r) =>
      match stages c stamp t rest with
      | (t, .error e) => (t, .error e)
      | (t, .ok rs) => (t, .ok (r :: rs))

/-- All stages in the order in which a run carries them out. -/
def allStages : List Stage := [.normalize, .convert, .generate, .patch, .index]

/-- Carries out all stages. -/
def run (c : Config) (stamp : Text) (t : Tree) : Tree × Except Failure RunReport :=
  match stages c stamp t allStages with
  | (t, .ok reports) => (t, .ok ⟨reports⟩)
  | (t, .error e) => (t, .error e)

/-- A stage that fails changes nothing, and its failure is fatal. -/
theorem stage_eq_error {c : Config} {stamp : Text} {t t' : Tree} {s : Stage} {e : Failure}
    (h : stage c stamp t s = (t', .error e)) : t' = t ∧ e.isFatal := by
  unfold stage requireRoot at h
  split at h
  next hroot =>
    split at hroot
    · simp at hroot
    · simp only [Except.error.injEq] at hroot
      simp only [Prod.mk.injEq, Except.error.injEq] at h
      exact ⟨h.1.symm, by rw [← h.2, ← hroot]; rfl⟩
  next =>
    cases s with
    | normalize =>
      simp only [perform] at h
      split at h
      · simp at h
      next harr =>
        simp only [Prod.mk.injEq, Except.error.injEq] at h
        obtain ⟨rfl, rfl⟩ := h
        obtain ⟨rfl, rfl, -⟩ := arrange_eq_error_iff.1 harr
        exact ⟨rfl, rfl⟩
    | _ => simp [perform] at h

end ElementModules.Project
