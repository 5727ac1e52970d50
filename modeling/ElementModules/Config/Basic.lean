import ElementModules.Category
import ElementModules.Config.Layout
import ElementModules.Library
import ElementModules.Registry

/-!
# Configurations

A configuration holds everything that a run depends on beside the tree itself. Its paths are relative
to the root of the project unless they are absolute. Main statement: `Config.moduleDirs_cover`, the
directory of every library is among the directories that hold modules.
-/

namespace ElementModules

/-- How modules are converted. -/
structure ConvertSettings where
  /-- Whether a module is copied before it is replaced. -/
  backup : Bool := true
  /-- How the name of the directory with the copies starts. -/
  backupPrefix : Text := ".backup"
  deriving DecidableEq, Repr

/-- How modules are generated. -/
structure GenerateSettings where
  /-- The directory of the modules. -/
  outputDir : Path := "src/libs/circuittikz"
  /-- Whether modules that differ are replaced. -/
  overwrite : Bool := false
  /-- The file with the table of elements, unless it is the built-in one. -/
  table : Option Path := none
  deriving DecidableEq, Repr

/-- Everything that a run depends on beside the tree. -/
structure Config where
  /-- The root of the project. -/
  root : Path := "."
  layout : LayoutPlan := {}
  libraries : List Library :=
    [⟨"tikz", "src/libs/tikz"⟩, ⟨"circuittikz", "src/libs/circuittikz"⟩]
  registry : Registry := {}
  convert : ConvertSettings := {}
  generate : GenerateSettings := {}
  /-- The identifiers of files that are never element modules. -/
  exclude : List Text := []
  categories : CategoryMap := .builtin
  deriving DecidableEq, Repr

namespace Config

/-- A path of the configuration as seen from where the program runs. -/
def resolve (c : Config) (p : Path) : Path :=
  if p.isAbsolute then p else c.root.join p

/-- The directory of the services. -/
def servicesRoot (c : Config) : Path :=
  c.resolve c.layout.servicesRoot

/-- The libraries with their directories as seen from where the program runs. -/
def resolvedLibraries (c : Config) : List Library :=
  c.libraries.map fun l => { l with dir := c.resolve l.dir }

/-- The directory of generated modules. -/
def generateDir (c : Config) : Path :=
  c.resolve c.generate.outputDir

/-- The file with the table of elements. -/
def tablePath? (c : Config) : Option Path :=
  c.generate.table.map c.resolve

/-- The paths without those that have the components of an earlier one. -/
def distinctPaths (ps : List Path) : List Path :=
  (ps.foldl (fun kept p => if kept.any p.same then kept else p :: kept) []).reverse

/-- The directories that hold modules: those of the libraries and the one of generated modules, each
once. -/
def moduleDirs (c : Config) : List Path :=
  distinctPaths (c.resolvedLibraries.map Library.dir ++ [c.generateDir])

/-- Every path has the components of one of the distinct paths. -/
theorem exists_mem_distinctPaths {ps : List Path} {p : Path} (h : p ∈ ps) :
    ∃ q ∈ distinctPaths ps, p.same q := by
  suffices hkey : ∀ kept : List Path, (p ∈ ps ∨ ∃ q ∈ kept, p.same q) →
      ∃ q ∈ ps.foldl (fun kept p => if kept.any p.same then kept else p :: kept) kept, p.same q by
    obtain ⟨q, hq, hs⟩ := hkey [] (.inl h)
    exact ⟨q, List.mem_reverse.2 hq, hs⟩
  clear h
  induction ps with
  | nil => intro kept h; simpa using h
  | cons a ps ih =>
    intro kept h
    refine ih _ ?_
    rcases h with h | ⟨q, hq, hs⟩
    · rcases List.mem_cons.1 h with rfl | h
      · right
        dsimp only
        split
        next hany => simpa using hany
        next => exact ⟨p, List.mem_cons_self, by simp [Path.same]⟩
      · exact .inl h
    · right
      dsimp only
      split
      · exact ⟨q, hq, hs⟩
      · exact ⟨q, List.mem_cons_of_mem _ hq, hs⟩

/-- Every library's directory is among the directories that hold modules. -/
theorem moduleDirs_cover (c : Config) {l : Library} (h : l ∈ c.resolvedLibraries) :
    ∃ d ∈ c.moduleDirs, l.dir.same d :=
  exists_mem_distinctPaths (List.mem_append_left _ (List.mem_map_of_mem h))

end Config

end ElementModules
