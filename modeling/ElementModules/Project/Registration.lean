import ElementModules.Project.ModuleDir

/-!
# Registrations in a project

The registrations of the element modules in a directory are repaired. A module whose literal does not
name its library is taken to belong to the library with its directory.
-/

namespace ElementModules.Project

open Descriptor

/-- What the repair of registrations depends on. -/
structure Registrar where
  registry : Registry
  categories : CategoryMap
  selector : Selector
  /-- The known libraries. -/
  libraries : List Library

/-- The registrar of a project. -/
def Registrar.ofConfig (c : Config) : Registrar :=
  ⟨c.registry, c.categories, selectorOf c, c.resolvedLibraries⟩

namespace Registrar

/-- What a module is repaired with. -/
def context (w : Registrar) (p : Path) : Context :=
  ⟨Library.nameFor w.libraries p, fileIdOf p, w.categories, w.registry⟩

/-- Repairs the module at a path and says whether it changed. -/
def repairAt (w : Registrar) (t : Tree) (p : Path) : Tree × Except Failure Bool :=
  match t.readText p with
  | .error e => (t, .error (.read p e))
  | .ok text =>
    match repair (w.context p) text with
    | .error e => (t, .error (.repair e))
    | .ok out =>
      if out = text then (t, .ok false)
      else
        match t.writeText p out with
        | .ok t => (t, .ok true)
        | .error e => (t, .error (.write p e))

/-- Repairs the file at a path if it is an element module, and reports what happened. -/
def repairModule (w : Registrar) (t : Tree) (p : Path) : Tree × Entry :=
  match isElementFile w.selector t p with
  | .error e => (t, ⟨.patch, p, .failed, some e.message⟩)
  | .ok false => (t, ⟨.patch, p, .skipped, some skipReason⟩)
  | .ok true =>
    match w.repairAt t p with
    | (t, .ok true) => (t, ⟨.patch, p, .written, none⟩)
    | (t, .ok false) => (t, ⟨.patch, p, .unchanged, none⟩)
    | (t, .error e) => (t, ⟨.patch, p, .failed, some e.message⟩)

/-- Repairs the modules in a directory. -/
def repairModules (w : Registrar) (t : Tree) (dir : Path) : Tree × StageReport :=
  eachModule .patch w.registry "directory not found" w.repairModule t dir

end Registrar

end ElementModules.Project
