import ElementModules.Config.Basic
import ElementModules.Descriptor.Selection
import ElementModules.Report.Basic
import ElementModules.Tree.Each
import ElementModules.Tree.Listing

/-!
# Modules in a directory

The stages that work on modules take the element modules that lie directly in a directory, except
its index module, and report those that are no element modules as skipped.
-/

namespace ElementModules.Project

open Descriptor

/-- Why a file is skipped. -/
def skipReason : Text := "not an element module"

/-- What tells element modules from other scripts in a project. -/
def selectorOf (c : Config) : Selector :=
  ⟨c.categories, c.registry.receiver, c.exclude⟩

/-- What is listed of a directory: the modules in it, except its index module. -/
def moduleScope (r : Registry) : Tree.Scope :=
  ⟨some 1, [r.indexFile]⟩

/-- The identifier of a file, or nothing. -/
def fileIdOf (p : Path) : Text :=
  p.fileId?.getD []

/-- Whether the file at a path is an element module. It is read only if its identifier does not decide
this. -/
def isElementFile (s : Selector) (t : Tree) (p : Path) : Except Failure Bool :=
  match s.decidedBy? (fileIdOf p) with
  | some answer => .ok answer
  | none =>
    match t.readText p with
    | .ok text => .ok (s.accepts text)
    | .error e => .error (.read p e)

/-- Works on the modules in a directory; `missing` says why there are none. -/
def eachModule (stage : Stage) (registry : Registry) (missing : Text)
    (f : Tree → Path → Tree × Entry) (t : Tree) (dir : Path) : Tree × StageReport :=
  match t.modulesIn (moduleScope registry) dir with
  | .error _ => (t, ⟨stage, [⟨stage, dir, .skipped, some missing⟩]⟩)
  | .ok modules =>
    let (t, entries) := t.each f modules
    (t, ⟨stage, entries⟩)

end ElementModules.Project
