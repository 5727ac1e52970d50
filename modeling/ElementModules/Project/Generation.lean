import ElementModules.Descriptor.Generation
import ElementModules.Report.Basic
import ElementModules.Tree.Access
import ElementModules.Tree.Each

/-!
# Generated modules of a project

The modules of a table are written into a directory. A file that differs from what would be written
is kept unless it may be replaced.
-/

namespace ElementModules.Project

open Descriptor

/-- How generated modules are written. -/
structure ModuleWriter where
  /-- The directory of the modules. -/
  dir : Path
  /-- Whether files that differ are replaced. -/
  overwrite : Bool := false
  deriving DecidableEq, Repr

namespace ModuleWriter

/-- Writes a module where nothing stands. -/
def create (w : ModuleWriter) (t : Tree) (p : Path) (text : Text) : Tree × Except Fault Unit :=
  match t.makeDirs w.dir with
  | (t, .error e) => (t, .error e)
  | (t, .ok ()) =>
    match t.writeText p text with
    | .ok t => (t, .ok ())
    | .error e => (t, .error e)

/-- The entry for a module that could not be written. -/
def failedEntry (p : Path) (e : Failure) : Entry :=
  ⟨.generate, p, .failed, some e.message⟩

/-- Writes a module. -/
def write (w : ModuleWriter) (t : Tree) (m : ElementModule) : Tree × Entry :=
  let p := w.dir.join ⟨m.fileName⟩
  match t.readText p with
  | .ok text =>
    if text = m.text then (t, ⟨.generate, p, .unchanged, none⟩)
    else if !w.overwrite then
      (t, ⟨.generate, p, .conflict, some "differs from generated output, use --force to overwrite"⟩)
    else
      match t.writeText p m.text with
      | .ok t => (t, ⟨.generate, p, .written, some "overwritten"⟩)
      | .error e => (t, failedEntry p (.write p e))
  | .error .notFound =>
    match w.create t p m.text with
    | (t, .ok ()) => (t, ⟨.generate, p, .created, none⟩)
    | (t, .error e) => (t, failedEntry p (.write p e))
  | .error e => (t, failedEntry p (.write p e))

/-- Writes the module of one element, if its name can be bound. -/
def writeElement (w : ModuleWriter) (table : ElementTable) (registry : Registry) (t : Tree)
    (e : Text × ElementRow) : Tree × Entry :=
  match generate table registry e.1 e.2 with
  | .ok m => w.write t m
  | .error f => (t, failedEntry (w.dir.join ⟨moduleFile e.1⟩) f)

/-- Writes the modules of a table. -/
def writeModules (w : ModuleWriter) (t : Tree) (table : ElementTable) (registry : Registry) :
    Tree × StageReport :=
  let (t, entries) := t.each (w.writeElement table registry) table.entries
  (t, ⟨.generate, entries⟩)

end ModuleWriter

end ElementModules.Project
