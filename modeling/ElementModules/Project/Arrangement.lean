import ElementModules.Config.Basic
import ElementModules.Report.Basic
import ElementModules.Tree.Each
import ElementModules.Tree.Listing

/-!
# Arrangement of a project

A tree is brought into the shape that a layout plan describes: directories are made, files move to
places that are free, stubs are written where nothing stands, and the modules of a library move into
its directory, after which empty directories below it go. Nothing is overwritten, and nothing but
empty directories is removed.

Main statement: `arrange_eq_error_iff`, only a missing root prevents it, and then nothing changes.
-/

namespace ElementModules.Project

/-- The entry for an operation that failed. -/
def failedEntry (p : Path) (fault : Fault) : Entry where
  stage := .normalize
  path := p
  outcome := .failed
  detail := some (LayoutError.operation p fault).message

/-- The entry for an operation that did what it should or failed. -/
def resultEntry (p : Path) (outcome : Outcome) (detail : Option Text) : Except Fault Unit → Entry
  | .ok () => ⟨.normalize, p, outcome, detail⟩
  | .error fault => failedEntry p fault

/-- Makes a directory unless it exists. -/
def placeDir (t : Tree) (p : Path) : Tree × Entry :=
  if t.isDir p then (t, ⟨.normalize, p, .unchanged, none⟩)
  else if t.hasNode p then
    (t, ⟨.normalize, p, .conflict, some "exists and is not a directory"⟩)
  else
    let (t, result) := t.makeDirs p
    (t, resultEntry p .created none result)

/-- Moves a file to a place that is free. -/
def relocate (t : Tree) (source target : Path) : Tree × Entry :=
  if !t.isFile source then (t, ⟨.normalize, source, .skipped, some "source not found"⟩)
  else if t.hasNode target then
    let detail : Text := target.text ++ " already exists, kept both"
    (t, ⟨.normalize, source, .conflict, some detail⟩)
  else
    let (t, result) := t.moveFile source target
    let detail : Text := "→ " ++ target.text
    (t, resultEntry source .moved (some detail) result)

/-- Writes a file in a place where nothing stands and makes the directories above it. -/
def writeNew (t : Tree) (p : Path) (body : Text) : Tree × Except Fault Unit :=
  match t.makeParents p with
  | (t, .error e) => (t, .error e)
  | (t, .ok ()) =>
    match t.writeText p body with
    | .ok t => (t, .ok ())
    | .error e => (t, .error e)

/-- Writes a stub where nothing stands. -/
def placeStub (t : Tree) (p : Path) (body : Text) : Tree × Entry :=
  if t.hasNode p then (t, ⟨.normalize, p, .unchanged, none⟩)
  else
    let (t, result) := writeNew t p body
    (t, resultEntry p .created (some "stub") result)

/-- Makes the directories of a plan. -/
def makeDirectories (t : Tree) (services : Path) (plan : LayoutPlan) : Tree × StageReport :=
  let (t, entries) := t.each placeDir (plan.directories.map services.join)
  (t, ⟨.normalize, entries⟩)

/-- Removes a directory if it is empty. -/
def prune (t : Tree) (p : Path) : Tree × Option Entry :=
  if t.isEmptyDir p then
    match t.removeDir p with
    | .ok t => (t, some ⟨.normalize, p, .removed, some "empty directory"⟩)
    | .error e => (t, some (failedEntry p e))
  else (t, none)

/-- Moves a module into the directory of its library. -/
def flattenModule (library : Library) (t : Tree) (p : Path) : Tree × Option Entry :=
  match library.flattenedPath? p with
  | some target =>
    let (t, entry) := relocate t p target
    (t, some entry)
  | none => (t, none)

/-- Moves the modules of a library into its directory and removes what is empty then. -/
def flatten (t : Tree) (library : Library) : Tree × StageReport :=
  match t.modulesIn {} library.dir with
  | .error e => (t, ⟨.normalize, [⟨.normalize, library.dir, .skipped, some e.message⟩]⟩)
  | .ok modules =>
    let (t, moves) := t.each (flattenModule library) (modules.filter fun p => !library.isFlat p)
    let dirs := match t.dirsIn {} library.dir with
      | .ok dirs => dirs
      | .error _ => []
    let (t, removals) := t.each prune dirs
    (t, ⟨.normalize, (moves ++ removals).filterMap id⟩)

/-- Brings a tree into the shape that a plan describes. -/
def arrange (t : Tree) (services : Path) (plan : LayoutPlan) (libraries : List Library) :
    Tree × Except LayoutError StageReport :=
  if !t.isDir services then (t, .error (.missingRoot services))
  else
    let (t, layout) := makeDirectories t services plan
    let (t, moves) := t.each (fun t (r : Relocation) =>
      relocate t (services.join r.source) (services.join r.target)) plan.relocations
    let (t, stubs) := t.each (fun t (s : Stub) => placeStub t (services.join s.path) s.body)
      plan.stubs
    let (t, flat) := t.each flatten libraries
    (t, .ok ⟨.normalize, layout.entries ++ moves ++ stubs ++ flat.flatMap StageReport.entries⟩)

/-- Only a missing root prevents the arrangement, and then nothing changes. -/
theorem arrange_eq_error_iff {t t' : Tree} {services : Path} {plan : LayoutPlan}
    {libraries : List Library} {e : LayoutError} :
    arrange t services plan libraries = (t', .error e)
      ↔ t' = t ∧ e = .missingRoot services ∧ t.isDir services = false := by
  unfold arrange
  cases h : t.isDir services with
  | false => simp [eq_comm]
  | true => simp

end ElementModules.Project
