import ElementModules.Project.ModuleDir

/-!
# Conversion of the modules of a project

Element modules that do not export a descriptor are put into canonical form. Before a module is
replaced it is copied to the backup directory, where it has the path that it has below the root of
the project.

Main statement: `treat_unchanged`, the tree changes only if a module is replaced or an error
occurs.
-/

namespace ElementModules.Project

open Descriptor

/-- What the conversion of a project depends on. -/
structure Converter where
  registry : Registry
  categories : CategoryMap
  selector : Selector
  /-- The root of the project. -/
  root : Path
  /-- Where modules are copied before they are replaced, if they are. -/
  backupDir : Option Path

/-- The converter of a project. The stamp tells the backup directories of different runs apart. -/
def Converter.ofConfig (c : Config) (stamp : Text) : Converter where
  registry := c.registry
  categories := c.categories
  selector := selectorOf c
  root := c.root
  backupDir :=
    if c.convert.backup then some (c.root.join ⟨c.convert.backupPrefix ++ '-' :: stamp⟩) else none

/-- What is to be done with a module. -/
inductive Treatment
  /-- It is no element module. -/
  | notElement
  /-- It exports a descriptor. -/
  | canonical
  /-- It gets a new text. -/
  | replace (text : Text) (conversion : Conversion)
  deriving DecidableEq, Repr

namespace Converter

/-- What is to be done with a module of a library. -/
def treatment (v : Converter) (library : Library) (p : Path) (text : Text) : Treatment :=
  if !v.selector.isElement (fileIdOf p) text then .notElement
  else
    let context : Context := ⟨library.name, fileIdOf p, v.categories, v.registry⟩
    match convert? context text with
    | none => .canonical
    | some (out, conversion) => .replace out conversion

/-- Where a module is copied. -/
def backupPath (v : Converter) (dir p : Path) : Path :=
  let relative : Path :=
    match Path.relativeTo? v.root p with
    | some q => q
    | none => (p.fileName?.map Path.mk).getD p
  dir.join relative

/-- Copies a module to the backup directory. -/
def backUp (v : Converter) (t : Tree) (p : Path) : Tree × Except Failure Unit :=
  match v.backupDir with
  | none => (t, .ok ())
  | some dir =>
    let target := v.backupPath dir p
    match t.makeParents target with
    | (t, .error e) => (t, .error (.write (target.parent?.getD target) e))
    | (t, .ok ()) =>
      match t.copyFile p target with
      | .ok t => (t, .ok ())
      | .error e => (t, .error (.write target e))

/-- Converts a module. -/
def treat (v : Converter) (library : Library) (t : Tree) (p : Path) :
    Tree × Except Failure Treatment :=
  match t.readText p with
  | .error e => (t, .error (.read p e))
  | .ok text =>
    match v.treatment library p text with
    | .replace out conversion =>
      match v.backUp t p with
      | (t, .error e) => (t, .error e)
      | (t, .ok ()) =>
        match t.writeText p out with
        | .ok t => (t, .ok (.replace out conversion))
        | .error e => (t, .error (.write p e))
    | other => (t, .ok other)

/-- The entry for a module. -/
def entry (p : Path) : Except Failure Treatment → Entry
  | .ok .notElement => ⟨.convert, p, .skipped, some skipReason⟩
  | .ok .canonical => ⟨.convert, p, .unchanged, some "already canonical"⟩
  | .ok (.replace _ .converted) => ⟨.convert, p, .written, none⟩
  | .ok (.replace _ .placeholder) =>
    ⟨.convert, p, .fallback, some "no usable object literal, wrote placeholder"⟩
  | .error e => ⟨.convert, p, .failed, some e.message⟩

/-- Converts a module and reports what happened. -/
def convertModule (v : Converter) (library : Library) (t : Tree) (p : Path) : Tree × Entry :=
  let (t, result) := v.treat library t p
  (t, entry p result)

/-- Converts the modules of a library. -/
def convertModules (v : Converter) (t : Tree) (library : Library) : Tree × StageReport :=
  eachModule .convert v.registry "library directory not found" (v.convertModule library) t
    library.dir

/-- The tree changes only if a module is replaced or an error occurs. -/
theorem treat_unchanged {v : Converter} {library : Library} {t : Tree} {p : Path}
    (h : (v.treat library t p).2 = .ok .notElement
      ∨ (v.treat library t p).2 = .ok .canonical) :
    (v.treat library t p).1 = t := by
  unfold treat at *
  cases hread : t.readText p with
  | error e => rfl
  | ok text =>
    rw [hread] at h
    dsimp only at h ⊢
    cases htr : v.treatment library p text with
    | notElement => rfl
    | canonical => rfl
    | replace out conversion =>
      rw [htr] at h
      dsimp only at h
      split at h
      · simp at h
      · split at h <;> simp at h

end Converter

end ElementModules.Project
