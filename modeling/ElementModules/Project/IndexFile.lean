import ElementModules.Descriptor.IndexModule
import ElementModules.Project.ModuleDir

/-!
# Index modules of a project

The index module of a library lists the element modules in its directory. It is written only if its
text changes.
-/

namespace ElementModules.Project

open Descriptor

/-- What index modules depend on. -/
structure Indexer where
  registry : Registry
  selector : Selector

/-- The indexer of a project. -/
def Indexer.ofConfig (c : Config) : Indexer :=
  ⟨c.registry, selectorOf c⟩

namespace Indexer

/-- The file names of the element modules among some paths. -/
def elementNames (w : Indexer) (t : Tree) : List Path → Except Failure (List Text)
  | [] => .ok []
  | p :: ps =>
    match isElementFile w.selector t p with
    | .error e => .error e
    | .ok isElement =>
      match w.elementNames t ps with
      | .error e => .error e
      | .ok names =>
        .ok (if isElement then p.fileName?.toList ++ names else names)

/-- The text of the index module of a library. -/
def indexText (w : Indexer) (t : Tree) (library : Library) : Except Failure Text :=
  match t.modulesIn (moduleScope w.registry) library.dir with
  | .error e => .error (.layout e)
  | .ok modules =>
    match w.elementNames t modules with
    | .error e => .error e
    | .ok names => .ok (indexModule library.name names)

/-- Writes a text as the index module at a path. -/
def writeText (t : Tree) (p : Path) (text : Text) : Tree × Except Failure Outcome :=
  let outcome : Outcome := match t.readText p with
    | .ok old => if old = text then .unchanged else .written
    | .error _ => .created
  if outcome = .unchanged then (t, .ok .unchanged)
  else
    match t.writeText p text with
    | .ok t => (t, .ok outcome)
    | .error e => (t, .error (.write p e))

/-- Writes the index module of a library. -/
def write (w : Indexer) (t : Tree) (library : Library) : Tree × Entry :=
  let p := library.dir.join ⟨w.registry.indexFile⟩
  if !t.isDir library.dir then (t, ⟨.index, p, .skipped, some "library directory not found"⟩)
  else
    match w.indexText t library with
    | .error e => (t, ⟨.index, p, .failed, some e.message⟩)
    | .ok text =>
      match writeText t p text with
      | (t, .ok outcome) => (t, ⟨.index, p, outcome, none⟩)
      | (t, .error e) => (t, ⟨.index, p, .failed, some e.message⟩)

end Indexer

end ElementModules.Project
