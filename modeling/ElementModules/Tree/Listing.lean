import ElementModules.Failure
import ElementModules.Ignore.Rule
import ElementModules.Library
import ElementModules.Tree.Access

/-!
# Listings of directories

The modules and directories below a directory are listed in order. Left out is what the rules of the
files `.ignore`, `.gitignore` and `.git/info/exclude` leave out, and what starts with a dot, unless a
rule takes it in; and all that lies below. The rules of a directory precede those of the directories
above it, and the three kinds of files precede each other in this order.

Main statements: `mem_moduleNames_iff` and `mem_dirNames_iff`, what is listed.
-/

namespace ElementModules.Tree

open Ignore

/-- The addresses of the directories above an address, the nearest first. -/
def above (a : Address) : List Address :=
  (List.range a.length).reverse.map a.take

/-- The rules in a file. -/
def rulesAt (t : Tree) (a : Address) : List Rule :=
  match t.get? a with
  | some (.file c) => rules c
  | _ => []

/-- What the rules of some directories say about an address. Each directory keeps them in a file with
the given names below it; the first directory that says anything counts. -/
def verdictIn? (t : Tree) (ruleFile : Address) (dirs : List Address) (a : Address) (isDir : Bool) :
    Option Verdict :=
  dirs.findSome? fun d =>
    verdict? (t.rulesAt (d ++ ruleFile)) (Text.joinWith ['/'] (a.drop d.length)) isDir

/-- What the rules say about an address. -/
def verdictAt? (t : Tree) (a : Address) (isDir : Bool) : Option Verdict :=
  let dirs := above a
  (t.verdictIn? [".ignore"] dirs a isDir).or
    ((t.verdictIn? [".gitignore"] dirs a isDir).or
      (t.verdictIn? [".git", "info", "exclude"] dirs a isDir))

/-- Whether the last name of an address starts with a dot. -/
def isHidden (a : Address) : Bool :=
  a.getLast?.any fun n => n.head? = some '.'

/-- Whether what stands at an address is left out of listings. -/
def isLeftOut (t : Tree) (a : Address) : Bool :=
  match t.verdictAt? a (t.get? a = some .dir) with
  | some .out => true
  | some .taken => false
  | none => isHidden a

/-- Whether an address is listed below a directory: neither it nor a directory between them is left
out. -/
def isListed (t : Tree) (dir a : Address) : Bool :=
  dir <+: a && dir ≠ a
    && (List.range (a.length - dir.length)).all fun i => !t.isLeftOut (a.take (dir.length + i + 1))

/-- The directories that are never looked into. -/
def skippedDirs : List Text := ["node_modules", "dist", "build", ".git", "coverage"]

/-- Whether some names, seen from the directory that is listed, lead through a directory that is never
looked into. -/
def leadsThroughSkipped (names : List Text) : Bool :=
  names.any skippedDirs.contains

/-- Whether a file name is that of a module. -/
def isModuleName (n : Text) : Bool :=
  (Path.splitName n).2 = some moduleExtension

/-- What a listing looks for. -/
structure Scope where
  /-- How many directories deep the listing goes, if there is a bound. -/
  maxDepth : Option Nat := none
  /-- The names of files that are passed over. -/
  skip : List Text := []
  deriving DecidableEq, Repr

/-- Whether some names are within the depth of a listing. -/
def Scope.reaches (s : Scope) (names : List Text) : Bool :=
  s.maxDepth.all fun d => names.length ≤ d

/-- The names that lead from a directory to the nodes that are listed below it. -/
def namesBelow (t : Tree) (s : Scope) (dir : Address) (p : List Text → Node → Bool) :
    List (List Text) :=
  t.nodes.filterMap fun (a, n) =>
    let names := a.drop dir.length
    if t.isListed dir a && s.reaches names && !leadsThroughSkipped names && p names n then some names
    else none

/-- The order of names by their first difference. -/
def namesLe (a b : List Text) : Bool :=
  lexLe (lexLt charLt) a b

/-- The order in which deeper directories come first. -/
def deeperFirst (a b : List Text) : Bool :=
  b.length < a.length || (a.length = b.length && namesLe a b)

/-- The names that lead from a directory to the modules below it, in order. -/
def moduleNames (t : Tree) (s : Scope) (dir : Address) : List (List Text) :=
  (t.namesBelow s dir fun names n =>
    n ≠ .dir && names.getLast?.any fun l => isModuleName l && !s.skip.contains l).mergeSort namesLe

/-- The names that lead from a directory to the directories below it, the deepest first. -/
def dirNames (t : Tree) (s : Scope) (dir : Address) : List (List Text) :=
  (t.namesBelow s dir fun _ n => n = .dir).mergeSort deeperFirst

/-- The path that leads on from a path by names. -/
def extendPath (p : Path) (names : List Text) : Path :=
  names.foldl (fun q n => q.join ⟨n⟩) p

/-- The address of a directory that is to be listed. -/
def listable (t : Tree) (dir : Path) : Except LayoutError Address :=
  match t.isDir dir, t.locate dir with
  | true, .ok a => .ok a
  | _, _ => .error (.missingDirectory dir)

/-- The modules below a directory, in order. -/
def modulesIn (t : Tree) (s : Scope) (dir : Path) : Except LayoutError (List Path) :=
  (t.listable dir).map fun a => (t.moduleNames s a).map (extendPath dir)

/-- The directories below a directory, the deepest first. -/
def dirsIn (t : Tree) (s : Scope) (dir : Path) : Except LayoutError (List Path) :=
  (t.listable dir).map fun a => (t.dirNames s a).map (extendPath dir)

theorem mem_namesBelow_iff {t : Tree} {s : Scope} {dir : Address} {p : List Text → Node → Bool}
    {names : List Text} :
    names ∈ t.namesBelow s dir p
      ↔ ∃ e ∈ t.nodes, e.1.drop dir.length = names ∧ t.isListed dir e.1 ∧ s.reaches names
        ∧ leadsThroughSkipped names = false ∧ p names e.2 := by
  simp only [namesBelow, List.mem_filterMap, Option.ite_none_right_eq_some, Bool.and_eq_true,
    Bool.not_eq_eq_eq_not, Bool.not_true, Option.some.injEq]
  constructor
  · rintro ⟨e, he, ⟨⟨⟨h1, h2⟩, h3⟩, h4⟩, rfl⟩
    exact ⟨e, he, rfl, h1, h2, h3, h4⟩
  · rintro ⟨e, he, rfl, h1, h2, h3, h4⟩
    exact ⟨e, he, ⟨⟨⟨h1, h2⟩, h3⟩, h4⟩, rfl⟩

/-- A listing of directories holds the directories that are listed. -/
theorem mem_dirNames_iff {t : Tree} {s : Scope} {dir : Address} {names : List Text} :
    names ∈ t.dirNames s dir
      ↔ ∃ e ∈ t.nodes, e.1.drop dir.length = names ∧ t.isListed dir e.1 ∧ s.reaches names
        ∧ leadsThroughSkipped names = false ∧ e.2 = .dir := by
  rw [dirNames, List.mem_mergeSort, mem_namesBelow_iff]
  simp

/-- A listing of modules holds the module files that are listed and not passed over. -/
theorem mem_moduleNames_iff {t : Tree} {s : Scope} {dir : Address} {names : List Text} :
    names ∈ t.moduleNames s dir
      ↔ ∃ e ∈ t.nodes, e.1.drop dir.length = names ∧ t.isListed dir e.1 ∧ s.reaches names
        ∧ leadsThroughSkipped names = false ∧ e.2 ≠ .dir
        ∧ ∃ l, names.getLast? = some l ∧ isModuleName l ∧ l ∉ s.skip := by
  rw [moduleNames, List.mem_mergeSort, mem_namesBelow_iff]
  simp [Option.any_eq_true]

end ElementModules.Tree
