import ElementModules.Order

/-!
# Paths

A path is written as a text in which slashes part the components. Empty pieces and single dots mean
nothing, except a slash or a dot at the very start; so several texts stand for the same components,
and paths are compared and ordered by these. A path keeps the text that it was put together from.

Main statements: `Component.lt_strictLinear`, components are linearly ordered, and `Path.same_iff`.
-/

namespace ElementModules

/-- A part of a path. -/
inductive Component
  /-- The slash at the start of an absolute path. -/
  | root
  /-- A dot at the start. -/
  | here
  /-- Two dots: the directory above. -/
  | up
  /-- The name of a file or directory. -/
  | name (text : Text)
  deriving DecidableEq, Repr

namespace Component

/-- The order of components: names come last, in the order of their texts. -/
def lt : Component → Component → Bool
  | .root, .root => false
  | .root, _ => true
  | .here, .root | .here, .here => false
  | .here, _ => true
  | .up, .name _ => true
  | .up, _ => false
  | .name a, .name b => lexLt charLt a b
  | .name _, _ => false

theorem lt_strictLinear : StrictLinear lt where
  irrefl a := by cases a <;> simp [lt, charLt_strictLinear.lexLt.irrefl]
  trans a b c hab hbc := by
    cases a <;> cases b <;> cases c <;> simp_all [lt]
    exact charLt_strictLinear.lexLt.trans _ _ _ hab hbc
  connected a b hne := by
    cases a <;> cases b <;> simp_all [lt]
    exact charLt_strictLinear.lexLt.connected _ _ hne

end Component

/-- A path, as it was put together. -/
structure Path where
  text : Text
  deriving DecidableEq, Repr, Inhabited

/-- A string literal stands for a path wherever one is expected. -/
instance : Coe String Path := ⟨fun s => ⟨s.toList⟩⟩

/-- A component with the range of characters that it takes in a path. -/
structure Place where
  component : Component
  start : Nat
  stop : Nat
  deriving DecidableEq, Repr

/-- The pieces of a text between slashes. There is always at least one. -/
def splitSlashes : Text → List Text
  | [] => [[]]
  | c :: t =>
    if c = '/' then [] :: splitSlashes t
    else match splitSlashes t with
      | [] => [[c]]
      | p :: ps => (c :: p) :: ps

/-- The components of pieces after the first one, whose characters start at `offset`. -/
def placesAfter (offset : Nat) : List Text → List Place
  | [] => []
  | p :: ps =>
    let rest := placesAfter (offset + p.length + 1) ps
    if p = [] || p = ['.'] then rest
    else if p = ['.', '.'] then ⟨.up, offset, offset + 2⟩ :: rest
    else ⟨.name p, offset, offset + p.length⟩ :: rest

namespace Path

/-- The components of a path with their places. -/
def places (p : Path) : List Place :=
  match splitSlashes p.text with
  | [] | [[]] => []
  | [] :: ps => ⟨.root, 0, 1⟩ :: placesAfter 1 ps
  | ['.'] :: ps => ⟨.here, 0, 1⟩ :: placesAfter 2 ps
  | ps => placesAfter 0 ps

/-- The components of a path. -/
def components (p : Path) : List Component :=
  p.places.map Place.component

/-- Whether two paths have the same components. -/
def same (p q : Path) : Bool :=
  p.components = q.components

theorem same_iff {p q : Path} : p.same q ↔ p.components = q.components := by
  simp [same]

/-- The order of paths by their components. -/
def le (p q : Path) : Bool :=
  lexLe Component.lt p.components q.components

/-- Whether a path starts at the root of the file system. -/
def isAbsolute (p : Path) : Bool :=
  p.text.head? = some '/'

/-- The path `q` as seen from the directory `p`: an absolute path stays, and a relative one is
appended after a slash, which is left out if `p` is empty or ends with one. -/
def join (p q : Path) : Path :=
  if q.isAbsolute then q
  else if p.text = [] || p.text.getLast? = some '/' then ⟨p.text ++ q.text⟩
  else ⟨p.text ++ '/' :: q.text⟩

/-- The path without its last component: the text up to the end of the one before. The root and the
empty path have no parent. -/
def parent? (p : Path) : Option Path :=
  match p.places.reverse with
  | [] => none
  | last :: before =>
    if last.component = .root then none
    else some ⟨p.text.take ((before.head?.map Place.stop).getD 0)⟩

/-- The path and its parents, the nearest first. `levels` bounds their number. -/
def ancestorsUpTo (p : Path) : Nat → List Path
  | 0 => []
  | levels + 1 =>
    p :: match p.parent? with
      | some q => q.ancestorsUpTo levels
      | none => []

/-- The path and its parents, the nearest first. -/
def ancestors (p : Path) : List Path :=
  p.ancestorsUpTo (p.places.length + 1)

/-- The name at the end of a path. -/
def fileName? (p : Path) : Option Text :=
  match p.components.getLast? with
  | some (.name n) => some n
  | _ => none

/-- A file name before and after its last dot. A dot at the start parts nothing. -/
def splitName (n : Text) : Text × Option Text :=
  let extension := n.reverse.takeWhile (· != '.')
  match n.reverse.drop (extension.length + 1) with
  | [] => (n, none)
  | stem => (stem.reverse, some extension.reverse)

/-- What follows the last dot of the file name. -/
def extension? (p : Path) : Option Text :=
  p.fileName?.bind fun n => (splitName n).2

/-- The file name without its extension: what identifies the file within its directory. -/
def fileId? (p : Path) : Option Text :=
  p.fileName?.map fun n => (splitName n).1

/-- What follows the components of `base`, if `p` starts with them. -/
def relativeTo? (base p : Path) : Option Path :=
  let n := base.places.length
  if base.components = p.components.take n then
    match p.places.drop n, p.places.getLast? with
    | first :: _, some last => some ⟨(p.text.take last.stop).drop first.start⟩
    | _, _ => some ⟨[]⟩
  else none

/-- Whether a path ends with a dot: it stands for the directory before the dot. -/
def endsWithDot (p : Path) : Bool :=
  (splitSlashes p.text).getLast? = some ['.']

/-- Whether a path can only stand for a directory: it ends with a slash or a dot. -/
def requiresDirectory (p : Path) : Bool :=
  match splitSlashes p.text |>.getLast? with
  | some l => l = [] || l = ['.'] || l = ['.', '.']
  | none => true

end Path

end ElementModules
