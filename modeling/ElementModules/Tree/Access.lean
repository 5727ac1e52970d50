import ElementModules.Fault
import ElementModules.Path
import ElementModules.Tree.Basic

/-!
# Access to a tree by paths

A path is followed from the root of the tree, component by component; each step must start in a
directory. A path that leaves the tree leads nowhere, as does an absolute one. The operations check
first whether they can be carried out and change the tree only then; only `Tree.makeDirs` may have
made some directories when it fails.

Main statements: `Tree.mkdir_eq_ok`, `Tree.writeFile_eq_ok`, what these operations do to the tree.
-/

namespace ElementModules

namespace Tree

/-- Whether the node at an address can be entered. -/
def enter (t : Tree) (a : Address) : Except Fault Unit :=
  match t.get? a with
  | some .dir => .ok ()
  | some (.file _) => .error .notDirectory
  | none => .error .notFound

/-- Where a component leads from a directory. -/
def step (a : Address) : Component → Except Fault Address
  | .root => .error .notFound
  | .here => .ok a
  | .up => if a = [] then .error .notFound else .ok a.dropLast
  | .name n => if Text.size n ≤ 255 then .ok (a ++ [n]) else .error .nameTooLong

/-- Where components lead from an address. -/
def follow (t : Tree) (a : Address) : List Component → Except Fault Address
  | [] => .ok a
  | c :: cs =>
    match t.enter a with
    | .error e => .error e
    | .ok () =>
      match step a c with
      | .error e => .error e
      | .ok b => t.follow b cs

/-- Where a path leads. Nothing need stand there, but it lies in a directory. -/
def locate (t : Tree) (p : Path) : Except Fault Address :=
  if p.text = [] then .error .notFound
  else if '\x00' ∈ p.text then .error .nullInPath
  else t.follow [] p.components

/-- What stands at a path. -/
def node (t : Tree) (p : Path) : Except Fault Node :=
  match t.locate p with
  | .error e => .error e
  | .ok a =>
    match t.get? a with
    | none => .error .notFound
    | some .dir => .ok .dir
    | some (.file c) => if p.requiresDirectory then .error .notDirectory else .ok (.file c)

/-- Whether anything stands at a path. -/
def hasNode (t : Tree) (p : Path) : Bool :=
  (t.node p).isOk

/-- Whether a directory stands at a path. -/
def isDir (t : Tree) (p : Path) : Bool :=
  match t.node p with
  | .ok .dir => true
  | _ => false

/-- Whether a file stands at a path. -/
def isFile (t : Tree) (p : Path) : Bool :=
  match t.node p with
  | .ok (.file _) => true
  | _ => false

/-- The text of the file at a path. -/
def readText (t : Tree) (p : Path) : Except Fault Text :=
  match t.node p with
  | .error e => .error e
  | .ok .dir => .error .isDirectory
  | .ok (.file (.bytes _)) => .error .notText
  | .ok (.file (.text x)) => .ok x

/-- Writes a file, in place of the file that stood there. -/
def writeFile (t : Tree) (p : Path) (c : Content) : Except Fault Tree :=
  match t.locate p with
  | .error e => .error e
  | .ok a =>
    match t.get? a with
    | some .dir => .error .isDirectory
    | some (.file _) => if p.requiresDirectory then .error .notDirectory else .ok (t.setFile a c)
    | none => if p.requiresDirectory then .error .isDirectory else .ok (t.setFile a c)

/-- Writes a text as a file. -/
def writeText (t : Tree) (p : Path) (x : Text) : Except Fault Tree :=
  t.writeFile p (.text x)

/-- Makes a directory where nothing stands. A dot at the end of the path would have to lie in the
directory that is to be made. -/
def mkdir (t : Tree) (p : Path) : Except Fault Tree :=
  match t.locate p with
  | .error e => .error e
  | .ok a =>
    match t.get? a with
    | some _ => .error .alreadyExists
    | none => if p.endsWithDot then .error .notFound else .ok (t.addDir a)

/-- Makes the first of some directories, of which each lies in the next one, and those of the others
that do not exist. -/
def makeChain (t : Tree) : List Path → Tree × Except Fault Unit
  | [] => (t, .error .notFound)
  | p :: above =>
    if p.components = [] then (t, .ok ())
    else match t.mkdir p with
      | .ok t => (t, .ok ())
      | .error e =>
        if e = .notFound then
          match t.makeChain above with
          | (t, .error e) => (t, .error e)
          | (t, .ok ()) =>
            match t.mkdir p with
            | .ok t => (t, .ok ())
            | .error e => if t.isDir p then (t, .ok ()) else (t, .error e)
        else if t.isDir p then (t, .ok ())
        else (t, .error e)

/-- Makes a directory and those above it, as far as they do not exist. -/
def makeDirs (t : Tree) (p : Path) : Tree × Except Fault Unit :=
  t.makeChain p.ancestors

/-- Makes the directories above a path. -/
def makeParents (t : Tree) (p : Path) : Tree × Except Fault Unit :=
  match p.parent? with
  | some d => t.makeDirs d
  | none => (t, .ok ())

/-- The tree in which the file at `a` stands at `b`. -/
def transfer (t : Tree) (a b : Address) : Tree :=
  match t.get? a with
  | some (.file c) => if a = b then t else (t.setFile b c).remove a
  | _ => t

/-- Moves a file, in place of the file that stood there. -/
def rename (t : Tree) (source target : Path) : Except Fault Tree :=
  match t.locate source, t.locate target with
  | .error e, _ => .error e
  | _, .error e => .error e
  | .ok a, .ok b =>
    if target.requiresDirectory || t.get? b = some .dir then .error .isDirectory
    else .ok (t.transfer a b)

/-- Moves a file and makes the directories above its new place. -/
def moveFile (t : Tree) (source target : Path) : Tree × Except Fault Unit :=
  match t.makeParents target with
  | (t, .error e) => (t, .error e)
  | (t, .ok ()) =>
    match t.rename source target with
    | .ok t => (t, .ok ())
    | .error e => (t, .error e)

/-- Whether an empty directory stands at a path. -/
def isEmptyDir (t : Tree) (p : Path) : Bool :=
  match t.locate p with
  | .ok a => t.get? a = some .dir && !t.hasChildren a
  | .error _ => false

/-- Removes an empty directory. -/
def removeDir (t : Tree) (p : Path) : Except Fault Tree :=
  match t.locate p with
  | .error e => .error e
  | .ok a =>
    match t.get? a with
    | none => .error .notFound
    | some (.file _) => .error .notDirectory
    | some .dir => if t.hasChildren a then .error .notEmpty else .ok (t.remove a)

/-- Copies a file, in place of the file that stood there. -/
def copyFile (t : Tree) (source target : Path) : Except Fault Tree :=
  match t.node source with
  | .error e => .error e
  | .ok .dir => .error .isDirectory
  | .ok (.file c) => t.writeFile target c

/-- Where a path leads lies in a directory, unless it is the root. -/
theorem get?_dropLast_of_follow {t : Tree} {a b : Address} {cs : List Component}
    (ha : a ≠ [] → t.get? a.dropLast = some .dir) (h : t.follow a cs = .ok b) :
    b ≠ [] → t.get? b.dropLast = some .dir := by
  induction cs generalizing a with
  | nil =>
    simp only [follow, Except.ok.injEq] at h
    exact h ▸ ha
  | cons c cs ih =>
    rw [follow] at h
    split at h
    · simp at h
    next hent =>
      have hdir : t.get? a = some .dir := by
        unfold enter at hent
        split at hent <;> simp_all
      split at h
      · simp at h
      next a' hstep =>
        refine ih (fun hne => ?_) h
        cases c with
        | root => simp [step] at hstep
        | here =>
          simp only [step, Except.ok.injEq] at hstep
          exact hstep ▸ ha (hstep ▸ hne)
        | up =>
          simp only [step] at hstep
          split at hstep
          · simp at hstep
          next hnil =>
            simp only [Except.ok.injEq] at hstep
            subst hstep
            exact t.get?_dropLast (ha hnil) hne
        | name n =>
          simp only [step] at hstep
          split at hstep
          · simp only [Except.ok.injEq] at hstep
            subst hstep
            simpa using hdir
          · simp at hstep

/-- A node can be put where a path leads, unless it leads to the root. -/
theorem hasPlace_of_locate {t : Tree} {p : Path} {a : Address} (h : t.locate p = .ok a)
    (ha : a ≠ []) : t.hasPlace a := by
  unfold locate at h
  split at h
  · simp at h
  · split at h
    · simp at h
    · simp [hasPlace, ha, get?_dropLast_of_follow (by simp) h ha]

/-- A directory is made where nothing stood, and nothing else changes. -/
theorem mkdir_eq_ok {t t' : Tree} {p : Path} (h : t.mkdir p = .ok t') :
    ∃ a, t.locate p = .ok a ∧ t.get? a = none
      ∧ ∀ b, t'.get? b = if b = a then some .dir else t.get? b := by
  unfold mkdir at h
  split at h
  · simp at h
  next a hloc =>
    split at h
    · simp at h
    next hnone =>
      split at h
      · simp at h
      · simp only [Except.ok.injEq] at h
        subst h
        have hne : a ≠ [] := by
          rintro rfl
          simp at hnone
        exact ⟨a, hloc, hnone, get?_addDir (hasPlace_of_locate hloc hne)⟩

/-- A file is written where no directory stood, and nothing else changes. -/
theorem writeFile_eq_ok {t t' : Tree} {p : Path} {c : Content} (h : t.writeFile p c = .ok t') :
    ∃ a, t.locate p = .ok a ∧ t.get? a ≠ some .dir
      ∧ ∀ b, t'.get? b = if b = a then some (.file c) else t.get? b := by
  have key : ∀ a, t.locate p = .ok a → t.get? a ≠ some .dir → t' = t.setFile a c →
      ∃ a, t.locate p = .ok a ∧ t.get? a ≠ some .dir
        ∧ ∀ b, t'.get? b = if b = a then some (.file c) else t.get? b := by
    intro a hloc hdir heq
    have hne : a ≠ [] := by
      rintro rfl
      simp at hdir
    exact ⟨a, hloc, hdir, heq ▸ get?_setFile (hasPlace_of_locate hloc hne) hdir⟩
  unfold writeFile at h
  split at h
  · simp at h
  next a hloc =>
    split at h
    · simp at h
    next hfile =>
      split at h
      · simp at h
      · exact key a hloc (by simp [hfile]) (by simpa using h.symm)
    next hnone =>
      split at h
      · simp at h
      · exact key a hloc (by simp [hnone]) (by simpa using h.symm)

end Tree

end ElementModules
