import ElementModules.Project.Run
import ElementModules.Proofs.Project.Generating
import ElementModules.Proofs.Project.Preserving
import ElementModules.Proofs.Project.Rearranging
import ElementModules.Proofs.Project.Working

/-!
# Runs that fail

A stage fails only if the root of the project or that of its services is missing, and then nothing was
changed. In a run only the first stage can fail: the root of the project is a directory then, and no
step takes it away. Directories go only when a library is flattened, and what goes lies below the
directory of the library; so the root stays if no library has its directory above it.

## Main results

* `isDir_arrange`: the root of the project is there after the arrangement.
* `exists_stages_eq_ok`: no other stage fails while it is there.
* `failed_unchanged`: a run or a stage that fails has changed nothing.
-/

namespace ElementModules

/-- Whether the directory at one path lies strictly above what stands at another one. -/
def Path.isAncestor (p q : Path) : Bool :=
  match p.goal, q.goal with
  | .ok a, .ok b => Tree.IsBelow a b
  | _, _ => false

theorem Path.isAncestor_of_goal {p q : Path} {a b : Address} (hp : p.goal = .ok a)
    (hq : q.goal = .ok b) : p.isAncestor q = true ↔ Tree.IsBelow a b := by
  rw [isAncestor, hp, hq]
  exact decide_eq_true_iff

namespace Project

open ElementModules.Tree Descriptor

variable {t t' : Tree} {c : Config} {stamp : Text} {a : Address}
  {libraries : List Library}

/-! ### The arrangement -/

/-- A directory stays when libraries are flattened, unless it lies below that of one. -/
theorem dir_flatten {l : Library} (hlib : ∀ d, l.dir.goal = .ok d → ¬ IsBelow d a)
    (h : t.IsProper ∧ t.get? a = some .dir) :
    (flatten t l).1.IsProper ∧ (flatten t l).1.get? a = some .dir := by
  refine flatten_induct (P := fun u _ => u.IsProper ∧ u.get? a = some .dir) h (fun _ => h)
    (fun u d names _ _ _ _ hu _ _ => ?_) fun u v d names _ hl ⟨_, hu⟩ hv hnames => ?_
  · have hkeeps := keepsDirs_flattenModule l u (extendPath l.dir names)
    exact ⟨hkeeps.isProper hu.1, hkeeps.dir a hu.2⟩
  · obtain ⟨hg, hne, -⟩ := mem_dirNames_iff_get?.1 hnames
    have hfile : ∀ n ∈ names, IsFileName n := fun n hn =>
      hu.1 _ _ hg n (List.mem_append_right _ hn)
    rcases prune_extendPath_cases hl hfile with he | ⟨-, hempty, he⟩
    · rwa [he]
    · have hget := get?_remove hempty (by simp [hne])
      rw [he]
      refine ⟨fun x n hx => ?_, ?_⟩
      · rw [hget] at hx
        split_ifs at hx
        exact hv.1 x n hx
      · rw [hget, if_neg, hv.2]
        rintro rfl
        exact hlib d (goal_of_locate hl) (isBelow_append hne)

/-- A directory stays when a project is arranged, unless it lies below that of a library. -/
theorem dir_arrange (s : Path) (plan : LayoutPlan)
    (hlib : ∀ l ∈ libraries, ∀ d, l.dir.goal = .ok d → ¬ IsBelow d a) (hproper : t.IsProper)
    (ha : t.get? a = some .dir) : (arrange t s plan libraries).1.get? a = some .dir := by
  have hsteps : ∀ {α : Type} {f : Tree → α → Tree × Entry} {u : Tree} (as : List α),
      (∀ u x, KeepsDirs u (f u x).1) → KeepsDirs t u → KeepsDirs t (u.each f as).1 := fun _ hf hu =>
    each_induct (P := KeepsDirs t) hu fun u x _ hu => hu.trans (hf u x)
  unfold arrange
  split
  · exact ha
  · have hlaid := hsteps plan.stubs (fun u b => keepsDirs_placeStub u (s.join b.path) b.body)
      (hsteps plan.relocations (fun u r => keepsDirs_relocate u (s.join r.source) (s.join r.target))
        (hsteps (plan.directories.map s.join) keepsDirs_placeDir (.refl t)))
    exact (each_induct (P := fun u => u.IsProper ∧ u.get? a = some .dir)
      ⟨hlaid.isProper hproper, hlaid.dir a ha⟩ fun u l hl hu => dir_flatten (hlib l hl) hu).2

/-- **A directory stays** when a project is arranged, if no library lies above it. -/
theorem isDir_arrange {p : Path} (s : Path) (plan : LayoutPlan) (hproper : t.IsProper) (hp : p.IsDown)
    (hlib : ∀ l ∈ libraries, l.dir.isAncestor p = false) (h : t.isDir p = true) :
    (arrange t s plan libraries).1.isDir p = true := by
  obtain ⟨a, hl, ha⟩ := isDir_iff.1 h
  have hgoal := goal_of_locate hl
  have hbelow : ∀ l ∈ libraries, ∀ d, l.dir.goal = .ok d → ¬ IsBelow d a := by
    intro l hl d hd hb
    have habove := (Path.isAncestor_of_goal hd hgoal).2 hb
    rw [hlib l hl] at habove
    cases habove
  have hstays := dir_arrange s plan hbelow hproper ha
  exact isDir_iff.2 ⟨a, locate_of_get? hp hl hstays, hstays⟩

/-! ### The other stages -/

theorem eachModule_keepsDirs {stage : Stage} {r : Registry} {missing : Text}
    {f : Tree → Path → Tree × Entry} (h : ∀ u p, KeepsDirs u (f u p).1) (t : Tree) (dir : Path) :
    KeepsDirs t (eachModule stage r missing f t dir).1 := by
  rw [eachModule]
  split
  · exact .refl t
  · exact each_induct (P := KeepsDirs t) (.refl t) fun u p _ hu => hu.trans (h u p)

theorem keepsDirs_backUp (v : Converter) (t : Tree) (p : Path) : KeepsDirs t (v.backUp t p).1 := by
  unfold Converter.backUp
  split
  · exact .refl t
  next b _ =>
    have hparents := keepsDirs_makeParents t (v.backupPath b p)
    dsimp only
    split
    next hm => rwa [hm] at hparents
    next hm =>
      rw [hm] at hparents
      split
      next hc => exact hparents.trans (keepsDirs_copyFile hc)
      · exact hparents

theorem keepsDirs_convertModule (v : Converter) (l : Library) (t : Tree) (p : Path) :
    KeepsDirs t (v.convertModule l t p).1 := by
  have hcopied := keepsDirs_backUp v t p
  show KeepsDirs t (v.treat l t p).1
  unfold Converter.treat
  split
  · exact .refl t
  · split
    · split
      next hb => rwa [hb] at hcopied
      next hb =>
        rw [hb] at hcopied
        split
        next hw => exact hcopied.trans (keepsDirs_writeFile hw)
        · exact hcopied
    · exact .refl t

theorem keepsDirs_repairModule (w : Registrar) (t : Tree) (p : Path) :
    KeepsDirs t (w.repairModule t p).1 := by
  rcases repairModule_cases w t p with ⟨h, -⟩ | ⟨x, out, -, -, -, -, h⟩
  · rw [h]
    exact .refl t
  · exact keepsDirs_writeFile h

theorem keepsDirs_create (w : ModuleWriter) (t : Tree) (p : Path) (x : Text) :
    KeepsDirs t (w.create t p x).1 := by
  have hmade := keepsDirs_makeDirs t w.dir
  rcases w.create_cases t p x with ⟨e, h, -⟩ | ⟨e, h, -⟩ | ⟨-, h⟩
  · rwa [h]
  · rwa [h]
  · exact KeepsDirs.trans hmade (keepsDirs_writeFile h)

theorem keepsDirs_write (w : ModuleWriter) (t : Tree) (m : ElementModule) :
    KeepsDirs t (w.write t m).1 := by
  unfold ModuleWriter.write
  dsimp only
  split
  · split_ifs
    · exact .refl t
    · exact .refl t
    · split
      next hw => exact keepsDirs_writeFile hw
      · exact .refl t
  · have hcreated := keepsDirs_create w t (w.dir.join ⟨m.fileName⟩) m.text
    split
    next hc => rwa [hc] at hcreated
    next hc => rwa [hc] at hcreated
  · exact .refl t

theorem keepsDirs_writeElement (w : ModuleWriter) (table : ElementTable) (r : Registry) (t : Tree)
    (e : Text × ElementRow) : KeepsDirs t (w.writeElement table r t e).1 := by
  unfold ModuleWriter.writeElement
  split
  · exact keepsDirs_write w t _
  · exact .refl t

theorem keepsDirs_writeIndex (w : Indexer) (t : Tree) (l : Library) : KeepsDirs t (w.write t l).1 := by
  have htext : ∀ p x, KeepsDirs t (Indexer.writeText t p x).1 := by
    intro p x
    unfold Indexer.writeText
    dsimp only
    split_ifs
    · exact .refl t
    · split
      next hw => exact keepsDirs_writeFile hw
      · exact .refl t
  unfold Indexer.write
  dsimp only
  split
  · exact .refl t
  · split
    · exact .refl t
    next x _ =>
      have h := htext (l.dir.join ⟨w.registry.indexFile⟩) x
      split
      next hw => rwa [hw] at h
      next hw => rwa [hw] at h

/-- All stages but the first keep the directories, and they succeed. -/
theorem perform_of_ne_normalize {s : Stage} (hs : s ≠ .normalize) (c : Config) (stamp : Text)
    (t : Tree) : KeepsDirs t (perform c stamp t s).1 ∧ ∃ r, (perform c stamp t s).2 = .ok r := by
  have hsteps : ∀ {α β : Type} {f : Tree → α → Tree × β} {as : List α},
      (∀ u x, KeepsDirs u (f u x).1) → KeepsDirs t (t.each f as).1 := fun hf =>
    each_induct (P := KeepsDirs t) (.refl t) fun u x _ hu => hu.trans (hf u x)
  cases s with
  | normalize => exact absurd rfl hs
  | convert =>
    exact ⟨hsteps fun u l => eachModule_keepsDirs (keepsDirs_convertModule _ l) u l.dir, _, rfl⟩
  | generate =>
    refine ⟨?_, _, rfl⟩
    show KeepsDirs t (generateTable c t).1
    unfold generateTable
    split
    · exact hsteps (keepsDirs_writeElement _ _ _)
    · exact .refl t
  | patch => exact ⟨hsteps fun u d => eachModule_keepsDirs (keepsDirs_repairModule _) u d, _, rfl⟩
  | index => exact ⟨hsteps (keepsDirs_writeIndex _), _, rfl⟩

/-! ### Failures -/

theorem stage_of_isDir (h : t.isDir c.root = true) (s : Stage) :
    stage c stamp t s = perform c stamp t s := by
  rw [stage, requireRoot, if_pos h]

/-- **No stage but the first fails** while the root of the project is there. -/
theorem exists_stages_eq_ok {ss : List Stage} (hss : .normalize ∉ ss) (h : t.isDir c.root = true) :
    ∃ t' rs, stages c stamp t ss = (t', .ok rs) := by
  induction ss generalizing t with
  | nil => exact ⟨t, [], rfl⟩
  | cons s ss ih =>
    obtain ⟨hs, hrest⟩ := not_or.1 (mt List.mem_cons.2 hss)
    obtain ⟨hkeeps, r, hr⟩ := perform_of_ne_normalize (Ne.symm hs) c stamp t
    obtain ⟨t', rs, hrs⟩ := ih hrest (hkeeps.isDir h)
    have hfirst : stage c stamp t s = ((perform c stamp t s).1, .ok r) := by
      rw [stage_of_isDir h, ← hr]
    exact ⟨t', r :: rs, by simp only [stages, hfirst, hrs]⟩

/-- A stage that arranged the project began with its root and left it there. -/
theorem isDir_root_of_normalize (hproper : t.IsProper) (hroot : c.root.IsDown)
    (hlib : ∀ l ∈ c.resolvedLibraries, l.dir.isAncestor c.root = false) {r : StageReport}
    (h : stage c stamp t .normalize = (t', .ok r)) : t'.isDir c.root = true := by
  cases hd : t.isDir c.root with
  | false =>
    rw [stage, requireRoot, if_neg (by simp [hd])] at h
    cases h
  | true =>
    have hstays := isDir_arrange c.servicesRoot c.layout hproper hroot hlib hd
    rw [stage_of_isDir hd] at h
    cases harranged : arrange t c.servicesRoot c.layout c.resolvedLibraries with
    | mk u result =>
      rw [harranged] at hstays
      simp only [perform, harranged] at h
      cases result with
      | error e => cases h
      | ok r' =>
        obtain ⟨rfl, -⟩ := Prod.mk.inj h
        exact hstays

/-- **What fails has changed nothing**: the failure of a run or of a single stage is that a root is
missing, and the tree is as it was. No stage after the arrangement fails once that has succeeded. -/
theorem failed_unchanged (hproper : t.IsProper) (hroot : c.root.IsDown)
    (hlib : ∀ l ∈ c.resolvedLibraries, l.dir.isAncestor c.root = false) :
    (∀ t' e, run c stamp t = (t', .error e) → t' = t ∧ ∃ p, e = .layout (.missingRoot p))
      ∧ (∀ s t' e, stage c stamp t s = (t', .error e) → t' = t ∧ ∃ p, e = .layout (.missingRoot p))
      ∧ ∀ t' r, stage c stamp t .normalize = (t', .ok r) →
        ∀ ss, .normalize ∉ ss → ∃ t'' rs, stages c stamp t' ss = (t'', .ok rs) := by
  have hstage : ∀ s t' e, stage c stamp t s = (t', .error e) →
      t' = t ∧ ∃ p, e = .layout (.missingRoot p) := fun s t' e h =>
    (stage_eq_error h).imp_right (Failure.isFatal_iff e).1
  have hlater : ∀ t' r, stage c stamp t .normalize = (t', .ok r) →
      ∀ ss, .normalize ∉ ss → ∃ t'' rs, stages c stamp t' ss = (t'', .ok rs) := fun t' r h ss hss =>
    exists_stages_eq_ok hss (isDir_root_of_normalize hproper hroot hlib h)
  refine ⟨fun t' e h => ?_, hstage, hlater⟩
  rw [run, allStages, stages] at h
  cases hfirst : stage c stamp t .normalize with
  | mk u result =>
    rw [hfirst] at h
    cases result with
    | error e' =>
      obtain ⟨rfl, he⟩ := Prod.mk.inj h
      obtain rfl := Except.error.inj he
      exact hstage _ _ _ hfirst
    | ok r =>
      obtain ⟨v, rs, hrest⟩ := hlater u r hfirst [.convert, .generate, .patch, .index] (by simp)
      simp only [hrest] at h
      cases h

/-- A project in a directory beside that of its library. -/
def besideLibrary : Config where
  root := "src"
  libraries := [⟨"lib", "../lib"⟩]

/-- The services of the project are missing, so nothing is done. -/
theorem failed_unchanged_besideLibrary :
    (nestedProject.IsProper ∧ besideLibrary.root.IsDown
        ∧ ∀ l ∈ besideLibrary.resolvedLibraries, l.dir.isAncestor besideLibrary.root = false)
      ∧ ∃ t' e, run besideLibrary "now" nestedProject = (t', .error e)
        ∧ t' = nestedProject ∧ ∃ p, e = .layout (.missingRoot p) := by
  have hproper : nestedProject.IsProper := isProper_iff.2 (by decide)
  have hroot : besideLibrary.root.IsDown := by decide
  have hlib : ∀ l ∈ besideLibrary.resolvedLibraries, l.dir.isAncestor besideLibrary.root = false := by
    decide
  have hrun : run besideLibrary "now" nestedProject
      = (nestedProject, .error (.layout (.missingRoot besideLibrary.servicesRoot))) := by rfl
  exact ⟨⟨hproper, hroot, hlib⟩, _, _, hrun, (failed_unchanged hproper hroot hlib).1 _ _ hrun⟩

end Project

end ElementModules
