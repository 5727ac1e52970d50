import ElementModules.Proofs.Project.Placing
import ElementModules.Proofs.Tree.Preserving

/-!
# Steps of an arrangement that keep directories

Only one step of an arrangement takes directories away: when a library is flattened, directories below
its own go in which nothing lies. All other steps keep every directory, wherever their paths lead. So
what holds of a tree holds after a library was flattened if it is kept by the moves of its modules,
during which the directory of the library stands, and by the removals (`flatten_induct`).

Main results: `keepsDirs_relocate` and the like, `prune_cases`, `flatten_induct`.
-/

namespace ElementModules.Project

open ElementModules.Tree

variable {t : Tree} {p : Path} {l : Library}

/-! ### Single steps -/

theorem keepsDirs_placeDir (t : Tree) (p : Path) : KeepsDirs t (placeDir t p).1 := by
  rw [placeDir_fst]
  split_ifs
  · exact .refl t
  · exact keepsDirs_makeDirs t p

theorem keepsDirs_relocate (t : Tree) (s d : Path) : KeepsDirs t (relocate t s d).1 := by
  rw [relocate_fst]
  split_ifs
  · exact keepsDirs_moveFile t s d
  · exact .refl t

theorem keepsDirs_writeNew (t : Tree) (p : Path) (body : Text) :
    KeepsDirs t (writeNew t p body).1 := by
  have hparents := keepsDirs_makeParents t p
  rw [writeNew]
  split
  next hm => rwa [hm] at hparents
  next t₁ hm =>
    rw [hm] at hparents
    split
    next hw => exact hparents.trans (keepsDirs_writeFile hw)
    · exact hparents

theorem keepsDirs_placeStub (t : Tree) (p : Path) (body : Text) :
    KeepsDirs t (placeStub t p body).1 := by
  rw [placeStub_fst]
  split_ifs
  · exact .refl t
  · exact keepsDirs_writeNew t p body

theorem keepsDirs_flattenModule (l : Library) (t : Tree) (p : Path) :
    KeepsDirs t (flattenModule l t p).1 := by
  rw [flattenModule]
  split
  · exact keepsDirs_relocate t p _
  · exact .refl t

/-- What the removal of a directory does: nothing, or the directory goes because nothing lies in it. -/
theorem prune_cases (t : Tree) (p : Path) : prune t p = (t, none)
    ∨ ∃ a, t.locate p = .ok a ∧ t.get? a = some .dir ∧ t.hasChildren a = false
      ∧ prune t p = (t.remove a, some ⟨.normalize, p, .removed, some "empty directory"⟩) := by
  rw [prune, isEmptyDir]
  cases hl : t.locate p with
  | error e => exact .inl rfl
  | ok a =>
    by_cases hempty : t.get? a = some .dir ∧ t.hasChildren a = false
    · exact .inr ⟨a, rfl, hempty.1, hempty.2, by simp [removeDir, hl, hempty]⟩
    · left
      rw [if_neg (by simpa using hempty)]

/-- What the removal of a directory that was listed does, also when the way to it is gone. -/
theorem prune_extendPath_cases {u v : Tree} {d : Address} {names : List Text}
    (hloc : u.locate p = .ok d) (hnames : ∀ n ∈ names, IsFileName n) :
    (prune v (extendPath p names)).1 = v
      ∨ v.get? (d ++ names) = some .dir ∧ v.hasChildren (d ++ names) = false
        ∧ (prune v (extendPath p names)).1 = v.remove (d ++ names) := by
  rcases prune_cases v (extendPath p names) with he | ⟨b, hb, hdir, hempty, he⟩
  · exact .inl (congrArg Prod.fst he)
  · have hgoal := goal_extendPath hnames (goal_of_locate hloc)
    obtain rfl := Except.ok.inj ((goal_of_locate hb).symm.trans hgoal)
    exact .inr ⟨hdir, hempty, congrArg Prod.fst he⟩

/-! ### Libraries -/

/-- **What flattening keeps**, of the tree and the entries so far: what is kept when modules are moved
that were listed at first, and when directories are removed that were listed then. -/
theorem flatten_induct {P : Tree → List Entry → Prop} (h : P t []) (hskip : ∀ e, P t [e])
    (hmove : ∀ u d names es, t.locate l.dir = .ok d → t.get? d = some .dir → KeepsDirs t u →
      P u es → names ∈ t.moduleNames {} d → l.isFlat (extendPath l.dir names) = false →
      P (flattenModule l u (extendPath l.dir names)).1
        (es ++ (flattenModule l u (extendPath l.dir names)).2.toList))
    (hprune : ∀ u v d names es, u.locate l.dir = .ok d → (∃ es, P u es) → P v es →
      names ∈ u.dirNames {} d → P (prune v (extendPath l.dir names)).1
        (es ++ (prune v (extendPath l.dir names)).2.toList)) :
    P (flatten t l).1 (flatten t l).2.entries := by
  have hentries : ∀ (bs : List (Option Entry)) b,
      (bs ++ [b]).filterMap id = bs.filterMap id ++ b.toList := by
    intro bs b
    cases b <;> simp
  rw [flatten, modulesIn]
  cases hl : t.listable l.dir with
  | error e => exact hskip _
  | ok d =>
    obtain ⟨hloc, hd⟩ := listable_eq_ok_iff.1 hl
    simp only [Except.map]
    generalize hmoves : t.each (flattenModule l)
      (((t.moduleNames {} d).map (extendPath l.dir)).filter fun p => !l.isFlat p) = moves
    have hmoved : KeepsDirs t moves.1 ∧ P moves.1 (moves.2.filterMap id) := by
      rw [← hmoves]
      refine each_induct_answers (P := fun u bs => KeepsDirs t u ∧ P u (bs.filterMap id))
        ⟨.refl t, h⟩ fun u bs p hp hu => ?_
      obtain ⟨hp, hflat⟩ := List.mem_filter.1 hp
      obtain ⟨names, hnames, rfl⟩ := List.mem_map.1 hp
      rw [hentries]
      exact ⟨hu.1.trans (keepsDirs_flattenModule l u _),
        hmove u d names _ hloc hd hu.1 hu.2 hnames (by simpa using hflat)⟩
    refine each_induct_answers (P := fun v bs => P v ((moves.2 ++ bs).filterMap id))
      (by rw [List.append_nil]; exact hmoved.2) fun v bs p hp hv => ?_
    rw [← List.append_assoc, hentries]
    rw [dirsIn] at hp
    cases hl' : moves.1.listable l.dir with
    | error e =>
      rw [hl'] at hp
      cases hp
    | ok d' =>
      rw [hl'] at hp
      obtain ⟨names, hnames, rfl⟩ := List.mem_map.1 hp
      exact hprune _ v d' names _ (listable_eq_ok_iff.1 hl').1 ⟨_, hmoved.2⟩ hv hnames

end ElementModules.Project
