import ElementModules.Proofs.Project.Preserving

/-!
# Directories that are pruned

When the modules of a library have moved, the directories below its own are looked at, the deepest
first, and those in which nothing lies go. So a directory that was emptied below is seen when it is
empty itself, and something lies in every directory that is left (`isInhabited_removalsIn`).

The path of the library may itself lead through such a directory and up again. When that directory is
gone, the path leads nowhere, and nothing else is found to be empty.

Main results: `pruned_removalsIn` and `isInhabited_removalsIn`.
-/

namespace ElementModules.Project

open ElementModules.Tree

variable {l : Library} {t u : Tree} {d : Address} {names : List Text}

/-! ### Single steps -/

/-- Whether a directory goes. -/
theorem prune_fst (hloc : t.locate l.dir = .ok d) (hnames : ∀ m ∈ names, IsFileName m) :
    (prune t (extendPath l.dir names)).1
      = if t.get? (d ++ names) = some .dir ∧ t.hasChildren (d ++ names) = false
        then t.remove (d ++ names) else t := by
  by_cases hg : t.get? (d ++ names) = some .dir
  · have hloc' := locate_extendPath_of_get? hnames hloc hg
    rw [prune, isEmptyDir, removeDir, hloc']
    cases hc : t.hasChildren (d ++ names) <;> simp [hg, hc]
  · have hempty : t.isEmptyDir (extendPath l.dir names) = false := by
      rw [isEmptyDir]
      cases hloc' : t.locate (extendPath l.dir names) with
      | error e => rfl
      | ok a => simp [((locate_extendPath_eq_ok_iff hnames hloc).1 hloc').1, hg]
    rw [prune, hempty]
    exact (if_neg fun hc => hg hc.1).symm

/-- A removal that is carried out succeeds. -/
theorem outcome_of_prune (t : Tree) (p : Path) :
    ∀ e ∈ (prune t p).2, e.outcome = .removed := by
  rcases prune_cases t p with he | ⟨a, -, -, -, he⟩ <;> simp [he]

/-- A directory that is not empty, if it is there. -/
def IsInhabited (d : Address) (names : List Text) (t : Tree) : Prop :=
  t.get? (d ++ names) = some .dir → t.hasChildren (d ++ names) = true

section Inhabited

variable (hloc : t.locate l.dir = .ok d) (hne : names ≠ []) (hnames : ∀ m ∈ names, IsFileName m)
include hloc hne hnames

/-- A directory that is to go is not empty afterwards. -/
theorem isInhabited_prune : IsInhabited d names (prune t (extendPath l.dir names)).1 := by
  rw [prune_fst hloc hnames]
  intro hg
  split_ifs at hg ⊢ with hempty
  · rw [get?_remove hempty.2 (by simp [hne]), if_pos rfl] at hg
    cases hg
  · simpa using fun hc => hempty ⟨hg, hc⟩

/-- A directory in which something lies keeps it when another one is to go that lies no deeper. -/
theorem IsInhabited.prune {ms : List Text} (h : IsInhabited d ms t)
    (hle : names.length ≤ ms.length) : IsInhabited d ms (prune t (extendPath l.dir names)).1 := by
  rw [prune_fst hloc hnames]
  intro hg
  split_ifs at hg ⊢ with hempty
  · have hget := get?_remove hempty.2 (by simp [hne])
    rw [hget] at hg
    split_ifs at hg
    obtain ⟨m, hm⟩ := hasChildren_iff.1 (h hg)
    refine hasChildren_iff.2 ⟨m, ?_⟩
    rwa [hget, if_neg]
    intro he
    have := congrArg List.length he
    simp only [List.length_append, List.length_singleton] at this
    omega
  · exact h hg

end Inhabited

/-! ### The tree after some removals -/

/-- A tree in which directories below another one are gone. -/
structure Pruned (d : Address) (t t' : Tree) : Prop where
  outside : ∀ a, ¬ IsBelow d a → t'.get? a = t.get? a
  old : ∀ a m, t'.get? a = some m → t.get? a = some m
  file : ∀ a c, t.get? a = some (.file c) → t'.get? a = some (.file c)

namespace Pruned

theorem refl (d : Address) (t : Tree) : Pruned d t t := ⟨fun _ _ => rfl, fun _ _ => id, fun _ _ => id⟩

theorem trans {t' : Tree} (h : Pruned d t u) (h' : Pruned d u t') : Pruned d t t' where
  outside a ha := (h'.outside a ha).trans (h.outside a ha)
  old a m hm := h.old a m (h'.old a m hm)
  file a c hc := h'.file a c (h.file a c hc)

section

variable (h : Pruned d t u)
include h

theorem flattens : Flattens d t u where
  outside := h.outside
  dir a := h.old a .dir
  fresh a _ hc := .inl (h.old a _ hc)
  kept a _ hc := .inl (h.file a _ hc)

theorem get?_eq_none {a : Address} (ha : t.get? a = none) : u.get? a = none := by
  by_contra hne
  obtain ⟨m, hm⟩ := Option.ne_none_iff_exists'.1 hne
  rw [h.old a m hm] at ha
  cases ha

/-- A path that leads to a directory afterwards led there before. -/
theorem locate {p : Path} (hgoal : p.goal = .ok d) (hdir : u.isDir p = true) :
    t.locate p = .ok d ∧ t.isDir p = true := by
  obtain ⟨a, hloc, ha⟩ := isDir_iff.1 hdir
  have hbefore := locate_of_dirs (fun b => h.old b .dir) hloc
  obtain rfl := Except.ok.inj ((goal_of_locate hbefore).symm.trans hgoal)
  exact ⟨hbefore, isDir_iff.2 ⟨a, hbefore, h.old a .dir ha⟩⟩

end

end Pruned

/-! ### All removals -/

/-- The removals of the directories below a directory and their entries. -/
def removalsIn (l : Library) (t : Tree) (d : Address) : Tree × List (Option Entry) :=
  t.each (fun t names => prune t (extendPath l.dir names)) (t.dirNames {} d)

theorem isFileName_of_mem_dirNames (hproper : t.IsProper) (h : names ∈ t.dirNames {} d) :
    names ≠ [] ∧ ∀ m ∈ names, IsFileName m := by
  obtain ⟨hg, hne, -⟩ := mem_dirNames_iff_get?.1 h
  exact ⟨hne, fun m hm => hproper _ _ hg m (List.mem_append_right _ hm)⟩

theorem outcome_of_mem_removalsIn (l : Library) (u : Tree) (d : Address) :
    ∀ b ∈ (removalsIn l u d).2, ∀ e ∈ b, e.outcome = .removed := by
  refine each_induct_answers
    (P := fun _ (bs : List (Option Entry)) => ∀ b ∈ bs, ∀ e ∈ b, e.outcome = .removed) (by simp)
    fun v bs names _ h b hb => ?_
  rcases List.mem_append.1 hb with hb | hb
  · exact h b hb
  · rw [List.mem_singleton.1 hb]
    exact outcome_of_prune v _

section Removals

variable (hloc : u.locate l.dir = .ok d) (hproper : u.IsProper)
include hloc hproper

theorem pruned_prune (h : names ∈ u.dirNames {} d) (v : Tree) :
    Pruned d v (prune v (extendPath l.dir names)).1 := by
  obtain ⟨hne, hnames⟩ := isFileName_of_mem_dirNames hproper h
  rcases prune_extendPath_cases hloc hnames (v := v) with he | ⟨hdir, hempty, he⟩
  · rw [he]
    exact .refl d v
  · rw [he]
    have hget := get?_remove hempty (by simp [hne])
    refine ⟨fun a ha => ?_, fun a m hm => ?_, fun a c hc => ?_⟩
    · rw [hget, if_neg]
      rintro rfl
      exact ha (isBelow_append hne)
    · rw [hget] at hm
      split_ifs at hm
      exact hm
    · rw [hget, if_neg, hc]
      rintro rfl
      rw [hdir] at hc
      cases hc

theorem pruned_removalsIn : Pruned d u (removalsIn l u d).1 :=
  each_induct (P := Pruned d u) (.refl d u) fun v _ h hv => hv.trans (pruned_prune hloc hproper h v)

/-- **No directory is empty after the removals**, as long as the path of the library leads to it: what
is removed later lies no deeper. -/
theorem isInhabited_removalsIn : ∀ names ∈ u.dirNames {} d,
    (removalsIn l u d).1.isDir l.dir = true → IsInhabited d names (removalsIn l u d).1 := by
  have hgoal := goal_of_locate hloc
  refine each_done (I := fun _ => True)
    (P := fun names v => v.isDir l.dir = true → IsInhabited d names v) trivial
    (fun _ _ _ _ => trivial) (fun v names h _ hdir => ?_) ?_
  · obtain ⟨hne, hnames⟩ := isFileName_of_mem_dirNames hproper h
    exact isInhabited_prune ((pruned_prune hloc hproper h v).locate hgoal hdir).1 hne hnames
  · refine (pairwise_dirNames u {} d).imp_of_mem fun {a b} _ hb hle v _ ha hdir => ?_
    obtain ⟨hne, hnames⟩ := isFileName_of_mem_dirNames hproper hb
    obtain ⟨hbefore, hdir'⟩ := (pruned_prune hloc hproper hb v).locate hgoal hdir
    exact (ha hdir').prune hbefore hne hnames hle

end Removals

end ElementModules.Project
