import ElementModules.Proofs.Project.MovingUp
import ElementModules.Proofs.Project.Pruning

/-!
# Flattening a library

The modules below the directory of a library move into it, and then directories go in which nothing
lies, the deepest first (`Phases`). After that the library is **flattened** (`IsFlattened`): a module
that still lies deeper has a namesake in the directory, and something lies in every directory that is
listed. To flatten it again changes nothing, and neither does it matter what happens apart from the
library.

No directory in that of the library may have the name of a module: a module of the same name would not
move while the directory is there, but the directory goes if it is empty, and then the module moves.

## Main results

* `exists_phases`, `flattens_flatten`: what flattening does to a tree.
* `isFlattened_flatten`, `flatten_of_isFlattened`: flattened libraries.
* `IsFlattened.of_flattens`: a library stays flattened when another one is.
-/

namespace ElementModules.Project

open ElementModules.Tree

variable {l : Library} {t t' u : Tree} {d : Address} {ns names : List Text} {n : Text} {c : Content}
  {es : List Entry}

/-! ### Both phases -/

/-- The moves of the modules below a directory and their entries. -/
def movesIn (l : Library) (t : Tree) (d : Address) : Tree × List (Option Entry) :=
  t.each (fun t names => flattenModule l t (extendPath l.dir names)) (nestedIn l t d)

theorem flatten_of_not_isDir (h : t.isDir l.dir = false) : (flatten t l).1 = t := by
  rw [flatten, modulesIn, listable, h]
  rfl

/-- Flattening moves modules and then removes directories. -/
theorem flatten_eq (h : t.listable l.dir = .ok d) (h' : (movesIn l t d).1.listable l.dir = .ok d) :
    flatten t l = ((removalsIn l (movesIn l t d).1 d).1,
      ⟨.normalize, ((movesIn l t d).2 ++ (removalsIn l (movesIn l t d).1 d).2).filterMap id⟩) := by
  have hmoved : t.each (flattenModule l)
      (((t.moduleNames {} d).map (extendPath l.dir)).filter fun p => !l.isFlat p)
      = movesIn l t d := by
    rw [List.filter_map, each_map]
    rfl
  rw [flatten, modulesIn, h]
  simp only [Except.map]
  rw [hmoved, dirsIn, h']
  simp only [Except.map]
  rw [each_map]
  rfl

/-- The entry for a nested module of a library. -/
def entryIn (l : Library) (t : Tree) (d : Address) (names : List Text) : Entry :=
  moduleEntry l (Moves t d (nestedIn l t d) names) names

/-- The modules of a library that move. -/
def MovesIn (l : Library) (t : Tree) (d : Address) (names : List Text) : Prop :=
  names ∈ nestedIn l t d ∧ Moves t d (nestedIn l t d) names

/-- Modules moved, which led to a tree, and then directories went. -/
structure Phases (l : Library) (d : Address) (t u t' : Tree) (es : List Entry) : Prop where
  movedUp : MovedUp d (MovesIn l t d) t u
  up : Flattens d t u
  pruned : Pruned d u t'
  inhabited : t'.isDir l.dir = true → ∀ names ∈ u.dirNames {} d, IsInhabited d names t'
  reported : ∀ names ∈ nestedIn l t d, entryIn l t d names ∈ es
  entries : ∀ e ∈ es, (∃ names ∈ nestedIn l t d, e = entryIn l t d names) ∨ e.outcome = .removed

/-- Flattening goes through both phases. -/
theorem exists_phases (hproper : t.IsProper) (hd : t.listable l.dir = .ok d) :
    ∃ u, Phases l d t u (flatten t l).1 (flatten t l).2.entries := by
  obtain ⟨hloc, hdir⟩ := listable_eq_ok_iff.1 hd
  obtain ⟨hanswers, hmoved⟩ := each_flattenModule (l := l) hloc hdir
    (fun _ => isNested_of_mem hproper) ((nodup_moduleNames t {} d).filter _)
  have hkeeps : KeepsDirs t (movesIn l t d).1 :=
    each_induct (P := KeepsDirs t) (.refl t) fun u _ _ hu =>
      hu.trans (keepsDirs_flattenModule l u _)
  have hup : Flattens d t (movesIn l t d).1 :=
    hmoved.flattens (fun _ h => isNested_of_mem hproper h.1) fun _ h => h.2.1
  have hproper' := hup.isProper hproper
  have hloc' := hkeeps.locate hloc
  have hentries : ∀ e, e ∈ ((movesIn l t d).2 ++ (removalsIn l (movesIn l t d).1 d).2).filterMap id
      ↔ (∃ names ∈ nestedIn l t d, e = entryIn l t d names)
        ∨ some e ∈ (removalsIn l (movesIn l t d).1 d).2 := by
    intro e
    rw [movesIn, hanswers]
    simp [entryIn, eq_comm]
  rw [flatten_eq hd (listable_eq_ok_iff.2 ⟨hloc', hkeeps.dir d hdir⟩)]
  exact ⟨_, {
    movedUp := hmoved
    up := hup
    pruned := pruned_removalsIn hloc' hproper'
    inhabited := fun h names hm => isInhabited_removalsIn hloc' hproper' names hm h
    reported := fun names hm => (hentries _).2 (.inl ⟨names, hm, rfl⟩)
    entries := fun e he => ((hentries e).1 he).imp_right fun he =>
      outcome_of_mem_removalsIn l _ d _ he e rfl }⟩

namespace Phases

variable (h : Phases l d t u t' es)
include h

theorem flattens : Flattens d t t' := h.up.trans h.pruned.flattens

/-- A module that moved is gone from where it was. -/
theorem gone (hmoves : MovesIn l t d names) : t'.get? (d ++ names) = none :=
  h.pruned.get?_eq_none (h.movedUp.left names hmoves)

/-- A nested module that is still listed was listed before. -/
theorem mem_nestedIn (hproper : t.IsProper) (hm : ns ++ [n] ∈ t'.moduleNames {} d) (hns : ns ≠ []) :
    ns ++ [n] ∈ nestedIn l t d := by
  refine Project.mem_nestedIn hproper (h.flattens.mem_moduleNames hm fun c hc => ?_) hns
  refine (h.flattens.fresh _ c hc).resolve_right ?_
  rintro ⟨-, m, he, -⟩
  exact nested_ne n m hns he

/-- The place of a nested module is taken afterwards: by what stood there, or by the first module of
its name. No directory there may go. -/
theorem taken (hproper : t.IsProper)
    (hclear : ∀ n, t.get? (d ++ [n]) = some .dir → isModuleName n = false)
    (hmem : ns ++ [n] ∈ nestedIn l t d) : t'.get? (d ++ [n]) ≠ none := by
  obtain ⟨ms, m, -, he, hns, hn, -⟩ := isNested_of_mem hproper hmem
  obtain ⟨rfl, hm⟩ := List.append_inj' he rfl
  obtain rfl := List.singleton_inj.1 hm
  cases hplace : t.get? (d ++ [n]) with
  | none =>
    obtain ⟨b, hb, hmoves, he⟩ := exists_moves hmem (by rwa [placeOf_concat])
    obtain ⟨bs, k, c, rfl, -, -, -, hc⟩ := isNested_of_mem hproper hb
    have harrived := h.movedUp.arrived _ ⟨hb, hmoves⟩
    rw [he, placeOf_concat, hc] at harrived
    simp [h.pruned.file _ c harrived]
  | some node =>
    cases node with
    | dir =>
      rw [hclear n hplace] at hn
      cases hn
    | file c =>
      rcases h.flattens.kept _ c hplace with hc | ⟨ms, m, he, hms, -⟩
      · simp [hc]
      · exact absurd he.symm (nested_ne m n hms)

end Phases

/-! ### Flattened libraries -/

/-- A directory in which flattening has nothing left to do. -/
structure IsFlattened (t : Tree) (d : Address) : Prop where
  modules : ∀ ns n, ns ++ [n] ∈ t.moduleNames {} d → ns ≠ [] → t.get? (d ++ [n]) ≠ none
  dirs : ∀ names ∈ t.dirNames {} d, t.hasChildren (d ++ names) = true

/-- A library stays flattened when nothing changes in its directory. -/
theorem IsFlattened.of_flattens {d' : Address} (h : IsFlattened t d) (hf : Flattens d' t t')
    (hapart : ∀ a, d <+: a → ¬ IsBelow d' a) : IsFlattened t' d := by
  have hsame : ∀ names : List Text, t'.get? (d ++ names) = t.get? (d ++ names) := fun names =>
    hf.outside _ (hapart _ (List.prefix_append d names))
  refine ⟨fun ns n hm hns => ?_, fun names hm => ?_⟩
  · rw [hsame]
    exact h.modules ns n (hf.mem_moduleNames hm fun c hc => by rwa [← hsame]) hns
  · obtain ⟨m, hm⟩ := hasChildren_iff.1 (h.dirs names (hf.mem_dirNames hm))
    rw [List.append_assoc] at hm
    exact hasChildren_iff.2 ⟨m, by rwa [List.append_assoc, hsame]⟩

/-! ### Flattening -/

section Flatten

variable (hl : l.dir.IsDown) (hproper : t.IsProper)
include hl

theorem locate_dir (hdir : t.isDir l.dir = true) :
    t.locate l.dir = .ok l.dir.address ∧ t.get? l.dir.address = some .dir :=
  listable_eq_ok_iff.1 (listable_of_isDir hl hdir)

theorem isDir_of_flattens (hdir : t.isDir l.dir = true) (hf : Flattens l.dir.address t t') :
    t'.isDir l.dir = true :=
  isDir_of_keeps hl (fun a ha n hn => by rwa [hf.outside a (not_isBelow_of_isPrefix ha)]) hdir

include hproper

/-- **What flattening does to a tree.** -/
theorem flattens_flatten : Flattens l.dir.address t (flatten t l).1 := by
  cases hdir : t.isDir l.dir with
  | false =>
    rw [flatten_of_not_isDir hdir]
    exact .refl _ t
  | true =>
    obtain ⟨u, h⟩ := exists_phases hproper (listable_of_isDir hl hdir)
    exact h.flattens

/-- **A library is flat** after it was flattened. -/
theorem isFlattened_flatten (hdir : t.isDir l.dir = true)
    (hclear : ∀ n, t.get? (l.dir.address ++ [n]) = some .dir → isModuleName n = false) :
    IsFlattened (flatten t l).1 l.dir.address := by
  obtain ⟨u, h⟩ := exists_phases hproper (listable_of_isDir hl hdir)
  refine ⟨fun ns n hm hns => ?_, fun names hm => ?_⟩
  · exact h.taken hproper hclear (h.mem_nestedIn hproper hm hns)
  · exact h.inhabited (isDir_of_flattens hl hdir h.flattens) names
      (h.pruned.flattens.mem_dirNames hm) (mem_dirNames_iff_get?.1 hm).1

/-- In a flat library no module moves and no directory goes. -/
theorem unchanged_of_isFlattened (hdir : t.isDir l.dir = true)
    (hflat : IsFlattened t l.dir.address) :
    (∀ names ∈ nestedIn l t l.dir.address, (flattenModule l t (extendPath l.dir names)).1 = t)
      ∧ ∀ names ∈ t.dirNames {} l.dir.address, (prune t (extendPath l.dir names)).1 = t := by
  obtain ⟨hmodules, hdirs⟩ := hflat
  obtain ⟨hloc, hg⟩ := locate_dir hl hdir
  refine ⟨fun names h => ?_, fun names h => ?_⟩
  · have hnested := isNested_of_mem hproper h
    rw [flattenModule_eq hloc hg hnested, if_neg]
    obtain ⟨ns, n, c, rfl, hns, -⟩ := hnested
    rw [placeOf_concat]
    exact hmodules ns n (List.mem_filter.1 h).1 hns
  · have hnames := (isFileName_of_mem_dirNames hproper h).2
    rw [prune_fst hloc hnames, if_neg fun hempty => ?_]
    rw [hdirs names h] at hempty
    cases hempty.2

/-- **To flatten a flat library** changes nothing. -/
theorem flatten_of_isFlattened (hflat : t.isDir l.dir = true → IsFlattened t l.dir.address) :
    (flatten t l).1 = t := by
  cases hdir : t.isDir l.dir with
  | false => exact flatten_of_not_isDir hdir
  | true =>
    obtain ⟨hmodules, hdirs⟩ := unchanged_of_isFlattened hl hproper hdir (hflat hdir)
    have hmoved : (movesIn l t l.dir.address).1 = t := each_unchanged hmodules
    have hpruned : (removalsIn l t l.dir.address).1 = t := each_unchanged hdirs
    have hd := listable_of_isDir hl hdir
    rw [flatten_eq hd (by rwa [hmoved]), hmoved, hpruned]

end Flatten

end ElementModules.Project
