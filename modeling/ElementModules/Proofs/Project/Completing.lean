import ElementModules.Proofs.Project.Flattening

/-!
# Flattening is complete

In one pass over its modules and one over its directories a library becomes as flat as it can be
(`Completes`). Its entries say all that happens: what moved, and which modules stay because their
places are taken.

The path of a library may go up again, through a directory that is removed. From then on it leads
nowhere, and the directories that are left are not found to be empty.

## Main results

* `flatten_complete`: what flattening achieves in one pass.
* `dir_left_empty`: a library whose path leads through a directory that is removed.
-/

namespace ElementModules.Project

open ElementModules.Tree

variable {l : Library} {t t' u : Tree} {d : Address} {ns names : List Text} {n : Text} {c : Content}
  {es : List Entry}

/-! ### What the entries say -/

namespace Phases

variable (h : Phases l d t u t' es) (hproper : t.IsProper)
include h

theorem ne_failed {e : Entry} (he : e ∈ es) : e.outcome ≠ .failed := by
  rcases h.entries e he with ⟨names, -, rfl⟩ | hremoved
  · rw [entryIn, moduleEntry_outcome]
    split_ifs <;> simp
  · simp [hremoved]

/-- An entry that says that a module moved. -/
theorem exists_of_moved {e : Entry} (he : e ∈ es) (hmoved : e.outcome = .moved) :
    ∃ names, MovesIn l t d names ∧ e.path = extendPath l.dir names := by
  rcases h.entries e he with ⟨names, hmem, rfl⟩ | hremoved
  · refine ⟨names, ⟨hmem, ?_⟩, moduleEntry_path _ _ _⟩
    by_contra hnot
    rw [entryIn, moduleEntry_outcome, decide_eq_false hnot] at hmoved
    cases hmoved
  · rw [hremoved] at hmoved
    cases hmoved

include hproper

/-- A nested module that is still listed did not move. -/
theorem conflict_of_mem (hm : ns ++ [n] ∈ t'.moduleNames {} d) (hns : ns ≠ []) :
    ∃ e ∈ es, e.path = extendPath l.dir (ns ++ [n]) ∧ e.outcome = .conflict := by
  have hmem := h.mem_nestedIn hproper hm hns
  have hnot : ¬ Moves t d (nestedIn l t d) (ns ++ [n]) := by
    intro hmoves
    obtain ⟨c, hc, -⟩ := mem_moduleNames_iff_get?.1 hm
    rw [h.gone ⟨hmem, hmoves⟩] at hc
    cases hc
  refine ⟨_, h.reported _ hmem, moduleEntry_path _ _ _, ?_⟩
  rw [entryIn, moduleEntry_outcome, decide_eq_false hnot]
  rfl

/-- A module that moves lies in the directory then, and it was the first one of its name. -/
theorem of_movesIn (hmoves : MovesIn l t d names) : ∃ ns n c, names = ns ++ [n] ∧ ns ≠ []
    ∧ t.get? (d ++ (ns ++ [n])) = some (.file c) ∧ t.get? (d ++ [n]) = none
    ∧ t'.get? (d ++ [n]) = some (.file c)
    ∧ ∀ ms, ms ++ [n] ∈ t.moduleNames {} d → namesLe (ns ++ [n]) (ms ++ [n]) := by
  obtain ⟨ns, n, c, rfl, hns, -, -, hc⟩ := isNested_of_mem hproper hmoves.1
  have harrived := h.movedUp.arrived _ hmoves
  have hfree := hmoves.2.1
  rw [placeOf_concat] at harrived hfree
  refine ⟨ns, n, c, rfl, hns, hc, hfree, h.pruned.file _ c (harrived.trans hc), fun ms hms => ?_⟩
  by_cases hnil : ms = []
  · obtain ⟨c', hc', -⟩ := mem_moduleNames_iff_get?.1 hms
    rw [hnil, List.nil_append, hfree] at hc'
    cases hc'
  · exact hmoves.2.namesLe ((pairwise_moduleNames t {} d).filter _)
      (Project.mem_nestedIn hproper hms hnil) (by simp)

/-- A file stays, or an entry says that it moved. -/
theorem stays_or_moved (hgoal : l.dir.goal = .ok d) {a : Address} (hc : t.get? a = some (.file c)) :
    t'.get? a = some (.file c) ∨ ∃ e ∈ es, e.outcome = .moved ∧ e.path.goal = .ok a := by
  rcases h.movedUp.cases a with ⟨names, hmoves, rfl, -⟩ | ⟨names, hmoves, rfl, -⟩ | he
  · have hnames : ∀ m ∈ names, IsFileName m := fun m hm =>
      hproper _ _ hc m (List.mem_append_right _ hm)
    refine .inr ⟨_, h.reported names hmoves.1, ?_, ?_⟩
    · rw [entryIn, moduleEntry_outcome, decide_eq_true hmoves.2]
      rfl
    · rw [entryIn, moduleEntry_path, goal_extendPath hnames hgoal]
  · rw [hmoves.2.1] at hc
    cases hc
  · exact .inl (h.pruned.file a c (he.trans hc))

end Phases

/-! ### Flattening in one pass -/

/-- What flattening a library achieves, and what the entries say. -/
structure Completes (l : Library) (d : Address) (t t' : Tree) (es : List Entry) : Prop where
  /-- A module that is listed lies in the directory itself, or an entry says why not. -/
  flat : ∀ names ∈ t'.moduleNames {} d,
    (∃ n, names = [n]) ∨ ∃ e ∈ es, e.path = extendPath l.dir names ∧ e.outcome = .conflict
  /-- A module of which an entry says that it moved lies where nothing was, with what it held, and no
  module of its name came before it. -/
  moved : ∀ e ∈ es, e.outcome = .moved → ∃ ns n c, ns ≠ [] ∧ e.path = extendPath l.dir (ns ++ [n])
    ∧ t.get? (d ++ (ns ++ [n])) = some (.file c) ∧ t'.get? (d ++ (ns ++ [n])) = none
    ∧ t.get? (d ++ [n]) = none ∧ t'.get? (d ++ [n]) = some (.file c)
    ∧ ∀ ms, ms ++ [n] ∈ t.moduleNames {} d → namesLe (ns ++ [n]) (ms ++ [n])
  /-- A file stays where it is unless an entry says that it moved. -/
  stays : ∀ a c, t.get? a = some (.file c) → t'.get? a = some (.file c)
    ∨ ∃ e ∈ es, e.outcome = .moved ∧ e.path.goal = .ok a
  /-- Nothing fails. -/
  succeeds : ∀ e ∈ es, e.outcome ≠ .failed
  /-- No directory is empty, as long as the path of the library leads to its directory. -/
  pruned : t'.isDir l.dir = true → ∀ names ∈ t.dirNames {} d,
    t'.get? (d ++ names) = some .dir → t'.hasChildren (d ++ names) = true

/-- **Flattening is complete in one pass**, and the path of a library that goes down leads to its
directory afterwards. -/
theorem flatten_complete (hproper : t.IsProper) (hd : t.listable l.dir = .ok d) :
    Completes l d t (flatten t l).1 (flatten t l).2.entries
      ∧ (l.dir.IsDown → (flatten t l).1.isDir l.dir = true) := by
  obtain ⟨hloc, hdir⟩ := listable_eq_ok_iff.1 hd
  obtain ⟨u, h⟩ := exists_phases hproper hd
  refine ⟨⟨fun names hm => ?_, fun e he hmoved => ?_,
    fun a c => h.stays_or_moved hproper (goal_of_locate hloc), fun e => h.ne_failed,
    fun hdir names hm hg => ?_⟩, fun hl => ?_⟩
  · obtain ⟨c, -, -, -, -, -, n, hlast, -⟩ := mem_moduleNames_iff_get?.1 hm
    obtain ⟨ns, rfl⟩ := List.getLast?_eq_some_iff.1 hlast
    by_cases hns : ns = []
    · exact .inl ⟨n, by rw [hns]; rfl⟩
    · exact .inr (h.conflict_of_mem hproper hm hns)
  · obtain ⟨names, hmoves, hpath⟩ := h.exists_of_moved he hmoved
    have hgone := h.gone hmoves
    obtain ⟨ns, n, c, rfl, hns, hc, hfree, harrived, hfirst⟩ := h.of_movesIn hproper hmoves
    exact ⟨ns, n, c, hns, hpath, hc, hgone, hfree, harrived, hfirst⟩
  · exact h.inhabited hdir names
      (h.up.mem_dirNames_of_get? hm (h.pruned.old _ _ hg)) hg
  · obtain rfl := eq_address_of_locate hl hloc
    exact isDir_of_flattens hl (isDir_iff.2 ⟨_, hloc, hdir⟩) h.flattens

/-- A library with two modules of one name, and a directory in which another one lies. -/
def crowdedLibrary : Tree where
  nodes := [(["lib"], .dir), (["lib", "a"], .dir), (["lib", "a", "x.js"], .file (.text "1")),
    (["lib", "b"], .dir), (["lib", "b", "x.js"], .file (.text "2")), (["lib", "c"], .dir),
    (["lib", "c", "d"], .dir)]
  distinct := by decide
  closed := by decide

theorem flatten_complete_crowdedLibrary :
    (crowdedLibrary.IsProper ∧ crowdedLibrary.listable "lib" = .ok ["lib"] ∧ Path.IsDown "lib")
      ∧ Completes ⟨"l", "lib"⟩ ["lib"] crowdedLibrary (flatten crowdedLibrary ⟨"l", "lib"⟩).1
        (flatten crowdedLibrary ⟨"l", "lib"⟩).2.entries
      ∧ (flatten crowdedLibrary ⟨"l", "lib"⟩).1.isDir "lib" = true := by
  have hproper : crowdedLibrary.IsProper := isProper_iff.2 (by decide)
  have hd : crowdedLibrary.listable "lib" = .ok ["lib"] := by decide
  have hdown : Path.IsDown "lib" := by decide
  obtain ⟨hcompletes, hstands⟩ := flatten_complete (l := ⟨"l", "lib"⟩) hproper hd
  exact ⟨⟨hproper, hd, hdown⟩, hcompletes, hstands hdown⟩

/-- A library with two empty directories. -/
def hollowLibrary : Tree where
  nodes := [(["lib"], .dir), (["lib", "sub"], .dir), (["lib", "zzz"], .dir)]
  distinct := by decide
  closed := by decide

/-- A library whose path leads into a directory of its own and up again. -/
def detouredLibrary : Library := ⟨"l", "lib/sub/.."⟩

/-- Only the directory that the path leads through goes. -/
theorem flatten_detouredLibrary : flatten hollowLibrary detouredLibrary
    = (hollowLibrary.remove ["lib", "sub"],
      ⟨.normalize, [⟨.normalize, "lib/sub/../sub", .removed, some "empty directory"⟩]⟩) := by
  have hd : hollowLibrary.listable detouredLibrary.dir = .ok ["lib"] := by decide
  have hmoves : movesIn detouredLibrary hollowLibrary ["lib"] = (hollowLibrary, []) := by
    have hnone : nestedIn detouredLibrary hollowLibrary ["lib"] = [] := by decide +kernel
    rw [movesIn, hnone]
    rfl
  have hdirs : hollowLibrary.dirNames {} ["lib"] = [["sub".toList], ["zzz".toList]] := by
    have hbelow : hollowLibrary.namesBelow {} ["lib"] (fun _ n => n = .dir)
        = [["sub".toList], ["zzz".toList]] := by decide +kernel
    rw [dirNames, hbelow]
    exact List.mergeSort_of_pairwise (by decide)
  rw [flatten_eq hd (by rwa [hmoves]), hmoves, removalsIn, hdirs]
  rfl

/-- The other directory is left empty, and no entry says so. -/
theorem dir_left_empty :
    (hollowLibrary.IsProper ∧ hollowLibrary.listable detouredLibrary.dir = .ok ["lib"])
      ∧ ¬ ∀ names ∈ hollowLibrary.dirNames {} ["lib"],
        (flatten hollowLibrary detouredLibrary).1.get? ("lib".toList :: names) = some .dir →
          (flatten hollowLibrary detouredLibrary).1.hasChildren ("lib".toList :: names) = true
            ∨ ∃ e ∈ (flatten hollowLibrary detouredLibrary).2.entries,
              e.path = extendPath detouredLibrary.dir names ∧ e.outcome = .failed := by
  refine ⟨⟨isProper_iff.2 (by decide), by decide⟩, fun h => ?_⟩
  have hlisted : ["zzz".toList] ∈ hollowLibrary.dirNames {} ["lib"] :=
    mem_dirNames_iff_get?.2 (by decide)
  rw [flatten_detouredLibrary] at h
  rcases h ["zzz".toList] hlisted (by decide) with hc | ⟨e, he, -, hfailed⟩
  · exact absurd hc (by decide)
  · obtain rfl := List.mem_singleton.1 he
    cases hfailed

end ElementModules.Project
