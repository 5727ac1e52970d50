import ElementModules.Config.Check
import ElementModules.Project.Run
import ElementModules.Proofs.Path
import Mathlib.Data.List.Nodup

/-!
# The library of a directory

Three stages ask which library a directory belongs to, and each finds its own answer. An index
module is written for the first library with the directory, the conversion works on the libraries in
their order, and registrations are repaired for the last library with the directory. A directory
that no library has belongs to a library with its own name, for the index as for the registrations.

So all three look at the **owners** of the directory, the libraries that have it in any spelling:
the index and the conversion take the first owner, the registrations the last. The names of
libraries are distinct, so the stages agree on a directory if and only if it has at most one owner.

## Main results

* `libraryAt_eq`, `nameFor_of_liesIn`: the answers of the index and of the registrations.
* `convertAll_of_isFirstVisit`: the conversion works on the first owner first.
* `agrees_iff`: the stages agree on a directory exactly if it has at most one owner.
* `agree_on_moduleDirs_iff`: they agree everywhere exactly if no two libraries share a directory.
-/

namespace ElementModules.Project

/-- The libraries with a directory. -/
def owners (c : Config) (d : Path) : List Library :=
  c.resolvedLibraries.filter fun l => l.dir.same d

/-- A path lies directly in a directory. -/
def LiesIn (p d : Path) : Prop :=
  ∃ q, p.parent? = some q ∧ q.same d = true

/-- The library with which the conversion first works on a directory. -/
def IsFirstVisit (c : Config) (d : Path) (l : Library) : Prop :=
  ∃ before after, c.resolvedLibraries = before ++ l :: after ∧ l.dir.same d = true
    ∧ ∀ l' ∈ before, l'.dir.same d = false

/-- The stages agree on the name of the library to which a directory belongs. -/
structure Agrees (c : Config) (d : Path) : Prop where
  /-- The conversion first works on the directory for the library of its index module. -/
  visit : ∀ l, IsFirstVisit c d l → l.name = (libraryAt c d).name
  /-- The registrations of the modules in it are repaired for that library. -/
  inside : ∀ p, LiesIn p d → ((Registrar.ofConfig c).context p).library = (libraryAt c d).name

variable {c : Config} {d : Path}

/-! ### The answers of the stages -/

/-- The name of a library with a directory: that of the given one, else that of the directory. -/
def nameIn (d : Path) (owner : Option Library) : Text :=
  (owner.map Library.name).getD (d.fileName?.getD [])

/-- **The library of an index module** is the first owner of its directory. -/
theorem libraryAt_eq (c : Config) (d : Path) :
    (libraryAt c d).name = nameIn d (owners c d).head? := by
  rw [libraryAt, owners, List.head?_filter]
  cases c.resolvedLibraries.find? fun l => l.dir.same d <;> rfl

/-- **The library for which a registration is repaired** is the last owner of the directory. -/
theorem nameFor_of_liesIn {p : Path} (h : LiesIn p d) :
    ((Registrar.ofConfig c).context p).library = nameIn d (owners c d).getLast? := by
  obtain ⟨q, hq, hsame⟩ := h
  rw [Path.same_iff] at hsame
  have hname : q.fileName? = d.fileName? := by rw [Path.fileName?, Path.fileName?, hsame]
  have hlast : (c.resolvedLibraries.reverse.find? fun l => l.dir.same q)
      = (owners c d).getLast? := by
    have hdir : (fun l : Library => l.dir.same q) = fun l => l.dir.same d :=
      funext fun l => by rw [Path.same, Path.same, hsame]
    rw [hdir, owners, ← List.head?_reverse, ← List.filter_reverse, List.head?_filter]
  rw [Registrar.context, Registrar.ofConfig, Library.nameFor, hq]
  dsimp only
  rw [hlast, hname, nameIn]
  cases (owners c d).getLast? <;> rfl

/-- The conversion first works on a directory for its first owner. -/
theorem IsFirstVisit.head?_owners {l : Library} (h : IsFirstVisit c d l) :
    (owners c d).head? = some l := by
  obtain ⟨before, after, heq, hl, hbefore⟩ := h
  have hnone : before.filter (fun l' => l'.dir.same d) = [] :=
    List.filter_eq_nil_iff.2 fun l' hl' => by rw [hbefore l' hl']; exact Bool.false_ne_true
  rw [owners, heq, List.filter_append, hnone, List.nil_append, List.filter_cons, if_pos hl]
  rfl

/-- **The order of the conversion.** Before it works on a directory for the first time, it works on
libraries with other directories alone. -/
theorem convertAll_of_isFirstVisit {l : Library} (h : IsFirstVisit c d l) (stamp : Text)
    (t : Tree) :
    ∃ before after, (∀ l' ∈ before, l'.dir.same d = false)
      ∧ (convertAll c stamp t).1
        = (((Converter.ofConfig c stamp).convertModules
              (t.each (Converter.ofConfig c stamp).convertModules before).1 l).1.each
            (Converter.ofConfig c stamp).convertModules after).1 := by
  obtain ⟨before, after, heq, -, hbefore⟩ := h
  refine ⟨before, after, hbefore, ?_⟩
  rw [convertAll, heq, Tree.each_append, Tree.each_cons]

/-! ### Where they agree -/

/-- There is room for a module in every directory. -/
theorem exists_liesIn (d : Path) : ∃ p, LiesIn p d := by
  have hname : IsFileName ['x'] := by decide
  obtain ⟨q, hq, hsame⟩ := hname.exists_parent?_join d
  exact ⟨_, q, hq, Path.same_iff.2 hsame⟩

/-- In a configuration that passes the checks the owners of a directory have distinct names. -/
theorem nodup_name_owners (hc : c.check = .ok ()) (d : Path) :
    ((owners c d).map Library.name).Nodup := by
  have hnames : c.resolvedLibraries.map Library.name = c.libraries.map Library.name := by
    rw [Config.resolvedLibraries, List.map_map]
    rfl
  have hdistinct := ((Config.check_eq_ok_iff c).1 hc).distinct
  rw [← hnames] at hdistinct
  exact hdistinct.sublist (List.filter_sublist.map _)

/-- **The stages agree on a directory** exactly if it has at most one owner. -/
theorem agrees_iff (hc : c.check = .ok ()) (d : Path) : Agrees c d ↔ (owners c d).length ≤ 1 := by
  constructor
  · rintro ⟨-, hinside⟩
    obtain ⟨p, hp⟩ := exists_liesIn d
    have hname := hinside p hp
    rw [libraryAt_eq, nameFor_of_liesIn hp] at hname
    have hnodup := nodup_name_owners hc d
    -- The last owner has the name of the first, so it is the first.
    cases ho : owners c d with
    | nil => exact Nat.zero_le 1
    | cons l ls =>
      rw [ho] at hname hnodup
      rcases List.eq_nil_or_concat ls with rfl | ⟨front, last, rfl⟩
      · exact Nat.le_refl 1
      · rw [List.concat_eq_append] at hname hnodup
        rw [← List.cons_append, List.getLast?_concat] at hname
        obtain ⟨hnot, -⟩ := List.nodup_cons.1 hnodup
        exact absurd (List.mem_map.2 ⟨last, List.mem_concat_self, hname⟩) hnot
  · intro hone
    have hends : (owners c d).getLast? = (owners c d).head? := by
      match owners c d, hone with
      | [], _ => rfl
      | [l], _ => rfl
    refine ⟨fun l hl => ?_, fun p hp => ?_⟩
    · rw [libraryAt_eq, hl.head?_owners]
      rfl
    · rw [nameFor_of_liesIn hp, hends, libraryAt_eq]

/-- **The stages agree on every directory** that holds modules exactly if no two libraries have one
directory. -/
theorem agree_on_moduleDirs_iff (hc : c.check = .ok ()) :
    (∀ d ∈ c.moduleDirs, Agrees c d)
      ↔ c.resolvedLibraries.Pairwise fun l l' => l.dir.same l'.dir = false := by
  constructor
  · intro hall
    refine List.pairwise_iff_forall_sublist.2 fun {l l'} hsub => ?_
    by_contra hshared
    rw [Bool.not_eq_false] at hshared
    obtain ⟨d, hd, hl⟩ := c.moduleDirs_cover (hsub.subset List.mem_cons_self)
    have hl' : l'.dir.same d = true := by
      rw [Path.same_iff] at *
      exact hshared.symm.trans hl
    have hpair : [l, l'].filter (fun x => x.dir.same d) = [l, l'] := by simp [hl, hl']
    have htwo : 2 ≤ (owners c d).length := by
      have hle := (hsub.filter fun x : Library => x.dir.same d).length_le
      rwa [hpair] at hle
    have hone := (agrees_iff hc d).1 (hall d hd)
    omega
  · intro hapart d _
    rw [agrees_iff hc]
    by_contra htwo
    match ho : owners c d with
    | [] => rw [ho] at htwo; exact htwo (Nat.zero_le 1)
    | [l] => rw [ho] at htwo; exact htwo (Nat.le_refl 1)
    | l :: l' :: ls =>
      have hpair : (owners c d).Pairwise _ := hapart.sublist List.filter_sublist
      have hmem : ∀ x ∈ owners c d, x.dir.same d = true := fun x hx => (List.mem_filter.1 hx).2
      rw [ho] at hpair hmem
      have hne := (List.pairwise_cons.1 hpair).1 l' List.mem_cons_self
      have hl := Path.same_iff.1 (hmem l List.mem_cons_self)
      have hl' := Path.same_iff.1 (hmem l' (List.mem_cons_of_mem l List.mem_cons_self))
      rw [Path.same_iff.2 (hl.trans hl'.symm)] at hne
      cases hne

/-- **The library of a directory.** The index and the conversion always agree on it. The repair of
registrations agrees with them exactly if the directory has at most one owner, and so the stages
agree on all directories that hold modules exactly if no two libraries share one. -/
theorem stages_agree_iff (c : Config) (hc : c.check = .ok ()) :
    (∀ d l, IsFirstVisit c d l → l.name = (libraryAt c d).name)
      ∧ (∀ d, Agrees c d ↔ (owners c d).length ≤ 1)
      ∧ ((∀ d ∈ c.moduleDirs, Agrees c d)
          ↔ c.resolvedLibraries.Pairwise fun l l' => l.dir.same l'.dir = false) := by
  refine ⟨fun d l hl => ?_, agrees_iff hc, agree_on_moduleDirs_iff hc⟩
  rw [libraryAt_eq, hl.head?_owners]
  rfl

/-- A configuration with two libraries, of which the second has the given directory. -/
def withSecondDir (dir : Path) : Config where
  libraries := [⟨"a", "lib"⟩, ⟨"b", dir⟩]
  registry := ⟨"r", "r.js", "i.js"⟩
  generate := { outputDir := "lib" }
  categories := ⟨[("x", "c")], "c", by decide⟩

theorem stages_agree_withSecondDir :
    (withSecondDir "other").check = .ok ()
      ∧ (withSecondDir "other").moduleDirs = [("./lib" : Path), ("./other" : Path)]
      ∧ ∀ d ∈ (withSecondDir "other").moduleDirs, Agrees (withSecondDir "other") d := by
  have hcheck : (withSecondDir "other").check = .ok () := by decide
  exact ⟨hcheck, by decide, (stages_agree_iff _ hcheck).2.2.2 (by decide)⟩

/-- Where two libraries share a directory, registrations are repaired for the second one, while the
conversion starts with the first and the index module is written for it. -/
theorem stages_disagree :
    (withSecondDir "lib").check = .ok () ∧ ("./lib" : Path) ∈ (withSecondDir "lib").moduleDirs
      ∧ LiesIn "./lib/x.js" "./lib" ∧ IsFirstVisit (withSecondDir "lib") "./lib" ⟨"a", "./lib"⟩
      ∧ (libraryAt (withSecondDir "lib") "./lib").name = "a"
      ∧ ((Registrar.ofConfig (withSecondDir "lib")).context "./lib/x.js").library = "b"
      ∧ ¬ Agrees (withSecondDir "lib") "./lib" := by
  have hin : LiesIn "./lib/x.js" "./lib" := ⟨"./lib", by decide, by decide⟩
  have hindex : (libraryAt (withSecondDir "lib") "./lib").name = "a" := by decide
  have hrepair :
      ((Registrar.ofConfig (withSecondDir "lib")).context "./lib/x.js").library = "b" := by decide
  have hvisit : IsFirstVisit (withSecondDir "lib") "./lib" ⟨"a", "./lib"⟩ :=
    ⟨[], [⟨"b", "./lib"⟩], by decide, by decide, nofun⟩
  refine ⟨by decide, by decide, hin, hvisit, hindex, hrepair, fun h => ?_⟩
  have hname := h.inside _ hin
  rw [hindex, hrepair] at hname
  exact absurd hname (by decide)

end ElementModules.Project
