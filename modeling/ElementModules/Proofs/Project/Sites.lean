import ElementModules.Project.Run
import ElementModules.Proofs.Project.Rearranging
import ElementModules.Proofs.Project.Working
import Mathlib.Data.List.Nodup

/-!
# Where a run writes

Behind the arrangement, a run writes modules directly in the directories that hold modules, and copies
of modules below the backup directory (`IsSite`); and it makes directories on the way to these
(`IsTrail`). A configuration is **spread out** (`IsSpread`) if neither these directories nor anything
that the layout plan names lies below another one of these directories. Then what a run writes is not
in the way of the arrangement: an arranged tree stays arranged.

## Main results

* `IsSpread.exists_of_isSite`, `IsSpread.not_isTrail`: what is written in a directory of modules.
* `IsArranged.of_rewrites`, `IsOrderly.of_rewrites`: arranged trees in which a run has written.
-/

namespace ElementModules.Project

open ElementModules.Tree

variable {c : Config} {stamp : Text} {t t' : Tree} {p d d' : Path} {a front : Address} {n : Text}

/-! ### Places that a run writes to -/

/-- The directories in which a run writes: those that hold modules, and the one for copies. -/
def workDirs (c : Config) (stamp : Text) : List Path :=
  c.moduleDirs ++ (Converter.ofConfig c stamp).backupDir.toList

/-- What the layout plan and the directories of a run name. -/
def namedPaths (c : Config) (stamp : Text) : List Path :=
  c.servicesRoot :: (places c.servicesRoot c.layout ++ sources c.servicesRoot c.layout
    ++ workDirs c stamp)

/-- A configuration that names nothing below a directory in which a run writes. -/
structure IsSpread (c : Config) (stamp : Text) : Prop where
  /-- No path leads to the directory above. -/
  down : ∀ p ∈ c.servicesRoot :: workDirs c stamp, p.IsDown
  outside : ∀ d ∈ workDirs c stamp, ∀ p ∈ namedPaths c stamp, ¬ IsBelow d.address p.address
  /-- A directory has one path. -/
  distinct : ((workDirs c stamp).map Path.address).Nodup

instance : Decidable (IsSpread c stamp) :=
  decidable_of_iff ((∀ p ∈ c.servicesRoot :: workDirs c stamp, p.IsDown)
      ∧ (∀ d ∈ workDirs c stamp, ∀ p ∈ namedPaths c stamp, ¬ IsBelow d.address p.address)
      ∧ ((workDirs c stamp).map Path.address).Nodup)
    ⟨fun ⟨h₁, h₂, h₃⟩ => ⟨h₁, h₂, h₃⟩, fun ⟨h₁, h₂, h₃⟩ => ⟨h₁, h₂, h₃⟩⟩

/-- Where a run copies modules. -/
def IsCopySite (c : Config) (stamp : Text) (a : Address) : Prop :=
  ∃ b ∈ (Converter.ofConfig c stamp).backupDir, ∃ front n, a = front ++ [n] ∧ b.address <+: front
    ∧ isModuleName n = true

/-- Where a run writes files: modules in their directories, and copies of modules. -/
def IsSite (c : Config) (stamp : Text) (a : Address) : Prop :=
  (∃ d ∈ c.moduleDirs, ∃ n, a = d.address ++ [n] ∧ isModuleName n = true) ∨ IsCopySite c stamp a

/-- Where a run makes directories behind the arrangement. -/
def IsTrail (c : Config) (stamp : Text) (a : Address) : Prop :=
  a <+: c.generateDir.address
    ∨ ∃ b ∈ (Converter.ofConfig c stamp).backupDir, a <+: b.address ∨ b.address <+: a

theorem exists_name_of_isSite (h : IsSite c stamp a) :
    ∃ front n, a = front ++ [n] ∧ isModuleName n = true := by
  rcases h with ⟨d, -, n, ha, hn⟩ | ⟨-, -, front, n, ha, -, hn⟩
  · exact ⟨_, n, ha, hn⟩
  · exact ⟨front, n, ha, hn⟩

theorem mem_workDirs (h : d ∈ c.moduleDirs) : d ∈ workDirs c stamp := List.mem_append_left _ h

theorem mem_namedPaths (h : d ∈ workDirs c stamp) : d ∈ namedPaths c stamp :=
  List.mem_cons_of_mem _ (List.mem_append_right _ h)

theorem mem_workDirs_of_backup (h : d ∈ (Converter.ofConfig c stamp).backupDir) :
    d ∈ workDirs c stamp :=
  List.mem_append_right _ (Option.mem_toList.2 h)

theorem generateDir_mem (c : Config) :
    ∃ d ∈ c.moduleDirs, c.generateDir.same d ∧ d.address = c.generateDir.address := by
  have hmem : c.generateDir ∈ c.resolvedLibraries.map Library.dir ++ [c.generateDir] := by simp
  obtain ⟨d, hd, hsame⟩ := Config.exists_mem_distinctPaths hmem
  exact ⟨d, hd, hsame, by rw [Path.address, Path.address, Path.same_iff.1 hsame]⟩

theorem libraryDir_mem {l : Library} (h : l ∈ c.resolvedLibraries) :
    ∃ d ∈ c.moduleDirs, l.dir.same d ∧ d.address = l.dir.address := by
  obtain ⟨d, hd, hsame⟩ := c.moduleDirs_cover h
  exact ⟨d, hd, hsame, by rw [Path.address, Path.address, Path.same_iff.1 hsame]⟩

theorem isBelow_of_isSite (h : IsSite c stamp a) : ∃ d ∈ workDirs c stamp, IsBelow d.address a := by
  rcases h with ⟨d, hd, n, rfl, -⟩ | ⟨b, hb, front, n, rfl, hpre, -⟩
  · exact ⟨d, mem_workDirs hd, isBelow_append (by simp)⟩
  · obtain ⟨ns, rfl⟩ := hpre
    rw [List.append_assoc]
    exact ⟨b, mem_workDirs_of_backup hb, isBelow_append (by simp)⟩

namespace IsSpread

variable (h : IsSpread c stamp)
include h

theorem down_of_mem (hd : d ∈ c.moduleDirs) : d.IsDown :=
  h.down d (List.mem_cons_of_mem _ (mem_workDirs hd))

theorem down_generateDir : c.generateDir.IsDown := by
  obtain ⟨d, hd, hsame, -⟩ := generateDir_mem c
  rw [Path.IsDown, Path.same_iff.1 hsame]
  exact h.down_of_mem hd

theorem down_library {l : Library} (hl : l ∈ c.resolvedLibraries) : l.dir.IsDown := by
  obtain ⟨d, hd, hsame, -⟩ := libraryDir_mem hl
  rw [Path.IsDown, Path.same_iff.1 hsame]
  exact h.down_of_mem hd

/-- None of the directories lies below another one. -/
theorem not_isBelow (hd : d ∈ workDirs c stamp) (hd' : d' ∈ workDirs c stamp) :
    ¬ IsBelow d.address d'.address :=
  h.outside d hd d' (mem_namedPaths hd')

theorem eq_of_address_eq (hd : d ∈ workDirs c stamp) (hd' : d' ∈ workDirs c stamp)
    (he : d.address = d'.address) : d = d' :=
  List.inj_on_of_nodup_map h.distinct hd hd' he

/-- What lies in two of the directories lies in one. -/
theorem eq_of_isPrefix (hd : d ∈ workDirs c stamp) (hd' : d' ∈ workDirs c stamp)
    (ha : d.address <+: a) (ha' : d'.address <+: a) : d = d' := by
  refine h.eq_of_address_eq hd hd' ?_
  by_contra hne
  rcases List.prefix_or_prefix_of_prefix ha ha' with hpre | hpre
  · exact h.not_isBelow hd hd' ⟨hpre, hne⟩
  · exact h.not_isBelow hd' hd ⟨hpre, Ne.symm hne⟩

/-- The backup directory is no directory of modules. -/
theorem backup_ne (hd : d ∈ c.moduleDirs) {b : Path}
    (hb : b ∈ (Converter.ofConfig c stamp).backupDir) : d.address ≠ b.address := by
  have hnodup := h.distinct
  rw [workDirs, List.map_append, List.nodup_append] at hnodup
  exact hnodup.2.2 _ (List.mem_map_of_mem hd) _ (List.mem_map_of_mem (Option.mem_toList.2 hb))

theorem not_isPrefix_backup (hd : d ∈ c.moduleDirs) {b : Path}
    (hb : b ∈ (Converter.ofConfig c stamp).backupDir) (ha : d.address <+: a) : ¬ b.address <+: a :=
  fun hpre => h.backup_ne hd hb (congrArg Path.address
    (h.eq_of_isPrefix (mem_workDirs hd) (mem_workDirs_of_backup hb) ha hpre))

/-- No copy is written below a directory of modules. -/
theorem not_isCopySite (hd : d ∈ c.moduleDirs) (ha : d.address <+: a) : ¬ IsCopySite c stamp a := by
  rintro ⟨b, hb, front, n, rfl, hpre, -⟩
  exact h.not_isPrefix_backup hd hb ha (hpre.trans (List.prefix_append front [n]))

/-- No file is written on the way to what is named. -/
theorem not_isSite_of_isPrefix (hp : p ∈ namedPaths c stamp) (ha : a <+: p.address) :
    ¬ IsSite c stamp a := by
  intro hsite
  obtain ⟨d, hd, hbelow⟩ := isBelow_of_isSite hsite
  exact h.outside d hd p hp (hbelow.trans_isPrefix ha)

/-- **What is written** below a directory of modules is a module directly in it. -/
theorem exists_of_isSite (hd : d ∈ c.moduleDirs) (hsite : IsSite c stamp a) (ha : d.address <+: a) :
    ∃ n, a = d.address ++ [n] ∧ isModuleName n = true := by
  rcases hsite with ⟨d', hd', n, rfl, hn⟩ | hcopy
  · obtain rfl := h.eq_of_isPrefix (mem_workDirs hd) (mem_workDirs hd') ha (List.prefix_append _ _)
    exact ⟨n, rfl, hn⟩
  · exact absurd hcopy (h.not_isCopySite hd ha)

/-- **No directory is made** below a directory of modules. -/
theorem not_isTrail (hd : d ∈ c.moduleDirs) (ha : IsBelow d.address a) : ¬ IsTrail c stamp a := by
  rintro (hpre | ⟨b, hb, hpre | hpre⟩)
  · obtain ⟨g, hg, -, he⟩ := generateDir_mem c
    exact h.not_isBelow (mem_workDirs hd) (mem_workDirs hg) (ha.trans_isPrefix (he ▸ hpre))
  · exact h.not_isBelow (mem_workDirs hd) (mem_workDirs_of_backup hb) (ha.trans_isPrefix hpre)
  · exact h.not_isPrefix_backup hd hb ha.1 hpre

end IsSpread

/-! ### Arranged trees -/

section Arranged

variable (h : IsSpread c stamp)
  (hw : Rewrites (fun a _ => IsSite c stamp a) (IsTrail c stamp) t t')
include h hw

theorem IsOrderly.of_rewrites (horderly : IsOrderly t c.servicesRoot c.layout c.resolvedLibraries) :
    IsOrderly t' c.servicesRoot c.layout c.resolvedLibraries where
  proper := hw.isProper horderly.proper
  down := horderly.down
  free := horderly.free
  outside := horderly.outside
  clear l hl n hn := by
    obtain ⟨d, hd, -, he⟩ := libraryDir_mem hl
    refine horderly.clear l hl n ((hw.dir_or hn).resolve_right (h.not_isTrail hd ?_))
    rw [he]
    exact isBelow_append (by simp)

/-- A library stays flat when modules are written in its directory. -/
theorem IsFlattened.of_rewrites (hd : d ∈ c.moduleDirs)
    (hflat : t.get? d.address = some .dir → IsFlattened t d.address) : IsFlattened t' d.address := by
  have hmodule : ∀ (a : Address) (c' : Content), IsSite c stamp a →
      ∃ front n, a = front ++ [n] ∧ isModuleName n = true := fun _ _ => exists_name_of_isSite
  have hdir : ∀ {names : List Text} {m : Node}, names ≠ [] →
      t.get? (d.address ++ names) = some m → IsFlattened t d.address := fun hne hm =>
    hflat (get?_of_isPrefix hm (List.prefix_append _ _) (by simpa using hne))
  refine ⟨fun ns n hm hns => ?_, fun names hm => ?_⟩
  · obtain ⟨c', hc', hne, hlisted, hrest⟩ := mem_moduleNames_iff_get?.1 hm
    rcases hw.file_or hc' with hc | hsite
    · refine hw.get?_ne_none ((hdir hne hc).modules ns n (mem_moduleNames_iff_get?.2
        ⟨c', hc, hne, ?_, hrest⟩) hns)
      rwa [← hw.isListed_eq hmodule (by simp [hc])]
    · obtain ⟨m, he, -⟩ := h.exists_of_isSite hd hsite (List.prefix_append _ _)
      exact absurd he (nested_ne n m hns)
  · obtain ⟨hg, hne, hlisted, hrest⟩ := mem_dirNames_iff_get?.1 hm
    have hg' := (hw.dir_or hg).resolve_right (h.not_isTrail hd (isBelow_append hne))
    have hmem : names ∈ t.dirNames {} d.address :=
      mem_dirNames_iff_get?.2 ⟨hg', hne, by rwa [← hw.isListed_eq hmodule (by simp [hg'])], hrest⟩
    obtain ⟨m, hm⟩ := hasChildren_iff.1 ((hdir hne hg').dirs names hmem)
    exact hasChildren_iff.2 ⟨m, hw.get?_ne_none hm⟩

/-- **An arranged tree stays arranged** when a run writes in it. -/
theorem IsArranged.of_rewrites
    (harranged : IsArranged c.servicesRoot c.layout c.resolvedLibraries t) :
    IsArranged c.servicesRoot c.layout c.resolvedLibraries t' := by
  have hnamed : ∀ p ∈ places c.servicesRoot c.layout ++ sources c.servicesRoot c.layout,
      p ∈ namedPaths c stamp := fun p hp => List.mem_cons_of_mem _ (List.mem_append_left _ hp)
  refine harranged.of_follows ⟨fun p hp => hw.keeps fun a ha _ => ?_, fun p hp c' hc' => ?_⟩
    fun l hl hdir => ?_
  · exact h.not_isSite_of_isPrefix (hnamed p (List.mem_append_left _ hp)) ha
  · exact (hw.file_or hc').resolve_right
      (h.not_isSite_of_isPrefix (hnamed p (List.mem_append_right _ hp)) List.prefix_rfl)
  · obtain ⟨d, hd, -, he⟩ := libraryDir_mem hl
    have hdown := h.down_library hl
    obtain ⟨a, hl', ha⟩ := isDir_iff.1 hdir
    rw [← he]
    refine IsFlattened.of_rewrites h hw hd fun hg => he ▸ harranged.flat l hl (isDir_iff.2 ⟨_, ?_, he ▸ hg⟩)
    obtain rfl := eq_address_of_locate hdown hl'
    exact locate_of_get? hdown hl' (he ▸ hg)

end Arranged

end ElementModules.Project
