import ElementModules.Proofs.Project.Rearranging

/-!
# Reports of arrangements

A step that reports a change has changed the tree: there is a directory or a file where nothing was,
or an empty directory is gone. So when an arranged tree is arranged again, no change is reported
(`exists_arrange_eq`).

Main result: `exists_arrange_eq`.
-/

namespace ElementModules.Project

open ElementModules.Tree

variable {t : Tree} {p s d : Path} {plan : LayoutPlan} {libraries : List Library} {l : Library}

/-! ### Single steps -/

theorem isChange_of_placeDir (hne : p.components ≠ []) (h : (placeDir t p).1 = t) :
    (placeDir t p).2.outcome.isChange = false := by
  unfold placeDir at h ⊢
  split_ifs at h ⊢ with hdir hnode
  · rfl
  · rfl
  · cases hm : t.makeDirs p with
    | mk t₁ r =>
      rw [hm] at h
      cases r with
      | error e => rfl
      | ok u =>
        -- the directory that was made would have been there before
        have hyes := (isDir_of_makeDirs (t := t) (p := p) (by rw [hm])).resolve_left hne
        rw [hm] at hyes
        exact absurd (h ▸ hyes) hdir

theorem isChange_of_relocate (hs : s.IsDown) (hd : d.IsDown) (h : (relocate t s d).1 = t) :
    (relocate t s d).2.outcome.isChange = false := by
  unfold relocate at h ⊢
  split_ifs at h ⊢ with hfile hnode
  · rfl
  · rfl
  · rw [Bool.not_eq_true, Bool.not_eq_false'] at hfile
    rw [Bool.not_eq_true] at hnode
    cases hm : t.moveFile s d with
    | mk t₁ r =>
      rw [hm] at h
      have ht : t₁ = t := h
      cases r with
      | error e => rfl
      | ok u =>
        exfalso
        rcases moveFile_cases hs hd hfile hnode with ⟨-, hblocked⟩ | ⟨c, hg, hnone, hplace, hl, hr, he⟩
        · exact moveFile_ne_ok_of_isBlocked (hblocked _ (.refl _ _)) s (by rw [hm])
        · have hne : s.address ≠ d.address := by
            intro he
            rw [he, hnone] at hg
            cases hg
          have hget := get?_transfer hg hne hplace (by simp [hnone])
          rw [← he, hm] at hget
          have hput : t₁.get? d.address = some (.file c) := by rw [hget, if_neg hne.symm, if_pos rfl]
          rw [ht] at hput
          rw [hasNode_iff.2 (.inr (isFile_iff.2 ⟨_, c, locate_of_get? hd hl hput, hput, hr⟩))] at hnode
          cases hnode

theorem isChange_of_placeStub (hp : p.IsDown) {body : Text} (h : (placeStub t p body).1 = t) :
    (placeStub t p body).2.outcome.isChange = false := by
  have hcases := placeStub_cases hp t body
  rw [h] at hcases
  unfold placeStub at h ⊢
  split_ifs at h ⊢ with hnode
  · rfl
  · cases hm : writeNew t p body with
    | mk t₁ r =>
      cases r with
      | error e => rfl
      | ok u =>
        exfalso
        rcases hcases with ⟨-, hc⟩ | ⟨-, hblocked⟩ | ⟨hc, -⟩
        · exact hnode hc
        · obtain ⟨e, he⟩ := writeFile_of_isBlocked (hblocked _ (.refl _ _)) (.text body)
          unfold writeNew at hm
          cases hmade : t.makeParents p with
          | mk t₂ r =>
            rw [hmade] at hm he
            cases r with
            | error e => cases hm
            | ok u =>
              simp only [writeText, he] at hm
              cases hm
        · exact hnode (hasNode_iff.2 (.inr hc))

theorem isChange_of_prune (hdown : p.IsDown) (hne : p.address ≠ []) (h : (prune t p).1 = t) :
    ∀ e ∈ (prune t p).2, e.outcome.isChange = false := by
  rcases prune_cases t p with he | ⟨a, hl, hg, hc, he⟩
  · simp [he]
  · -- the directory that went would still be there
    obtain rfl := eq_address_of_locate hdown hl
    have hgone := get?_remove hc hne p.address
    rw [he] at h
    rw [if_pos rfl, show t.remove p.address = t from h, hg] at hgone
    cases hgone

/-! ### Libraries -/

theorem isChange_of_flattenModule (hl : l.dir.IsDown) {ns : List Text} {n : Text}
    (hnames : ∀ m ∈ ns ++ [n], IsFileName m)
    (h : (flattenModule l t (extendPath l.dir (ns ++ [n]))).1 = t) :
    ∀ e ∈ (flattenModule l t (extendPath l.dir (ns ++ [n]))).2, e.outcome.isChange = false := by
  have hn := hnames n (by simp)
  rw [flattenModule, Library.flattenedPath?, fileName?_extendPath_concat hn] at h ⊢
  intro e he
  obtain rfl := Option.some.inj he
  exact isChange_of_relocate (isDown_extendPath hnames hl) (isDown_join hn hl) h

/-- In a flat library no change is reported. -/
theorem isChange_of_flatten (hl : l.dir.IsDown) (hproper : t.IsProper)
    (hflat : t.isDir l.dir = true → IsFlattened t l.dir.address) :
    ∀ e ∈ (flatten t l).2.entries, e.outcome.isChange = false := by
  cases hdir : t.isDir l.dir with
  | false =>
    rw [flatten, modulesIn, listable, hdir]
    intro e he
    obtain rfl := List.mem_singleton.1 he
    rfl
  | true =>
    obtain ⟨hmodules, hdirs⟩ := unchanged_of_isFlattened hl hproper hdir (hflat hdir)
    have hmoves : ∀ p ∈ ((t.moduleNames {} l.dir.address).map (extendPath l.dir)).filter
        (fun p => !l.isFlat p), (flattenModule l t p).1 = t
          ∧ ∀ e ∈ (flattenModule l t p).2, e.outcome.isChange = false := by
      rw [List.filter_map]
      intro p hp
      obtain ⟨names, hnames, rfl⟩ := List.mem_map.1 hp
      have hsame := hmodules names hnames
      obtain ⟨ns, n, c, rfl, -, -, hfile, -⟩ := isNested_of_mem hproper hnames
      exact ⟨hsame, isChange_of_flattenModule hl hfile hsame⟩
    have hremovals : ∀ p ∈ (t.dirNames {} l.dir.address).map (extendPath l.dir),
        (prune t p).1 = t ∧ ∀ e ∈ (prune t p).2, e.outcome.isChange = false := by
      intro p hp
      obtain ⟨names, hnames, rfl⟩ := List.mem_map.1 hp
      obtain ⟨hne, hfile⟩ := isFileName_of_mem_dirNames hproper hnames
      have hsame := hdirs names hnames
      exact ⟨hsame, isChange_of_prune (isDown_extendPath hfile hl)
        (by rw [address_extendPath hfile]; simp [hne]) hsame⟩
    rw [flatten, modulesIn, listable_of_isDir hl hdir]
    simp only [Except.map, dirsIn]
    rw [each_unchanged fun p hp => (hmoves p hp).1, listable_of_isDir hl hdir]
    intro e he
    obtain ⟨a, ha, rfl⟩ := List.mem_filterMap.1 he
    rcases List.mem_append.1 ha with ha | ha
    · obtain ⟨p, hp, hpe⟩ := each_answers (fun p hp => (hmoves p hp).1) _ ha
      exact (hmoves p hp).2 e hpe.symm
    · obtain ⟨p, hp, hpe⟩ := each_answers (fun p hp => (hremovals p hp).1) _ ha
      exact (hremovals p hp).2 e hpe.symm

/-! ### Whole arrangements -/

theorem components_join_ne_nil (hs : s.text ≠ []) (p : Path) : (s.join p).components ≠ [] := by
  rw [Ne, Path.components_eq_nil_iff, Path.join]
  split_ifs with h
  · intro hc
    rw [Path.isAbsolute, hc] at h
    cases h
  · simp [hs]
  · simp

/-- **When an arranged tree is arranged again**, nothing changes, and no change is reported. -/
theorem exists_arrange_eq (h : IsOrderly t s plan libraries)
    (harranged : IsArranged s plan libraries t) (hs : t.isDir s = true) :
    ∃ r, arrange t s plan libraries = (t, .ok r) ∧ ∀ e ∈ r.entries, e.outcome.isChange = false := by
  have hempty : s.text ≠ [] := by
    intro hc
    rw [isDir, node, locate, if_pos hc] at hs
    cases hs
  have hfollows := Follows.refl s plan t
  obtain ⟨dirs, hdirs, hdirsCalm⟩ := exists_each_eq (t := t) (f := placeDir)
    (P := fun e => e.outcome.isChange = false) fun p (hp : p ∈ plan.directories.map s.join) => by
      have hsame := harranged.directories p hp t hfollows
      obtain ⟨q, -, rfl⟩ := List.mem_map.1 hp
      exact ⟨hsame, isChange_of_placeDir (components_join_ne_nil hempty q) hsame⟩
  obtain ⟨moves, hmoves, hmovesCalm⟩ := exists_each_eq (t := t)
    (f := fun t (r : Relocation) => relocate t (s.join r.source) (s.join r.target))
    (P := fun e => e.outcome.isChange = false) fun r (hr : r ∈ plan.relocations) => by
      have hsame := harranged.relocations r hr t hfollows
      exact ⟨hsame, isChange_of_relocate (h.down_source (source_mem hr))
        (h.down_place (target_mem hr)) hsame⟩
  obtain ⟨stubs, hstubs, hstubsCalm⟩ := exists_each_eq (t := t)
    (f := fun t (b : Stub) => placeStub t (s.join b.path) b.body)
    (P := fun e => e.outcome.isChange = false) fun b (hb : b ∈ plan.stubs) => by
      have hsame := harranged.stubs b hb t hfollows
      exact ⟨hsame, isChange_of_placeStub (h.down_place (stub_mem hb)) hsame⟩
  obtain ⟨flat, hflat, hflatCalm⟩ := exists_each_eq (t := t) (f := flatten)
    (P := fun r => ∀ e ∈ r.entries, e.outcome.isChange = false) fun l (hl : l ∈ libraries) =>
      ⟨flatten_of_isFlattened (h.down_library hl) h.proper (harranged.flat l hl),
        isChange_of_flatten (h.down_library hl) h.proper (harranged.flat l hl)⟩
  refine ⟨⟨.normalize, dirs ++ moves ++ stubs ++ flat.flatMap StageReport.entries⟩, ?_, fun e he => ?_⟩
  · simp only [arrange, hs, Bool.not_true, Bool.false_eq_true, if_false, makeDirectories, hdirs, hmoves,
      hstubs, hflat]
  · simp only [List.mem_append, List.mem_flatMap] at he
    rcases he with ((he | he) | he) | ⟨r, hr, he⟩
    · exact hdirsCalm e he
    · exact hmovesCalm e he
    · exact hstubsCalm e he
    · exact hflatCalm r hr e he

end ElementModules.Project
