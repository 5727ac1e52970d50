import ElementModules.Proofs.Tree.Preserving

/-!
# Files that are rewritten

When modules are converted, generated or repaired, files get new contents, new files appear, and
directories are made for them (`Rewrites`). No directory goes and none becomes a file, so whatever a
path led to it still leads to, and what stands at an address that is not written to stays the same.

## Main results

* `Rewrites.locate`, `Rewrites.isDir_eq`, `Rewrites.node_eq`: paths in a tree with rewritten files.
* `Rewrites.sameRules`, `moduleNames_congr`: listings, if only modules are rewritten.
-/

namespace ElementModules.Tree

variable {t t' t'' : Tree} {p : Path} {a b d : Address} {c : Content} {x : Text}
  {q q' : Address → Content → Prop} {w w' : Address → Prop}

/-- What is found at a path: nothing, if the path leads to no node. -/
theorem readText_eq_notFound_iff (hp : p.IsDown) : t.readText p = .error .notFound
    ↔ t.locate p = .error .notFound ∨ t.locate p = .ok p.address ∧ t.get? p.address = none := by
  rw [readText, node]
  cases hl : t.locate p with
  | error e => simp
  | ok a =>
    obtain rfl := eq_address_of_locate hp hl
    cases hg : t.get? p.address with
    | none => simp [hg]
    | some n =>
      cases n with
      | dir => simp [hg]
      | file c =>
        cases hr : p.requiresDirectory with
        | true => simp [hg]
        | false => cases c <;> simp [hg]

/-- A tree in which files were written, with contents that may be written where they are, and
directories were made where they may be. -/
def Rewrites (q : Address → Content → Prop) (w : Address → Prop) (t t' : Tree) : Prop :=
  ∀ a, t'.get? a = t.get? a ∨ (∀ n ∈ a, IsFileName n)
    ∧ (t.get? a ≠ some .dir ∧ (∃ c, q a c ∧ t'.get? a = some (.file c))
      ∨ w a ∧ t.get? a = none ∧ t'.get? a = some .dir)

namespace Rewrites

theorem refl (q : Address → Content → Prop) (w : Address → Prop) (t : Tree) : Rewrites q w t t :=
  fun _ => .inl rfl

theorem mono (h : Rewrites q w t t') (hq : ∀ a c, q a c → q' a c) (hw : ∀ a, w a → w' a) :
    Rewrites q' w' t t' := by
  intro a
  rcases h a with h | ⟨hnames, ⟨hdir, c, hc, hg⟩ | ⟨ha, hnone, hg⟩⟩
  · exact .inl h
  · exact .inr ⟨hnames, .inl ⟨hdir, c, hq a c hc, hg⟩⟩
  · exact .inr ⟨hnames, .inr ⟨hw a ha, hnone, hg⟩⟩

/-- What may be written is told by what was written. -/
theorem narrow (h : Rewrites q w t t')
    (hq : ∀ a c, q a c → t'.get? a = some (.file c) → q' a c) : Rewrites q' w t t' := by
  intro a
  rcases h a with h | ⟨hnames, ⟨hdir, c, hc, hg⟩ | hmade⟩
  · exact .inl h
  · exact .inr ⟨hnames, .inl ⟨hdir, c, hq a c hc hg, hg⟩⟩
  · exact .inr ⟨hnames, .inr hmade⟩

/-! ### Single steps -/

theorem of_addsDirs (h : AddsDirs (fun a => w a ∧ ∀ n ∈ a, IsFileName n) t t') :
    Rewrites (fun _ _ => False) w t t' := by
  intro a
  rcases h a with h | ⟨hnone, hdir, hway⟩
  · exact .inl h
  · exact .inr ⟨hway.2, .inr ⟨hway.1, hnone, hdir⟩⟩

theorem of_write (h : t.writeFile p c = .ok t') :
    Rewrites (fun a c' => p.goal = .ok a ∧ c' = c) (fun _ => False) t t' := by
  obtain ⟨b, hl, hdir, hget⟩ := writeFile_eq_ok h
  intro a
  rw [hget]
  split_ifs with ha
  · exact .inr ⟨ha ▸ isFileName_of_locate hl, .inl ⟨ha ▸ hdir, c, ⟨ha ▸ goal_of_locate hl, rfl⟩, rfl⟩⟩
  · exact .inl rfl

theorem of_writeFile (hp : p.IsDown) (h : t.writeFile p c = .ok t') :
    Rewrites (fun a c' => a = p.address ∧ c' = c) (fun _ => False) t t' := by
  obtain ⟨b, hl, -⟩ := writeFile_eq_ok h
  refine (of_write h).mono (fun a c' hc => ⟨?_, hc.2⟩) fun _ => id
  rw [← eq_address_of_locate hp hl]
  exact Except.ok.inj (hc.1.symm.trans (goal_of_locate hl))

theorem of_writeText (hp : p.IsDown) (h : t.writeText p x = .ok t') :
    Rewrites (fun a c => a = p.address ∧ c = .text x) (fun _ => False) t t' :=
  of_writeFile hp h

section

variable (h : Rewrites q w t t')
include h

/-! ### What stays -/

theorem dir (ha : t.get? a = some .dir) : t'.get? a = some .dir := by
  rcases h a with h | ⟨-, ⟨hdir, -⟩ | ⟨-, hnone, -⟩⟩
  · rwa [h]
  · exact absurd ha hdir
  · rw [hnone] at ha
    cases ha

theorem dir_iff (hw : ¬ w a) : t'.get? a = some .dir ↔ t.get? a = some .dir := by
  refine ⟨fun ha => ?_, h.dir⟩
  rcases h a with h | ⟨-, ⟨-, c, -, hc⟩ | ⟨hwa, -⟩⟩
  · rwa [← h]
  · rw [hc] at ha
    cases ha
  · exact absurd hwa hw

/-- A directory that is new stands where directories may be made. -/
theorem dir_or (ha : t'.get? a = some .dir) : t.get? a = some .dir ∨ w a := by
  by_cases hw : w a
  · exact .inr hw
  · exact .inl ((h.dir_iff hw).1 ha)

theorem get?_ne_none (ha : t.get? a ≠ none) : t'.get? a ≠ none := by
  rcases h a with h | ⟨-, ⟨-, c, -, hc⟩ | ⟨-, hnone, -⟩⟩
  · rwa [h]
  · simp [hc]
  · exact absurd hnone ha

theorem file_iff (hq : ∀ c, ¬ q a c) (c : Content) :
    t'.get? a = some (.file c) ↔ t.get? a = some (.file c) := by
  rcases h a with h | ⟨-, ⟨-, c', hc', -⟩ | ⟨-, hnone, hdir⟩⟩
  · rw [h]
  · exact absurd hc' (hq c')
  · simp [hnone, hdir]

/-- A file that is new or has a new content stands where it may be written. -/
theorem file_or (ha : t'.get? a = some (.file c)) : t.get? a = some (.file c) ∨ q a c := by
  rcases h a with h | ⟨-, ⟨-, c', hc', hg⟩ | ⟨-, -, hdir⟩⟩
  · exact .inl (h ▸ ha)
  · rw [hg] at ha
    cases ha
    exact .inr hc'
  · rw [hdir] at ha
    cases ha

/-- A file stays a file. -/
theorem file (ha : t.get? a = some (.file c)) :
    ∃ c', t'.get? a = some (.file c') ∧ (c' = c ∨ q a c') := by
  rcases h a with h | ⟨-, ⟨-, c', hc', hg⟩ | ⟨-, hnone, -⟩⟩
  · exact ⟨c, by rw [h, ha], .inl rfl⟩
  · exact ⟨c', hg, .inr hc'⟩
  · rw [hnone] at ha
    cases ha

theorem get?_eq (hq : ∀ c, ¬ q a c) (hw : ¬ w a) : t'.get? a = t.get? a := by
  rcases h a with h | ⟨-, ⟨-, c, hc, -⟩ | ⟨hwa, -⟩⟩
  · exact h
  · exact absurd hc (hq c)
  · exact absurd hwa hw

theorem keeps {P : Address → Prop} (hP : ∀ a, P a → ∀ c, ¬ q a c) : Keeps P t t' := by
  intro a ha n hn
  rcases h a with h | ⟨-, ⟨-, c, hc, -⟩ | ⟨-, hnone, -⟩⟩
  · rw [h, hn]
  · exact absurd hc (hP a ha c)
  · rw [hnone] at hn
    cases hn

theorem isProper (ht : t.IsProper) : t'.IsProper := by
  intro a n hn
  rcases h a with h | ⟨hnames, -⟩
  · exact ht a n (h ▸ hn)
  · exact hnames

theorem trans (h' : Rewrites q w t' t'') : Rewrites q w t t'' := by
  intro a
  rcases h' a with he | ⟨hnames, ⟨hdir, c, hc, hg⟩ | ⟨hw, hnone, hg⟩⟩
  · rw [he]
    exact h a
  · exact .inr ⟨hnames, .inl ⟨fun hc => hdir (h.dir hc), c, hc, hg⟩⟩
  · refine .inr ⟨hnames, .inr ⟨hw, ?_, hg⟩⟩
    by_contra hne
    exact h.get?_ne_none hne hnone

/-! ### Paths -/

variable (hp : p.IsDown)
include hp

/-- A path leads where it led. -/
theorem locate (hl : t.locate p = .ok a) : t'.locate p = .ok a := by
  obtain ⟨hempty, hnull, habsolute, ha, hsize, hdirs⟩ := (locate_eq_ok_iff hp).1 hl
  exact (locate_eq_ok_iff hp).2
    ⟨hempty, hnull, habsolute, ha, hsize, fun b hb hne => h.dir (hdirs b hb hne)⟩

theorem isDir (hdir : t.isDir p = true) : t'.isDir p = true := by
  obtain ⟨a, hl, ha⟩ := isDir_iff.1 hdir
  exact isDir_iff.2 ⟨a, h.locate hp hl, h.dir ha⟩

theorem isDir_eq (hw : ∀ a, a <+: p.address → ¬ w a) : t'.isDir p = t.isDir p := by
  refine Bool.eq_iff_iff.2 ⟨fun hdir => ?_, h.isDir hp⟩
  obtain ⟨a, hl, ha⟩ := isDir_iff.1 hdir
  obtain rfl := eq_address_of_locate hp hl
  have ha' := (h.dir_iff (hw _ List.prefix_rfl)).1 ha
  exact isDir_iff.2 ⟨_, locate_of_get? hp hl ha', ha'⟩

/-- What stands at a path stays if it is not written to. -/
theorem node_eq (hl : t.locate p = .ok a) (hq : ∀ c, ¬ q a c) (hw : ¬ w a) :
    t'.node p = t.node p := by
  rw [node, node, h.locate hp hl, hl]
  simp only [h.get?_eq hq hw]

theorem readText_eq (hl : t.locate p = .ok a) (hq : ∀ c, ¬ q a c) (hw : ¬ w a) :
    t'.readText p = t.readText p := by
  rw [readText, readText, h.node_eq hp hl hq hw]

end

/-- What was found is found. -/
theorem readText_ne_notFound (h : Rewrites q w t t') (hp : p.IsDown)
    (hq : ∀ b, b <+: p.address → b ≠ p.address → ∀ c, ¬ q b c)
    (hfound : t.readText p ≠ .error .notFound) : t'.readText p ≠ .error .notFound := by
  rw [Ne, readText_eq_notFound_iff hp] at hfound ⊢
  cases hl : t.locate p with
  | error e =>
    have he : e ≠ .notFound := fun hc => hfound (.inl (hc ▸ hl))
    rw [locate_error_of_keeps hp (h.keeps fun b hb => hq b hb.1 hb.2) hl he]
    simpa using he
  | ok a =>
    obtain rfl := eq_address_of_locate hp hl
    have hg : t.get? p.address ≠ none := fun hc => hfound (.inr ⟨hl, hc⟩)
    rw [h.locate hp hl]
    simpa using h.get?_ne_none hg

/-! ### Listings -/

section

variable (h : Rewrites q w t t')
include h

/-- If only modules are written, the rules stay. -/
theorem sameRules (hq : ∀ a c, q a c → ∃ front n, a = front ++ [n] ∧ isModuleName n = true) :
    SameRules t t' := by
  refine sameRules_of_file_iff fun front n hn c => h.file_iff (fun c hc => ?_) c
  obtain ⟨front', n', he, hn'⟩ := hq _ c hc
  obtain rfl := (List.append_inj' he rfl).2 |> List.singleton_inj.1
  rw [hn] at hn'
  cases hn'

theorem isListed_eq (hq : ∀ a c, q a c → ∃ front n, a = front ++ [n] ∧ isModuleName n = true)
    (ha : t.get? a ≠ none) (b : Address) : t'.isListed b a = t.isListed b a := by
  refine (h.sameRules hq).isListed_eq ⟨fun hdir => ?_, h.dir⟩ ha (h.get?_ne_none ha) b
  obtain ⟨n, hn⟩ := Option.ne_none_iff_exists'.1 ha
  cases n with
  | dir => exact hn
  | file c =>
    obtain ⟨c', hc', -⟩ := h.file hn
    rw [hc'] at hdir
    cases hdir

end

end Rewrites

/-! ### Equal listings -/

/-- A listing depends on what is in it only. -/
theorem moduleNames_congr {s : Scope}
    (h : ∀ names, names ∈ t'.moduleNames s d ↔ names ∈ t.moduleNames s d) :
    t'.moduleNames s d = t.moduleNames s d := by
  have hperm : (t'.moduleNames s d).Perm (t.moduleNames s d) :=
    (List.perm_ext_iff_of_nodup (nodup_moduleNames t' s d) (nodup_moduleNames t s d)).2 h
  exact hperm.eq_of_pairwise (fun a b _ _ hab hba => lexLe_antisymm charLt_strictLinear.lexLt hab hba)
    (pairwise_moduleNames t' s d) (pairwise_moduleNames t s d)

end ElementModules.Tree
