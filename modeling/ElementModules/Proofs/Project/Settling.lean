import ElementModules.Proofs.Project.BackingUp
import ElementModules.Proofs.Project.Sites

/-!
# Modules that settle

What the stages behind the arrangement write is told by a property of the texts that modules get
(`Works`). Such a property holds of all modules in a directory if it holds of those that stood there
(`ForModules.of_works`); this one fact carries everything that a stage has achieved through the stages
behind it.

A text for a module **settles** (`IsTame`) if a repair changes it at most once, and if what it is
converted to exports a descriptor and settles, too. If all modules do, then after their conversion all
element modules of libraries export a descriptor, unless an entry has failed, so that none would be
converted again (`convertAll_settles`).

## Main results

* `ForModules.of_works`: what holds of the modules in a directory.
* `rewrites_convertModule_in`, `convertModule_of_ne_failed`: the conversion of one module.
* `convertAll_settles`: the modules of a project after their conversion.
-/

namespace ElementModules.Project

open ElementModules.Tree Descriptor Script

variable {c : Config} {stamp : Text} {t t' u : Tree} {p d : Path} {a : Address} {n x y : Text}
  {l : Library} {v : Converter} {F : Text → Text → Prop} {G G' : Path → Text → Text → Prop}

/-! ### What a run writes -/

/-- What a run writes: copies of modules, index modules, and modules whose texts have a property. -/
def IsWritten (c : Config) (stamp : Text) (G : Path → Text → Text → Prop) (a : Address) (k : Content) :
    Prop :=
  IsCopySite c stamp a ∨ ∃ d ∈ c.moduleDirs, ∃ n, a = d.address ++ [n] ∧ isModuleName n = true
    ∧ (n = c.registry.indexFile ∨ ∃ y, k = .text y ∧ G d n y)

/-- A tree in which a run has written. -/
abbrev Works (c : Config) (stamp : Text) (G : Path → Text → Text → Prop) (t t' : Tree) : Prop :=
  Rewrites (IsWritten c stamp G) (IsTrail c stamp) t t'

theorem IsWritten.isSite {k : Content} (h : IsWritten c stamp G a k) : IsSite c stamp a :=
  h.elim .inr fun ⟨d, hd, n, ha, hn, _⟩ => .inl ⟨d, hd, n, ha, hn⟩

theorem Works.rewrites (h : Works c stamp G t t') :
    Rewrites (fun a _ => IsSite c stamp a) (IsTrail c stamp) t t' :=
  h.mono (fun _ _ => IsWritten.isSite) fun _ => id

theorem Works.weaken (h : Works c stamp G t t') (hG : ∀ d n y, G d n y → G' d n y) :
    Works c stamp G' t t' := by
  refine h.mono (fun a k hk => ?_) fun _ => id
  rcases hk with hk | ⟨d, hd, n, ha, hn, hi | ⟨y, hy, hg⟩⟩
  · exact .inl hk
  · exact .inr ⟨d, hd, n, ha, hn, .inl hi⟩
  · exact .inr ⟨d, hd, n, ha, hn, .inr ⟨y, hy, hG d n y hg⟩⟩

/-- A property of the modules that are listed in a directory. -/
def ForModules (c : Config) (F : Text → Text → Prop) (t : Tree) (p : Path) : Prop :=
  t.isDir p = true → ∀ n x, IsListedIn c.registry t p.address n →
    t.get? (p.address ++ [n]) = some (.file (.text x)) → F n x

section Works

variable (h : IsSpread c stamp) (hw : Works c stamp G t t')
include h hw

/-- A module that is listed was listed before with the same text, or its text is new. -/
theorem listed_or (hd : d ∈ c.moduleDirs) (hn : IsListedIn c.registry t' d.address n)
    (hx : t'.get? (d.address ++ [n]) = some (.file (.text x))) :
    IsListedIn c.registry t d.address n ∧ t.get? (d.address ++ [n]) = some (.file (.text x))
      ∨ G d n x := by
  rcases hw.file_or hx with hold | hcopy | ⟨d', hd', m, ha, -, hi | ⟨y, hy, hg⟩⟩
  · exact .inl ⟨(isListedIn_of_rewrites hw (fun _ _ hk => exists_name_of_isSite hk.isSite) hold).1 hn,
      hold⟩
  · exact absurd hcopy (h.not_isCopySite hd (List.prefix_append _ _))
  · exact absurd ((List.singleton_inj.1 (List.append_inj' ha rfl).2).trans hi) hn.isModuleIn.ne_index
  · obtain ⟨hfront, hm⟩ := List.append_inj' ha rfl
    obtain rfl := h.eq_of_address_eq (mem_workDirs hd) (mem_workDirs hd') hfront
    obtain rfl := List.singleton_inj.1 hm
    obtain rfl := Content.text.inj hy
    exact .inr hg

/-- **What holds of all modules in a directory** still holds if it holds of what is written. -/
theorem ForModules.of_works (hp : p.IsDown) (hd : d ∈ c.moduleDirs) (he : d.address = p.address)
    (hG : ∀ n y, G d n y → F n y) (hF : ForModules c F t p) : ForModules c F t' p := by
  intro hdir n x hn hx
  rw [← he] at hn hx
  rcases listed_or h hw hd hn hx with ⟨hlisted, hold⟩ | hg
  · obtain ⟨a, hl, -⟩ := isDir_iff.1 hdir
    have hg := get?_of_isPrefix hold (List.prefix_append _ _) (by simp)
    obtain rfl := eq_address_of_locate hp hl
    rw [he] at hg hlisted hold
    exact hF (isDir_iff.2 ⟨_, locate_of_get? hp hl hg, hg⟩) n x hlisted hold
  · exact hG n x hg

omit hw in
/-- **A stage that works on the modules in a directory** achieves for all of them what it achieves for
each one and for what it writes. All entries have a property. -/
theorem eachModule_settles (hproper : t.IsProper) (hp : p.IsDown) (hd : d ∈ c.moduleDirs)
    (he : d.address = p.address) {stage : Stage} {missing : Text} {f : Tree → Path → Tree × Entry}
    {Q : Entry → Prop} (hQ : ∀ e ∈ (eachModule stage c.registry missing f t p).2.entries, Q e)
    (hG : ∀ n y, G d n y → F n y)
    (hstep : ∀ u n, IsFileName n → IsListedIn c.registry u p.address n → u.isDir p = true →
      Works c stamp G t u → Q (f u (p.join ⟨n⟩)).2 → Works c stamp G u (f u (p.join ⟨n⟩)).1
        ∧ ∀ x, (f u (p.join ⟨n⟩)).1.get? (p.address ++ [n]) = some (.file (.text x)) → F n x) :
    Works c stamp G t (eachModule stage c.registry missing f t p).1
      ∧ ForModules c F (eachModule stage c.registry missing f t p).1 p := by
  cases hdir : t.isDir p with
  | false =>
    rw [eachModule_of_not_isDir _ _ _ _ hdir]
    exact ⟨.refl _ _ t, fun hc => absurd hc (by simp [hdir])⟩
  | true =>
    obtain ⟨a, hloc, hg⟩ := isDir_iff.1 hdir
    obtain rfl := eq_address_of_locate hp hloc
    have hlisted : ∀ u n, IsListedIn c.registry t p.address n → Works c stamp G t u →
        IsListedIn c.registry u p.address n := by
      intro u n hn hu
      obtain ⟨k, hk⟩ := hn.isModuleIn.isFile
      exact (isListedIn_of_rewrites hu (fun _ _ hk => exists_name_of_isSite hk.isSite) hk).2 hn
    have hstep' : ∀ u n, IsListedIn c.registry t p.address n → Works c stamp G t u →
        Q (f u (p.join ⟨n⟩)).2 → Works c stamp G u (f u (p.join ⟨n⟩)).1
          ∧ ∀ x, (f u (p.join ⟨n⟩)).1.get? (p.address ++ [n]) = some (.file (.text x)) → F n x := by
      intro u n hn hu
      obtain ⟨k, hk⟩ := hn.isModuleIn.isFile
      exact hstep u n (hproper _ _ hk n (by simp)) (hlisted u n hn hu) (hu.isDir hp hdir) hu
    have hdone := eachModule_done hloc hg (I := fun u => Works c stamp G t u)
      (P := fun n u => ∀ x, u.get? (p.address ++ [n]) = some (.file (.text x)) → F n x) hQ
      (.refl _ _ t)
      (fun u n hn hu hQn => ⟨hu.trans (hstep' u n hn hu hQn).1, (hstep' u n hn hu hQn).2⟩)
      fun u n m hn hm _ hu hQm hP x hx => ?_
    · refine ⟨hdone.1, fun _ n x hn hx => ?_⟩
      rcases listed_or h hdone.1 hd (he ▸ hn) (he ▸ hx) with ⟨hn', -⟩ | hg
      · exact hdone.2 n (he ▸ hn') x hx
      · exact hG n x hg
    · have hu' := (hstep' u m hm hu hQm).1
      have hn' := hlisted _ n hn (hu.trans hu')
      rcases listed_or h hu' hd (he ▸ hn') (he ▸ hx) with ⟨-, hold⟩ | hg
      · exact hP x (he ▸ hold)
      · exact hG n x hg

end Works

/-! ### Texts -/

/-- A text that a repair changes at most once. It exports a descriptor afterwards if it did so before. -/
def Settles (k : Context) (x : Text) : Prop :=
  ∀ y, repair k x = .ok y → (∀ z, repair k y = .ok z → z = y)
    ∧ (exportsDescriptor x = true → exportsDescriptor y = true)

theorem Settles.of_repair {k : Context} (h : Settles k x) (hy : repair k x = .ok y) : Settles k y := by
  intro z hz
  obtain rfl := (h y hy).1 z hz
  exact ⟨(h z hy).1, id⟩

theorem settles_of_repair {k : Context} (h : repair k x = .ok x) : Settles k x := by
  intro y hy
  obtain rfl := Except.ok.inj (h.symm.trans hy)
  exact ⟨fun z hz => (Except.ok.inj (h.symm.trans hz)).symm, id⟩

theorem settles_iff {k : Context} : Settles k x ↔ ∀ y ∈ (repair k x).toOption,
    (∀ z ∈ (repair k y).toOption, z = y)
      ∧ (exportsDescriptor x = true → exportsDescriptor y = true) := by
  have hmem : ∀ {r : Except RepairError Text} {y : Text}, y ∈ r.toOption ↔ r = .ok y := fun {r y} => by
    cases r <;> simp [Except.toOption]
  simp only [Settles, hmem]

instance {k : Context} : Decidable (Settles k x) := decidable_of_iff _ settles_iff.symm

/-- What a module in a directory is repaired with. -/
def contextIn (c : Config) (d : Path) (n : Text) : Context := (Registrar.ofConfig c).context (d.join ⟨n⟩)

/-- A text for a module that settles, also after a conversion. -/
structure IsTame (c : Config) (stamp : Text) (d : Path) (n x : Text) : Prop where
  settles : Settles (contextIn c d n) x
  converted : ∀ l ∈ c.resolvedLibraries, l.dir.same d → ∀ y m,
    (Converter.ofConfig c stamp).treatment l (l.dir.join ⟨n⟩) x = .replace y m →
      exportsDescriptor y = true ∧ Settles (contextIn c d n) y

/-- A text that settles and is not converted. -/
structure IsFine (c : Config) (d : Path) (n y : Text) : Prop where
  settles : Settles (contextIn c d n) y
  exports : ∀ l ∈ c.resolvedLibraries, l.dir.same d → exportsDescriptor y = true

theorem treatment_ne_replace (h : exportsDescriptor x = true) (y : Text) (m : Conversion) :
    v.treatment l p x ≠ .replace y m := by
  unfold Converter.treatment
  split_ifs
  · simp
  · simp [convert?, h]

theorem IsFine.isTame (h : IsFine c d n x) : IsTame c stamp d n x :=
  ⟨h.settles, fun l hl hsame y m hr => absurd hr (treatment_ne_replace (h.exports l hl hsame) y m)⟩

/-- Whether a text shows that the module with a file name is an element module. -/
def isElementText (c : Config) (n x : Text) : Bool := (selectorOf c).isElement (Path.splitName n).1 x

theorem fileIdOf_join (hn : IsFileName n) (p : Path) : fileIdOf (p.join ⟨n⟩) = (Path.splitName n).1 := by
  rw [fileIdOf, Path.fileId?, hn.fileName?_join]
  rfl

/-- A text that shows no element module, or exports a descriptor. -/
def IsExported (c : Config) (n x : Text) : Prop :=
  isElementText c n x = true → exportsDescriptor x = true

/-- A project whose modules settle. -/
def IsSettling (c : Config) (stamp : Text) (t : Tree) : Prop :=
  ∀ d ∈ c.moduleDirs, ForModules c (IsTame c stamp d) t d

/-- A project whose libraries are converted. -/
def IsConverted (c : Config) (t : Tree) : Prop :=
  ∀ l ∈ c.resolvedLibraries, ForModules c (IsExported c) t l.dir

section Keeps

variable (h : IsSpread c stamp) (hw : Works c stamp (IsFine c) t t')
include h hw

/-- The modules of a project still settle. -/
theorem IsSettling.of_works (hs : IsSettling c stamp t) : IsSettling c stamp t' := fun d hd =>
  (hs d hd).of_works h hw (h.down_of_mem hd) hd rfl fun _ _ => IsFine.isTame

/-- A library stays converted. -/
theorem ForModules.of_library (hl : l ∈ c.resolvedLibraries) (hs : ForModules c (IsExported c) t l.dir) :
    ForModules c (IsExported c) t' l.dir := by
  obtain ⟨d, hd, hsame, he⟩ := libraryDir_mem hl
  exact hs.of_works h hw (h.down_library hl) hd he fun n y hy _ => hy.exports l hl hsame

/-- The libraries of a project stay converted. -/
theorem IsConverted.of_works (hs : IsConverted c t) : IsConverted c t' := fun l hl =>
  (hs l hl).of_library h hw hl

end Keeps

/-! ### The conversion of one module -/

/-- What the conversion of a module does if it does not fail: nothing, since the module exports a
descriptor or is no element module, or it replaces the text. -/
theorem convertModule_of_ne_failed (ha : p.goal = .ok a)
    (h : (v.convertModule l t p).2.outcome ≠ .failed) :
    ∃ x, t.get? a = some (.file (.text x))
      ∧ ((v.convertModule l t p).1 = t
          ∧ (v.selector.isElement (fileIdOf p) x = true → exportsDescriptor x = true)
        ∨ ∃ y m, v.treatment l p x = .replace y m
          ∧ (v.convertModule l t p).1.get? a = some (.file (.text y))) := by
  rw [Converter.convertModule, Converter.treat] at h ⊢
  cases hread : t.readText p with
  | error e => simp [hread, Converter.entry] at h
  | ok x =>
    obtain ⟨a', hl, hx⟩ := readText_eq_ok hread
    obtain rfl := Except.ok.inj ((goal_of_locate hl).symm.trans ha)
    refine ⟨x, hx, ?_⟩
    simp only [hread] at h ⊢
    cases htreatment : v.treatment l p x with
    | notElement =>
      refine .inl ⟨rfl, fun helement => ?_⟩
      simp only [Converter.treatment, helement, Bool.not_true, Bool.false_eq_true, if_false] at htreatment
      split at htreatment <;> cases htreatment
    | canonical =>
      refine .inl ⟨rfl, fun helement => ?_⟩
      simp only [Converter.treatment, helement, Bool.not_true, Bool.false_eq_true, if_false] at htreatment
      by_contra hno
      simp [convert?, hno] at htreatment
    | replace y m =>
      simp only [htreatment] at h ⊢
      cases hcopied : v.backUp t p with
      | mk t₁ r =>
        cases r with
        | error e => simp [hcopied, Converter.entry] at h
        | ok _ =>
          simp only [hcopied] at h ⊢
          cases hwritten : t₁.writeText p y with
          | error e => simp [hwritten, Converter.entry] at h
          | ok t₂ =>
            obtain ⟨a'', hl', -, hput⟩ := writeFile_eq_ok hwritten
            obtain rfl := Except.ok.inj ((goal_of_locate hl').symm.trans ha)
            exact .inr ⟨y, m, rfl, by simp [hput]⟩

section Library

variable (h : IsSpread c stamp) (hroot : c.root.text ≠ []) (hl : l ∈ c.resolvedLibraries)
  (hgoal : l.dir.goal = .ok l.dir.address) (hn : IsFileName n)
include h hroot hl hgoal hn

/-- A module of a library is copied below the backup directory, and keeps its name. -/
theorem exists_copy_goal (b : Path) :
    ∃ s e, (Converter.ofConfig c stamp).backupPath b (l.dir.join ⟨n⟩) = b.join s
      ∧ s.goal = .ok (e ++ [n]) := by
  have hdown := h.down_library hl
  obtain ⟨l', -, rfl⟩ := List.mem_map.1 hl
  simp only [Config.resolve] at hgoal hdown ⊢
  split_ifs at hgoal hdown ⊢ with habsolute
  · rw [(Path.goal_eq_ok_iff.1 hgoal).1] at habsolute
    cases habsolute
  · rw [Bool.not_eq_true] at habsolute
    obtain ⟨root, hr⟩ := Path.goal_of_goal_join hroot habsolute hgoal
    have hsizes := ((Path.IsDown.goal_eq_ok_iff hdown).1 hgoal).2.2
    have hq : l'.dir.goal = .ok l'.dir.address :=
      (((Path.isDown_join habsolute).1 hdown).2.goal_eq_ok_iff).2 ⟨habsolute, rfl, fun m hm =>
        hsizes m (by rw [Path.address_join habsolute]; exact List.mem_append_right _ hm)⟩
    obtain ⟨s, hs, hgoal'⟩ :=
      exists_backupPath_eq (v := Converter.ofConfig c stamp) hr hroot hq hn b
    exact ⟨s, _, hs, hgoal'⟩

/-- Where the conversion of a module writes: at the module and its copy. -/
theorem rewrites_convertModule_in (hname : isModuleName n = true) (t : Tree) :
    Rewrites (fun a _ => a = l.dir.address ++ [n] ∨ IsCopySite c stamp a) (IsTrail c stamp) t
      ((Converter.ofConfig c stamp).convertModule l t (l.dir.join ⟨n⟩)).1 := by
  have hbackup : ∀ b ∈ (Converter.ofConfig c stamp).backupDir, b.IsDown ∧ b.text ≠ [] := by
    intro b hb
    refine ⟨h.down b (List.mem_cons_of_mem _ (mem_workDirs_of_backup hb)), ?_⟩
    simp only [Converter.ofConfig, Option.mem_def] at hb
    split_ifs at hb
    exact Option.some.inj hb ▸ Path.text_join_ne_nil hroot _
  refine (rewrites_convertModule _ l t _).mono (fun a _ ha => ?_) fun a hthrough => ?_
  · rcases ha with ⟨ha, -⟩ | ⟨b, hb, ha⟩
    · exact .inl (Except.ok.inj (ha.symm.trans (goal_join hn hgoal)))
    · obtain ⟨s, e, hs, hgoal'⟩ := exists_copy_goal h hroot hl hgoal hn b
      obtain ⟨hdown, hne⟩ := hbackup b hb
      rw [hs] at ha
      obtain ⟨k, hk⟩ := Path.goal_of_goal_join hne (Path.goal_eq_ok_iff.1 hgoal').1 ha
      obtain rfl := Except.ok.inj (ha.symm.trans (Path.goal_join hne hk hgoal'))
      obtain rfl := (hdown.goal_eq_ok_iff.1 hk).2.1
      exact .inr ⟨b, hb, b.address ++ e, n, by simp, List.prefix_append _ _, hname⟩
  · obtain ⟨b, hb, ha⟩ := hthrough
    obtain ⟨s, e, hs, hgoal'⟩ := exists_copy_goal h hroot hl hgoal hn b
    obtain ⟨hdown, hne⟩ := hbackup b hb
    refine .inr ⟨b, hb, ?_⟩
    rcases leadsThrough_or_isAbove hne hgoal' (hs ▸ ha) with ha | ⟨k, hk, hbelow⟩
    · exact .inl (hdown.isPrefix_of_leadsThrough ha)
    · obtain rfl := (hdown.goal_eq_ok_iff.1 hk).2.1
      exact .inr hbelow.1

/-- **The conversion of a module that settles**: a text that is written is not converted again. -/
theorem works_convertModule (hs : IsSettling c stamp t) (hlisted : IsListedIn c.registry t l.dir.address n)
    (hdir : t.isDir l.dir = true)
    (hne : ((Converter.ofConfig c stamp).convertModule l t (l.dir.join ⟨n⟩)).2.outcome ≠ .failed) :
    Works c stamp (IsFine c) t ((Converter.ofConfig c stamp).convertModule l t (l.dir.join ⟨n⟩)).1
      ∧ ∀ x, ((Converter.ofConfig c stamp).convertModule l t (l.dir.join ⟨n⟩)).1.get?
        (l.dir.address ++ [n]) = some (.file (.text x)) → IsExported c n x := by
  obtain ⟨d, hd, hsame, he⟩ := libraryDir_mem hl
  have hmodule := hlisted.isModuleIn
  have hrewrites := rewrites_convertModule_in h hroot hl hgoal hn hmodule.isModuleName t
  obtain ⟨x, hx, ⟨hfst, hexports⟩ | ⟨y, m, htreatment, hy⟩⟩ :=
    convertModule_of_ne_failed (goal_join hn hgoal) hne
  · rw [hfst]
    refine ⟨.refl _ _ t, fun x' hx' helement => ?_⟩
    obtain rfl : x = x' := by simpa using hx.symm.trans hx'
    exact hexports (by rw [fileIdOf_join hn]; exact helement)
  · have hdir' : t.isDir d = true := (isDir_congr (Path.same_iff.1 hsame)).symm.trans hdir
    have htame := hs d hd hdir' n x (he ▸ hlisted) (he ▸ hx)
    obtain ⟨hexports, hsettles⟩ := htame.converted l hl hsame y m htreatment
    have hfine : IsFine c d n y := ⟨hsettles, fun _ _ _ => hexports⟩
    refine ⟨hrewrites.narrow fun a k hk hg => ?_, fun x' hx' _ => ?_⟩
    · rcases hk with rfl | hk
      · obtain rfl : k = .text y := by simpa using hg.symm.trans hy
        exact .inr ⟨d, hd, n, by rw [he], hmodule.isModuleName, .inr ⟨y, rfl, hfine⟩⟩
      · exact .inl hk
    · obtain rfl : y = x' := by simpa using hy.symm.trans hx'
      exact hexports

end Library

/-! ### The conversion of all modules -/

section Stage

variable (h : IsSpread c stamp) (hroot : c.root.text ≠ []) (hproper : t.IsProper)
  (hs : IsSettling c stamp t)
include h hroot hproper hs

/-- The modules of a library after their conversion. -/
theorem convertModules_settles (hl : l ∈ c.resolvedLibraries)
    (hne : ∀ e ∈ ((Converter.ofConfig c stamp).convertModules t l).2.entries, e.outcome ≠ .failed) :
    Works c stamp (IsFine c) t ((Converter.ofConfig c stamp).convertModules t l).1
      ∧ ForModules c (IsExported c) ((Converter.ofConfig c stamp).convertModules t l).1 l.dir := by
  obtain ⟨d, hd, hsame, he⟩ := libraryDir_mem hl
  refine eachModule_settles h hproper (h.down_library hl) hd he hne
    (fun n y hy _ => hy.exports l hl hsame) fun u n hn hlisted hdir hu hgood => ?_
  obtain ⟨a, hloc, -⟩ := isDir_iff.1 hdir
  obtain rfl := eq_address_of_locate (h.down_library hl) hloc
  exact works_convertModule h hroot hl (goal_of_locate hloc) hn (hs.of_works h hu) hlisted hdir hgood

/-- **After the conversion of a project**, every element module of a library exports a descriptor. -/
theorem convertAll_settles (hne : ∀ e ∈ (convertAll c stamp t).2.entries, e.outcome ≠ .failed) :
    Works c stamp (IsFine c) t (convertAll c stamp t).1 ∧ IsConverted c (convertAll c stamp t).1 := by
  have hgood : ∀ r ∈ (t.each (Converter.ofConfig c stamp).convertModules c.resolvedLibraries).2,
      ∀ e ∈ r.entries, e.outcome ≠ .failed := fun r hr e he =>
    hne e (List.mem_flatMap.2 ⟨r, hr, he⟩)
  exact each_along (R := Works c stamp (IsFine c))
    (P := fun l u => ForModules c (IsExported c) u l.dir) hgood (.refl _ _ t) (fun _ _ => .trans)
    (fun u l hl hu hg => convertModules_settles h hroot (hu.isProper hproper) (hs.of_works h hu) hl hg)
    fun l hl u v hv hP => hP.of_library h hv hl

end Stage

end ElementModules.Project
