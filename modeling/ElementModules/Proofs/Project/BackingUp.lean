import ElementModules.Project.Run
import ElementModules.Proofs.Descriptor.Exporting
import ElementModules.Proofs.Project.Working

/-!
# Copies of converted modules

Before a module is replaced it is copied below the backup directory, to the place that it has below the
root. So what the modules held is not lost, and nothing else is written to (`convert_backs_up`).

This needs that the directories of the libraries do not climb above the root: the place of a module
whose path does lies outside the backup directory (`convert_overwrites`). And it needs that a module is
replaced once. The modules of two libraries with one directory are worked on twice, and they are
replaced once if what was written exports a descriptor.

## Main results

* `IsBackedUp.convertModule`: what the conversion of one module does.
* `convert_backs_up`: what becomes of the files and directories of a project.
-/

namespace ElementModules

namespace Path

/-- A path to a directory above an address. -/
def IsAbove (p : Path) (a : Address) : Prop := ∃ d, p.goal = .ok d ∧ Tree.IsBelow d a

theorem text_join_ne_nil {p : Path} (hp : p.text ≠ []) (q : Path) : (p.join q).text ≠ [] := by
  rw [join]
  split_ifs with habsolute
  · intro hc
    simp [isAbsolute, hc] at habsolute
  · simp [hp]
  · simp

end Path

namespace Project

open ElementModules.Tree Descriptor Script

variable {t u : Tree} {b p q : Path} {a d root : Address} {n : Text} {v : Converter} {l : Library}
  {modules pending pending' : Address → Prop} {copy : Address → Address}

/-! ### What becomes of an address -/

/-- A module of some libraries. -/
def IsModuleOf (libraries : List Library) (r : Registry) (t : Tree) (a : Address) : Prop :=
  ∃ l ∈ libraries, ∃ d n, l.dir.goal = .ok d ∧ a = d ++ [n] ∧ IsModuleIn r t d n

/-- What becomes of an address that is not below the backup directory. -/
inductive Fate (b : Path) (modules : Address → Prop) (copy : Address → Address) (t u : Tree)
    (a : Address) : Prop
  /-- Nothing changes. -/
  | kept (h : u.get? a = t.get? a)
  /-- A directory is made on the way to the backup directory. -/
  | made (hbefore : t.get? a = none) (hafter : u.get? a = some .dir) (hway : b.LeadsThrough a)
  /-- A module is replaced, and its text is copied below the backup directory. -/
  | replaced (x y : Text) (hmodule : modules a) (hbefore : t.get? a = some (.file (.text x)))
    (hafter : u.get? a = some (.file (.text y))) (hbelow : b.IsAbove (copy a))
    (hcopy : u.get? (copy a) = some (.file (.text x)))

/-- Modules that were replaced were copied to places of their own below the backup directory, and
nothing else outside it has changed. -/
structure BacksUp (b : Path) (modules : Address → Prop) (copy : Address → Address) (t u : Tree) :
    Prop where
  copy_injective : ∀ a a', modules a → modules a' → copy a = copy a' → a = a'
  fate : ∀ a, ¬ b.IsAbove a → Fate b modules copy t u a

/-! ### One module -/

/-- The state of a tree in which some modules may have been replaced. What is pending has its first
text, or one that exports a descriptor. -/
structure Progress (b : Path) (modules : Address → Prop) (copy : Address → Address) (t : Tree)
    (pending : Address → Prop) (u : Tree) : Prop where
  isProper : u.IsProper
  fate : ∀ a, ¬ b.IsAbove a → Fate b modules copy t u a
  settled : ∀ a, pending a → ¬ b.IsAbove a → ∀ c, u.get? a = some (.file c) →
    t.get? a = some (.file c) ∨ ∃ y, c = .text y ∧ exportsDescriptor y = true

theorem Progress.refl (ht : t.IsProper) : Progress b modules copy t pending t where
  isProper := ht
  fate _ _ := .kept rfl
  settled _ _ _ _ hc := .inl hc

theorem Progress.mono (h : Progress b modules copy t pending u) (hsub : ∀ a, pending' a → pending a) :
    Progress b modules copy t pending' u :=
  ⟨h.isProper, h.fate, fun a ha => h.settled a (hsub a ha)⟩

/-- A module that is copied below the backup directory. -/
structure IsCopied (v : Converter) (b : Path) (copy : Address → Address) (p : Path) (a : Address) :
    Prop where
  goal : p.goal = .ok a
  outside : ¬ b.IsAbove a
  copy : ∀ k, (v.backupPath b p).goal = .ok k → k = copy a ∧ b.IsAbove k
  way : ∀ x, (v.backupPath b p).LeadsThrough x → b.LeadsThrough x ∨ b.IsAbove x

section OneModule

variable (hb : v.backupDir = some b) (hp : IsCopied v b copy p a)
include hb hp

/-- Outside the backup directory, a conversion only makes directories and replaces its module. -/
theorem get?_convertModule {x : Address} (hx : x ≠ a) (hout : ¬ b.IsAbove x) :
    (v.convertModule l u p).1.get? x = u.get? x
      ∨ u.get? x = none ∧ (v.convertModule l u p).1.get? x = some .dir ∧ b.LeadsThrough x := by
  rcases rewrites_convertModule v l u p x with h | ⟨-, ⟨-, _, ⟨hgoal, -⟩ | ⟨b', hb', hgoal⟩, -⟩ |
    ⟨⟨b', hb', hway⟩, hnone, hdir⟩⟩
  · exact .inl h
  · exact absurd (Except.ok.inj (hgoal.symm.trans hp.goal)) hx
  · obtain rfl := Option.some.inj (hb.symm.trans hb')
    exact absurd (hp.copy x hgoal).2 hout
  · obtain rfl := Option.some.inj (hb.symm.trans hb')
    exact .inr ⟨hnone, hdir, (hp.way x hway).resolve_right hout⟩

/-- The copies of other modules stay. -/
theorem get?_copy_convertModule {x : Address} {c : Content} (hx : copy x ≠ copy a)
    (habove : b.IsAbove (copy x)) (hc : u.get? (copy x) = some (.file c)) :
    (v.convertModule l u p).1.get? (copy x) = some (.file c) := by
  rcases rewrites_convertModule v l u p (copy x) with h | ⟨-, ⟨-, _, ⟨hgoal, -⟩ | ⟨b', hb', hgoal⟩, -⟩ |
    ⟨-, hnone, -⟩⟩
  · rwa [h]
  · rw [Except.ok.inj (hgoal.symm.trans hp.goal)] at habove
    exact absurd habove hp.outside
  · obtain rfl := Option.some.inj (hb.symm.trans hb')
    exact absurd (hp.copy _ hgoal).1 hx
  · rw [hc] at hnone
    cases hnone

/-- A module with the text that it had at first keeps it, or a copy of it. -/
theorem Progress.fate_self (h : Progress b modules copy t pending u)
    (hfirst : ∀ c, u.get? a = some (.file c) → t.get? a = some (.file c))
    (hmodule : ∀ c, t.get? a = some (.file c) → modules a) :
    Fate b modules copy t (v.convertModule l u p).1 a := by
  have hapart : (v.backupPath b p).goal ≠ .ok a := fun hc => hp.outside (hp.copy a hc).2
  rcases convertModule_cases hb hp.goal hapart l u with hsame | ⟨y, z, m, k, -, hy, hz, hk, hcopied⟩
  · cases h.fate a hp.outside with
    | kept hkept => exact .kept (hsame.trans hkept)
    | made hbefore hafter hway => exact .made hbefore (hsame.trans hafter) hway
    | replaced y z _ _ hafter => exact .kept (by rw [hsame, hafter, hfirst _ hafter])
  · obtain ⟨rfl, habove⟩ := hp.copy k hk
    exact .replaced y z (hmodule _ (hfirst _ hy)) (hfirst _ hy) hz habove hcopied

/-- What stands elsewhere stays what it became, and so do the copies. -/
theorem Progress.fate_other (h : Progress b modules copy t pending u)
    (hinj : ∀ x, modules x → copy x = copy a → x = a) {x : Address} (hx : x ≠ a)
    (hout : ¬ b.IsAbove x) : Fate b modules copy t (v.convertModule l u p).1 x := by
  rcases get?_convertModule hb hp hx hout with hsame | ⟨hnone, hdir, hway⟩
  · cases h.fate x hout with
    | kept hkept => exact .kept (hsame.trans hkept)
    | made hbefore hafter hway => exact .made hbefore (hsame.trans hafter) hway
    | replaced y z hmodule hbefore hafter hbelow hcopied =>
      exact .replaced y z hmodule hbefore (hsame.trans hafter) hbelow
        (get?_copy_convertModule hb hp (fun hc => hx (hinj x hmodule hc)) hbelow hcopied)
  · cases h.fate x hout with
    | kept hkept => exact .made (hkept ▸ hnone) hdir hway
    | made _ hafter => rw [hnone] at hafter; cases hafter
    | replaced _ _ _ _ hafter => rw [hnone] at hafter; cases hafter

/-- **The conversion of one module**: it is pending before. Afterwards it may still be pending if its new
text exports a descriptor. -/
theorem Progress.convertModule (h : Progress b modules copy t pending u) (hpending : pending a)
    (hsub : ∀ x, pending' x → pending x) (hinj : ∀ x, modules x → copy x = copy a → x = a)
    (hmodule : ∀ c, t.get? a = some (.file c) → modules a)
    (hsettled : ∀ x y m, t.get? a = some (.file (.text x)) → v.treatment l p x = .replace y m →
      pending' a → exportsDescriptor y = true) :
    Progress b modules copy t pending' (v.convertModule l u p).1 := by
  by_cases hdone : ∃ y, u.get? a = some (.file (.text y)) ∧ exportsDescriptor y = true
  · obtain ⟨y, hy, hexports⟩ := hdone
    have hsame : (v.convertModule l u p).1 = u := by
      refine (convertModule_of_exportsDescriptor fun x hx _ => ?_).1
      obtain ⟨a', hl, hx'⟩ := readText_eq_ok hx
      obtain rfl := Except.ok.inj ((goal_of_locate hl).symm.trans hp.goal)
      obtain rfl : x = y := by simpa using hx'.symm.trans hy
      exact hexports
    rw [hsame]
    exact h.mono hsub
  -- the module has the text that it had at first, unless it is no file
  have hfirst : ∀ c, u.get? a = some (.file c) → t.get? a = some (.file c) := by
    intro c hc
    rcases h.settled a hpending hp.outside c hc with hfirst | ⟨y, rfl, hexports⟩
    · exact hfirst
    · exact absurd ⟨y, hc, hexports⟩ hdone
  refine ⟨(rewrites_convertModule v l u p).isProper h.isProper, fun x hout => ?_,
    fun x hx hout c hc => ?_⟩
  · by_cases hxa : x = a
    · exact hxa ▸ h.fate_self hb hp hfirst hmodule
    · exact h.fate_other hb hp hinj hxa hout
  · by_cases hxa : x = a
    · subst hxa
      have hapart : (v.backupPath b p).goal ≠ .ok x := fun hc => hp.outside (hp.copy x hc).2
      rcases convertModule_cases hb hp.goal hapart l u with hsame | ⟨y, z, m, k, htreatment, hy, hz, -⟩
      · exact .inl (hfirst c (hsame ▸ hc))
      · rw [hz] at hc
        obtain rfl := Node.file.inj (Option.some.inj hc)
        exact .inr ⟨z, rfl, hsettled y z m (hfirst _ hy) htreatment hx⟩
    · rcases get?_convertModule hb hp hxa hout with hsame | ⟨-, hdir, -⟩
      · exact h.settled x (hsub x hx) hout c (hsame ▸ hc)
      · rw [hdir] at hc
        cases hc

end OneModule

/-! ### Where modules are copied -/

/-- The place below the backup directory that corresponds to one below the root. -/
def copyAddress (root backup a : Address) : Address := backup ++ a.drop root.length

theorem copyAddress_append (root backup e : Address) :
    copyAddress root backup (root ++ e) = backup ++ e := by rw [copyAddress, List.drop_left]

theorem leadsThrough_or_isAbove {s : Path} {e : Address} (hne : b.text ≠ []) (hs : s.goal = .ok e)
    (h : (b.join s).LeadsThrough a) : b.LeadsThrough a ∨ b.IsAbove a := by
  rcases Path.leadsThrough_join hne hs h with h | ⟨k, hk, hpre⟩
  · exact .inl h
  · by_cases hka : k = a
    · exact .inl ⟨b.components, List.prefix_rfl, hka ▸ hk⟩
    · exact .inr ⟨k, hk, hpre, hka⟩

/-- A converter with a root and a backup directory, and the addresses to which they lead. If the backup
directory leads nowhere, no copy is made. -/
structure IsPlaced (v : Converter) (b : Path) (root backup : Address) : Prop where
  backupDir : v.backupDir = some b
  root : v.root.goal = .ok root
  root_ne_nil : v.root.text ≠ []
  backup_ne_nil : b.text ≠ []
  backup : ∀ k, b.goal = .ok k → k = backup

variable {backup : Address}

/-- A module of a library that does not climb above the root is copied below the backup directory. -/
theorem IsPlaced.isCopied_join {e : Address} (h : IsPlaced v b root backup) (hq : q.goal = .ok e)
    (hn : IsFileName n) (hapart : ∀ k, b.goal = .ok k → ¬ k <+: root ++ e) :
    IsCopied v b (copyAddress root backup) ((v.root.join q).join ⟨n⟩) (root ++ e ++ [n]) := by
  obtain ⟨s, hs, hgoal⟩ := exists_backupPath_eq h.root h.root_ne_nil hq hn b
  refine ⟨goal_join hn (Path.goal_join h.root_ne_nil h.root hq), ?_, fun k hk => ?_, fun x hx => ?_⟩
  · rintro ⟨k, hk, hbelow⟩
    rcases List.prefix_concat_iff.1 hbelow.1 with he | hpre
    · exact hbelow.2 he
    · exact hapart k hk hpre
  · rw [hs] at hk
    obtain ⟨m, hm⟩ := Path.goal_of_goal_join h.backup_ne_nil (Path.goal_eq_ok_iff.1 hgoal).1 hk
    obtain rfl := h.backup m hm
    obtain rfl := Except.ok.inj (hk.symm.trans (Path.goal_join h.backup_ne_nil hm hgoal))
    rw [List.append_assoc, copyAddress_append]
    exact ⟨rfl, m, hm, isBelow_append (by simp)⟩
  · exact leadsThrough_or_isAbove h.backup_ne_nil hgoal (hs ▸ hx)

/-! ### The modules of libraries -/

/-- An address directly in the directory of a library. -/
def IsIn (l : Library) (a : Address) : Prop := ∃ d n, l.dir.goal = .ok d ∧ a = d ++ [n]

/-- A library that does not climb above the root and does not lie in the backup directory. -/
def IsInside (root b : Path) (l : Library) : Prop :=
  ∀ d, l.dir.goal = .ok d → (∃ q e, l.dir = root.join q ∧ q.goal = .ok e)
    ∧ ∀ k, b.goal = .ok k → ¬ k <+: d

section Libraries

variable {libraries : List Library} (h : IsPlaced v b root backup)
  (hinside : ∀ l ∈ libraries, IsInside v.root b l)
include h hinside

theorem isPrefix_of_isIn (hl : l ∈ libraries) (ha : IsIn l a) : root <+: a := by
  obtain ⟨d, n, hd, rfl⟩ := ha
  obtain ⟨⟨q, e, hq, he⟩, -⟩ := hinside l hl d hd
  rw [hq] at hd
  obtain rfl := Except.ok.inj (hd.symm.trans (Path.goal_join h.root_ne_nil h.root he))
  exact ⟨e ++ [n], by simp⟩

/-- Different modules have different copies. -/
theorem copyAddress_injective {l' : Library} {a' : Address} (hl : l ∈ libraries) (ha : IsIn l a)
    (hl' : l' ∈ libraries) (ha' : IsIn l' a')
    (hc : copyAddress root backup a = copyAddress root backup a') : a = a' := by
  obtain ⟨e, rfl⟩ := isPrefix_of_isIn h hinside hl ha
  obtain ⟨e', rfl⟩ := isPrefix_of_isIn h hinside hl' ha'
  rw [copyAddress_append, copyAddress_append, List.append_cancel_left_eq] at hc
  rw [hc]

/-- The conversion of the modules of a library, which are pending before. -/
theorem Progress.convertModules (hl : l ∈ libraries)
    (hu : Progress b (IsModuleOf libraries v.registry t) (copyAddress root backup) t
      (fun a => IsIn l a ∨ pending a) u)
    (honce : (∀ a, IsIn l a → ¬ pending a) ∨ ∀ a p x y m, t.get? a = some (.file (.text x)) →
      v.treatment l p x = .replace y m → exportsDescriptor y = true) :
    Progress b (IsModuleOf libraries v.registry t) (copyAddress root backup) t pending
      (v.convertModules u l).1 := by
  rw [Converter.convertModules]
  cases hdir : u.isDir l.dir with
  | false =>
    rw [eachModule_of_not_isDir _ _ _ _ hdir]
    exact hu.mono fun a => .inr
  | true =>
    obtain ⟨d, hloc, hd⟩ := isDir_iff.1 hdir
    have hgoal := goal_of_locate hloc
    obtain ⟨⟨q, e, hq, he⟩, hapart⟩ := hinside l hl d hgoal
    obtain ⟨names, hnodup, hnames, heq⟩ :=
      exists_eachModule_eq .convert v.registry "library directory not found" (v.convertModule l) hloc hd
    obtain rfl : d = root ++ e := by
      rw [hq] at hgoal
      exact Except.ok.inj (hgoal.symm.trans (Path.goal_join h.root_ne_nil h.root he))
    rw [heq]
    -- pending are the modules that are left, and those of the libraries that are left
    refine Progress.mono (each_induct_rest (P := fun rest w =>
      Progress b (IsModuleOf libraries v.registry t) (copyAddress root backup) t
        (fun a => (∃ n ∈ rest, a = root ++ e ++ [n]) ∨ pending a) w)
      (hu.mono fun a ha => ha.imp_left fun ⟨n, _, hn⟩ => ⟨_, n, hgoal, hn⟩) ?_) fun a => .inr
    intro w n rest hrest hw
    have hn := ((hnames n).1 (hrest.subset List.mem_cons_self)).isModuleIn
    obtain ⟨c, hc⟩ := hn.isFile
    have hcopied := h.isCopied_join he (hu.isProper _ _ hc n (by simp)) hapart
    have hin : IsIn l (root ++ e ++ [n]) := ⟨_, n, hgoal, rfl⟩
    rw [hq]
    refine hw.convertModule h.backupDir hcopied (.inl ⟨n, by simp, rfl⟩) (fun a ha => ?_)
      (fun a ⟨l', hl', d', n', hd', ha', _⟩ => ?_) (fun c hc => ?_) fun x y m hx htreatment hpending => ?_
    · exact ha.imp_left fun ⟨n', hn', hn''⟩ => ⟨n', List.mem_cons_of_mem _ hn', hn''⟩
    · exact copyAddress_injective h hinside hl' ⟨d', n', hd', ha'⟩ hl hin
    · exact ⟨l, hl, _, n, hgoal, rfl, ⟨c, hc⟩, hn.isModuleName, hn.ne_index⟩
    · rcases honce with honce | honce
      · rcases hpending with ⟨n', hn', he'⟩ | hpending
        · obtain rfl : n = n' := by simpa using he'
          exact absurd hn' (List.nodup_cons.1 (hrest.sublist.nodup hnodup)).1
        · exact absurd hpending (honce _ hin)
      · exact honce _ _ x y m hx htreatment

end Libraries

/-! ### The stage -/

/-- What a module is replaced by exports a descriptor, if its text is balanced. -/
theorem exportsDescriptor_of_treatment {x y : Text} {m : Conversion}
    (hr : isName v.registry.receiver = true) (hbalanced : isBalanced x = true)
    (hquotes : closesQuotes x = true) (h : v.treatment l p x = .replace y m) :
    exportsDescriptor y = true := by
  unfold Converter.treatment at h
  split at h
  · cases h
  · dsimp only at h
    split at h
    · cases h
    next hconverts =>
      obtain ⟨rfl, rfl⟩ := Treatment.replace.inj h
      obtain ⟨_, _, _, _, _, hwrites⟩ := exists_writes hconverts
      exact hwrites.exportsDescriptor hbalanced hquotes hr

/-- No module is replaced twice: the libraries have different directories, or a module that was
replaced exports a descriptor since its text is balanced. -/
def ReplacesOnce (c : Config) (t : Tree) : Prop :=
  (c.resolvedLibraries.Pairwise fun l l' => ∀ d, l.dir.goal = .ok d → l'.dir.goal ≠ .ok d)
    ∨ ∀ a x, t.get? a = some (.file (.text x)) → isBalanced x = true ∧ closesQuotes x = true

variable {c : Config} {stamp : Text}

theorem isInside_of_mem (hlib : ∀ l ∈ c.libraries, l.dir.isAbsolute = true ∨ ∃ d, l.dir.goal = .ok d)
    (hapart : ∀ l ∈ c.resolvedLibraries, ∀ d k, l.dir.goal = .ok d → b.goal = .ok k → ¬ k <+: d) :
    ∀ l ∈ c.resolvedLibraries, IsInside c.root b l := by
  intro l hl d hd
  refine ⟨?_, fun k => hapart l hl d k hd⟩
  obtain ⟨l', hl', rfl⟩ := List.mem_map.1 hl
  simp only [Config.resolve] at hd ⊢
  split_ifs at hd ⊢ with habsolute
  · rw [(Path.goal_eq_ok_iff.1 hd).1] at habsolute
    cases habsolute
  · obtain ⟨e, he⟩ := (hlib l' hl').resolve_left habsolute
    exact ⟨l'.dir, e, rfl, he⟩

/-- The conversion of all modules, as far as it has come when some libraries are left. -/
theorem progress_convertAll (h : IsPlaced (Converter.ofConfig c stamp) b root backup)
    (hproper : t.IsProper) (hvalid : c.Valid)
    (hinside : ∀ l ∈ c.resolvedLibraries, IsInside c.root b l) (honce : ReplacesOnce c t) :
    Progress b (IsModuleOf c.resolvedLibraries c.registry t) (copyAddress root backup) t
      (fun a => ∃ l ∈ ([] : List Library), IsIn l a) (convertAll c stamp t).1 := by
  refine each_induct_rest (f := (Converter.ofConfig c stamp).convertModules) (P := fun rest u =>
    Progress b (IsModuleOf c.resolvedLibraries c.registry t) (copyAddress root backup) t
      (fun a => ∃ l ∈ rest, IsIn l a) u) (.refl hproper) fun u l rest hrest hu => ?_
  have hl := hrest.subset List.mem_cons_self
  refine Progress.convertModules h hinside hl (hu.mono fun a ha => by simpa using ha) ?_
  rcases honce with hdistinct | hbalanced
  · left
    rintro a ⟨d, n, hd, rfl⟩ ⟨l', hl', d', n', hd', he⟩
    obtain rfl := (List.append_inj' he rfl).1
    exact (List.pairwise_cons.1 (hdistinct.sublist hrest.sublist)).1 l' hl' d hd hd'
  · right
    intro a p x y m hx htreatment
    exact exportsDescriptor_of_treatment hvalid.receiver (hbalanced a x hx).1 (hbalanced a x hx).2
      htreatment

/-- A module beside the project, and a file with its name in the project. -/
def besideProject : Tree where
  nodes := [(["lib1"], .dir), (["lib1", "m.js"], .file (.text "const m = \x7b type: 'm' \x7d;\n")),
    (["proj"], .dir), (["proj", "lib1"], .dir), (["proj", "lib1", "m.js"], .file (.text "// notes\n"))]
  distinct := by decide
  closed := by decide

/-- A project with a library. -/
def withLibrary (dir : Path) : Config where
  root := "proj"
  libraries := [⟨"a", dir⟩]
  registry := ⟨"r", "r.js", "i.js"⟩
  categories := ⟨[("m", "b")], "b", by decide⟩

end Project

end ElementModules
