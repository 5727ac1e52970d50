import ElementModules.Project.Run
import ElementModules.Proofs.Project.Indexing

/-!
# Excluded files

A configuration may exclude identifiers of files. Conversions and repairs ask for the identifier of a
module before they write it, and a copy that a conversion makes keeps the name of its module. So
neither writes an excluded file anywhere (`rewrites_convertModule_of_fileName?`,
`rewrites_repairModule`). Index modules are different: their name is given by the registry, and it is
written without asking whether it is excluded. So an excluded file stays as it is through any number
of conversions, repairs and writings of index modules, unless it has the name of the index module
(`excluded_unchanged`); if it has, it is overwritten (`index_overwrites_excluded`).

## Main results

* `rewrites_stage`: where a stage writes.
* `excluded_unchanged`: excluded files through a sequence of stages.
-/

namespace ElementModules.Project

open ElementModules.Tree Descriptor

variable {c : Config} {t t' : Tree} {p q : Path} {a : Address} {n : Text}

/-- A place whose file name has an excluded identifier. -/
def IsExcluded (c : Config) (a : Address) : Prop :=
  ∃ n, a.getLast? = some n ∧ (Path.splitName n).1 ∈ c.exclude

/-- Where a stage may write: at a file that is not excluded, or at an index module. -/
def MayWrite (c : Config) (s : Stage) (a : Address) : Prop :=
  ¬ IsExcluded c a ∨ (s = .index ∧ a.getLast? = some c.registry.indexFile)

theorem not_isExcluded (ha : a.getLast? = some n) (hn : (Path.splitName n).1 ∉ c.exclude) :
    ¬ IsExcluded c a := by
  rintro ⟨m, hm, hex⟩
  obtain rfl := Option.some.inj (ha.symm.trans hm)
  exact hn hex

theorem fileIdOf_of_fileName? (h : p.fileName? = some n) : fileIdOf p = (Path.splitName n).1 := by
  rw [fileIdOf, Path.fileId?, h]
  rfl

/-- An excluded file is no element module. -/
theorem isElement_of_mem_exclude (hp : p.fileName? = some n)
    (hn : (Path.splitName n).1 ∈ c.exclude) (x : Text) :
    (selectorOf c).isElement (fileIdOf p) x = false := by
  have hexcluded : (selectorOf c).exclude.contains (fileIdOf p) = true := by
    rw [fileIdOf_of_fileName? hp]
    exact List.contains_iff_mem.2 hn
  rw [Selector.isElement, Selector.decidedBy?, if_pos hexcluded]
  rfl

/-! ### Where a module is copied -/

/-- **A copy keeps the name** of its module, unless the path of the module is the root. -/
theorem getLast?_of_backupPath {v : Converter} {b : Path} (hn : IsFileName n)
    (hp : p.fileName? = some n) (hrelative : p.isAbsolute = false)
    (hne : p.components ≠ v.root.components) (h : (v.backupPath b p).goal = .ok a) :
    a.getLast? = some n := by
  rw [Converter.backupPath] at h
  cases hr : Path.relativeTo? v.root p with
  | none =>
    rw [hr, hp] at h
    exact Path.getLast?_of_goal h (Path.getLast?_steps (hn.fileName?_join b))
  | some r =>
    rw [hr] at h
    obtain ⟨-, hcomponents⟩ := Path.components_of_relativeTo? hrelative hr
    have hnil : r.components ≠ [] := fun he => hne (by rw [hcomponents, he, List.append_nil])
    have hname : r.fileName? = some n := by
      obtain ⟨cs, d, hcs⟩ := (List.eq_nil_or_concat r.components).resolve_left hnil
      rw [List.concat_eq_append] at hcs
      rw [Path.fileName?, hcomponents, hcs, ← List.append_assoc, List.getLast?_concat] at hp
      rw [Path.fileName?, hcs, List.getLast?_concat, hp]
    have hstep := Path.getLast?_steps hname
    have hr' : r.isAbsolute = false := by
      by_contra habsolute
      rw [Bool.not_eq_false] at habsolute
      have hjoin : b.join r = r := by rw [Path.join, if_pos habsolute]
      have hgoal : r.goal = .ok a := by rwa [← hjoin]
      rw [(Path.goal_eq_ok_iff.1 hgoal).1] at habsolute
      cases habsolute
    refine Path.getLast?_of_goal h ?_
    rw [Path.steps_join hr', List.getLast?_append, hstep]
    rfl

/-! ### One module -/

/-- A repair writes no excluded file. -/
theorem rewrites_repairModule (hp : p.fileName? = some n) (t : Tree) :
    Rewrites (fun a _ => ¬ IsExcluded c a) (fun _ => True) t
      ((Registrar.ofConfig c).repairModule t p).1 := by
  rcases repairModule_cases (Registrar.ofConfig c) t p with
    ⟨hsame, -⟩ | ⟨x, out, -, helement, -, -, hw⟩
  · rw [hsame]
    exact .refl _ _ t
  · refine (Rewrites.of_write hw).mono (fun a _ ha => ?_) fun _ hc => hc.elim
    refine not_isExcluded (Path.getLast?_of_goal ha.1 (Path.getLast?_steps hp)) fun hex => ?_
    rw [show (Registrar.ofConfig c).selector = selectorOf c from rfl,
      isElement_of_mem_exclude hp hex] at helement
    cases helement

/-- A conversion writes no excluded file: neither the module nor its copy is one. -/
theorem rewrites_convertModule_of_fileName? {stamp : Text} {root : Address}
    (hroot : c.root.goal = .ok root) (hdir : t.get? root = some .dir) (hn : IsFileName n)
    (hp : p.fileName? = some n) (l : Library) :
    Rewrites (fun a _ => ¬ IsExcluded c a) (fun _ => True) t
      ((Converter.ofConfig c stamp).convertModule l t p).1 := by
  by_cases hex : (Path.splitName n).1 ∈ c.exclude
  · have hsame := (convertModule_of_exportsDescriptor (t := t) (v := Converter.ofConfig c stamp)
      (l := l) (p := p) fun x _ h => by
        rw [show (Converter.ofConfig c stamp).selector = selectorOf c from rfl,
          isElement_of_mem_exclude hp hex] at h
        cases h).1
    rw [hsame]
    exact .refl _ _ t
  · cases hread : t.readText p with
    | error e =>
      have hsame : ((Converter.ofConfig c stamp).convertModule l t p).1 = t := by
        rw [Converter.convertModule, Converter.treat, hread]
      rw [hsame]
      exact .refl _ _ t
    | ok x =>
      obtain ⟨k, hl, hk⟩ := readText_eq_ok hread
      have hgoal := goal_of_locate hl
      -- the root is a directory, so the module is not at its path
      have hne : p.components ≠ (Converter.ofConfig c stamp).root.components := by
        intro he
        have hsame : p.goal = c.root.goal := congrArg (List.foldlM Tree.step []) he
        obtain rfl := Except.ok.inj (hgoal.symm.trans (hsame.trans hroot))
        rw [hdir] at hk
        cases hk
      refine (rewrites_convertModule (Converter.ofConfig c stamp) l t p).mono (fun a _ ha => ?_)
        fun _ _ => trivial
      rcases ha with ⟨ha, -⟩ | ⟨b, -, ha⟩
      · exact not_isExcluded (Path.getLast?_of_goal ha (Path.getLast?_steps hp)) hex
      · exact not_isExcluded
          (getLast?_of_backupPath hn hp (Path.goal_eq_ok_iff.1 hgoal).1 hne ha) hex

/-! ### Index modules -/

/-- What is written in a directory under a text that is no path of its own has that text as its
name. -/
theorem getLast?_of_writeFile_join {x : Content} (hdir : t.isDir q = true) (hne : n ≠ [])
    (hslash : '/' ∉ n) (h : t.writeFile (q.join ⟨n⟩) x = .ok t') (ha : (q.join ⟨n⟩).goal = .ok a) :
    a.getLast? = some n := by
  obtain ⟨d, hl, hd⟩ := isDir_iff.1 hdir
  obtain ⟨a', hl', hfree, -⟩ := writeFile_eq_ok h
  obtain rfl := Except.ok.inj (ha.symm.trans (goal_of_locate hl'))
  have hrelative : (⟨n⟩ : Path).isAbsolute = false := by
    rw [Path.isAbsolute, decide_eq_false_iff_not]
    exact fun hc => hslash (List.mem_of_mem_head? hc)
  have hsteps : (q.join ⟨n⟩).steps = q.steps ++ (⟨n⟩ : Path).steps := Path.steps_join hrelative q
  have hpiece : (⟨n⟩ : Path).steps = [n].filterMap pieceComponent? := by
    rw [Path.steps, splitSlashes_of_not_mem hslash]
  have hq := (Path.goal_eq_ok_iff.1 (goal_of_locate hl)).2
  by_cases hdot : n = ['.']
  · -- the directory itself
    have hsame := (Path.goal_eq_ok_iff.1 ha).2
    rw [hsteps, hpiece, hdot] at hsame
    obtain rfl := Except.ok.inj (hq.symm.trans (by simpa [pieceComponent?] using hsame))
    exact absurd hd hfree
  · by_cases hdots : n = ['.', '.']
    · -- the directory above
      have habove := (Path.goal_eq_ok_iff.1 ha).2
      have hdots' : [n].filterMap pieceComponent? = [.up] := by rw [hdots]; rfl
      rw [hsteps, hpiece, hdots', List.foldlM_append, hq] at habove
      have hup : (Tree.step d .up >>= pure) = .ok a := habove
      rw [bind_pure, Tree.step] at hup
      split_ifs at hup with hnil
      obtain rfl := Except.ok.inj hup
      exact absurd (t.get?_dropLast hd hnil) hfree
    · refine Path.getLast?_of_goal ha ?_
      rw [hsteps, hpiece]
      simp [pieceComponent?, hne, hdot, hdots]

/-- An index module is written under its name. -/
theorem rewrites_write_indexFile (hvalid : c.Valid) (l : Library) (t : Tree) :
    Rewrites (fun a _ => MayWrite c .index a) (fun _ => True) t
      ((Indexer.ofConfig c).write t l).1 := by
  rcases write_cases (Indexer.ofConfig c) t l with hsame | ⟨hdir, x, hw⟩
  · rw [hsame]
    exact .refl _ _ t
  · refine (Rewrites.of_write hw).mono (fun a _ ha => .inr ⟨rfl, ?_⟩) fun _ hc => hc.elim
    exact getLast?_of_writeFile_join hdir hvalid.indexFile_ne_nil hvalid.indexFile_bare hw ha.1

/-! ### Stages -/

/-- What every piece of work on a module keeps is kept by the work on the modules in a directory. -/
theorem eachModule_induct {P : Tree → Prop} {stage : Stage} {r : Registry} {missing : Text}
    {f : Tree → Path → Tree × Entry} {dir : Path} (h : P t)
    (hstep : ∀ u n d, P u → IsListedIn r t d n → P (f u (dir.join ⟨n⟩)).1) :
    P (eachModule stage r missing f t dir).1 := by
  cases hdir : t.isDir dir with
  | false =>
    rw [eachModule_of_not_isDir stage r missing f hdir]
    exact h
  | true =>
    obtain ⟨d, hl, hd⟩ := isDir_iff.1 hdir
    obtain ⟨names, -, hnames, heq⟩ := exists_eachModule_eq stage r missing f hl hd
    rw [heq]
    exact each_induct h fun u n hn hu => hstep u n d hu ((hnames n).1 hn)

theorem IsListedIn.isFileName {r : Registry} {d : Address} (h : IsListedIn r t d n)
    (hproper : t.IsProper) : IsFileName n := by
  obtain ⟨x, hx⟩ := h.isModuleIn.isFile
  exact hproper _ _ hx n (by simp)

section Stages

variable (hproper : t.IsProper)
include hproper

theorem rewrites_convertAll (hdir : t.isDir c.root = true) (stamp : Text) :
    Rewrites (fun a _ => ¬ IsExcluded c a) (fun _ => True) t (convertAll c stamp t).1 := by
  obtain ⟨root, hl, hroot⟩ := isDir_iff.1 hdir
  refine each_induct (P := Rewrites (fun a _ => ¬ IsExcluded c a) (fun _ => True) t) (.refl _ _ t)
    fun u l _ hu => ?_
  refine eachModule_induct (P := Rewrites (fun a _ => ¬ IsExcluded c a) (fun _ => True) t) hu
    fun u' n d hu' hn => ?_
  have hname := hn.isFileName (hu.isProper hproper)
  exact hu'.trans (rewrites_convertModule_of_fileName? (goal_of_locate hl) (hu'.dir hroot) hname
    (hname.fileName?_join l.dir) l)

theorem rewrites_repairAll :
    Rewrites (fun a _ => ¬ IsExcluded c a) (fun _ => True) t (repairAll c t).1 := by
  refine each_induct (P := Rewrites (fun a _ => ¬ IsExcluded c a) (fun _ => True) t) (.refl _ _ t)
    fun u dir _ hu => ?_
  refine eachModule_induct (P := Rewrites (fun a _ => ¬ IsExcluded c a) (fun _ => True) t) hu
    fun u' n d hu' hn => ?_
  have hname := hn.isFileName (hu.isProper hproper)
  exact hu'.trans (rewrites_repairModule (hname.fileName?_join dir) u')

omit hproper in
theorem rewrites_indexAll (hvalid : c.Valid) (t : Tree) :
    Rewrites (fun a _ => MayWrite c .index a) (fun _ => True) t (indexAll c t).1 :=
  each_induct (P := Rewrites (fun a _ => MayWrite c .index a) (fun _ => True) t) (.refl _ _ t)
    fun u l _ hu => hu.trans (rewrites_write_indexFile hvalid l u)

/-- **Where a stage writes**: at files that are not excluded, and at index modules. -/
theorem rewrites_stage (hvalid : c.Valid) {s : Stage} (hs : s ∈ [.convert, .patch, .index])
    (stamp : Text) :
    Rewrites (fun a _ => MayWrite c s a) (fun _ => True) t (stage c stamp t s).1 := by
  rw [stage, requireRoot]
  cases hdir : t.isDir c.root with
  | false => exact .refl _ _ t
  | true =>
    simp only [List.mem_cons, List.not_mem_nil, or_false] at hs
    rcases hs with rfl | rfl | rfl
    · exact (rewrites_convertAll hproper hdir stamp).mono (fun _ _ => .inl) fun _ => id
    · exact (rewrites_repairAll hproper).mono (fun _ _ => .inl) fun _ => id
    · exact rewrites_indexAll hvalid t

end Stages

/-- The tree after some stages that are carried out one by one, each with the stamp of its run. -/
def afterStages (c : Config) (t : Tree) (ss : List (Stage × Text)) : Tree :=
  ss.foldl (fun t s => (stage c s.2 t s.1).1) t

/-- **Excluded files stay as they are** through any sequence of conversions, repairs and writings of
index modules, wherever they stand, unless they have the name of the index module and index modules are
written. -/
theorem excluded_unchanged (hvalid : c.Valid) (hproper : t.IsProper) {ss : List (Stage × Text)}
    (hss : ∀ s ∈ ss, s.1 ∈ [.convert, .patch, .index]) (hn : (Path.splitName n).1 ∈ c.exclude)
    (hindex : n = c.registry.indexFile → ∀ s ∈ ss, s.1 ≠ .index) (dir : Address) (x : Content) :
    (afterStages c t ss).get? (dir ++ [n]) = some (.file x)
      ↔ t.get? (dir ++ [n]) = some (.file x) := by
  induction ss generalizing t with
  | nil => rfl
  | cons s ss ih =>
    have hlast : (dir ++ [n]).getLast? = some n := List.getLast?_concat
    have hstage := rewrites_stage hproper hvalid (hss s List.mem_cons_self) s.2
    have hspared : ∀ y : Content, ¬ MayWrite c s.1 (dir ++ [n]) := by
      rintro - (hfree | ⟨hs, hname⟩)
      · exact hfree ⟨n, hlast, hn⟩
      · exact hindex (Option.some.inj (hlast.symm.trans hname)) s List.mem_cons_self hs
    have hrest := ih (hstage.isProper hproper) (fun r hr => hss r (.tail s hr))
      fun he r hr => hindex he r (.tail s hr)
    exact hrest.trans (hstage.file_iff hspared x)

/-- A library with two files, of which one is an element module by its text. -/
def guardedProject : Tree where
  nodes := [(["proj"], .dir), (["proj", "lib"], .dir),
    (["proj", "lib", "index.js"], .file (.text "// kept by hand\n")),
    (["proj", "lib", "notes.js"], .file (.text "const n = \x7b\x7d;\nr.register(n);\n"))]
  distinct := by decide
  closed := by decide

/-- A project in which both files are excluded. -/
def guarding (indexFile : Text) : Config where
  root := "proj"
  libraries := [⟨"a", "lib"⟩]
  registry := ⟨"r", "r.js", indexFile⟩
  generate := { outputDir := "lib" }
  exclude := ["index", "notes"]
  categories := .empty "b"

theorem excluded_unchanged_guardedProject :
    (guarding "i.js").Valid ∧ guardedProject.IsProper
      ∧ ∀ n ∈ (["index.js", "notes.js"] : List Text), ∀ x,
        (afterStages (guarding "i.js") guardedProject [(.convert, "S0"), (.patch, "S1"),
          (.index, "S2")]).get? ((["proj", "lib"] : Address) ++ [n]) = some (.file x)
          ↔ guardedProject.get? ((["proj", "lib"] : Address) ++ [n]) = some (.file x) := by
  have hvalid : (guarding "i.js").Valid := (Config.check_eq_ok_iff _).1 (by decide)
  have hproper : guardedProject.IsProper := isProper_iff.2 (by decide)
  have hnames : ∀ n ∈ (["index.js", "notes.js"] : List Text),
      (Path.splitName n).1 ∈ (guarding "i.js").exclude
        ∧ n ≠ (guarding "i.js").registry.indexFile := by decide
  refine ⟨hvalid, hproper, fun n hn x => ?_⟩
  obtain ⟨hexcluded, hindex⟩ := hnames n hn
  have hstages : ∀ s ∈ ([(.convert, "S0"), (.patch, "S1"), (.index, "S2")] : List (Stage × Text)),
      s.1 ∈ [.convert, .patch, .index] := by decide
  exact excluded_unchanged hvalid hproper hstages hexcluded (fun he => absurd he hindex) _ x

/-- An excluded file with the name of the index module is overwritten. -/
theorem index_overwrites_excluded :
    (guarding "index.js").Valid ∧ guardedProject.IsProper
      ∧ (Path.splitName "index.js").1 ∈ (guarding "index.js").exclude
      ∧ guardedProject.get? ["proj", "lib", "index.js"] = some (.file (.text "// kept by hand\n"))
      ∧ (stage (guarding "index.js") "S0" guardedProject .index).1.get? ["proj", "lib", "index.js"]
        = some (.file (.text (indexModule "a" [])))
      ∧ indexModule "a" [] ≠ "// kept by hand\n" := by
  refine ⟨(Config.check_eq_ok_iff _).1 (by decide), isProper_iff.2 (by decide), ?_, ?_, ?_, ?_⟩
  · decide
  · rfl
  · decide +kernel
  · decide

end ElementModules.Project
