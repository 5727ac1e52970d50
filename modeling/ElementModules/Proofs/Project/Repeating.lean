import ElementModules.Proofs.Descriptor.Generated
import ElementModules.Proofs.Project.Generating
import ElementModules.Proofs.Project.Indexing
import ElementModules.Proofs.Project.Settling

/-!
# Stages that are carried out again

Each stage behind the arrangement leaves the modules of a project in a state in which it has nothing
left to do: libraries are converted (`IsConverted`), no module of the table is missing, registrations
are repaired (`IsPatched`), and directories are indexed. What the stages behind it write keeps that
state, so all of these states hold in the end.

## Main results

* `convertAll_of_isConverted`, `repairAll_of_isPatched`: stages that change nothing.
* `generateTable_settles`, `repairAll_settles`, `indexAll_settles`: what stages write and achieve.
-/

namespace ElementModules.Project

open ElementModules.Tree Descriptor Script

variable {c : Config} {stamp : Text} {t t' u : Tree} {p d : Path} {a : Address} {n x y : Text}
  {l : Library} {table : ElementTable} {G : Path → Text → Text → Prop}

/-! ### Stages without changes -/

/-- A stage that has nothing to do for the modules in a directory changes nothing. -/
theorem eachModule_again {F : Text → Text → Prop} {stage : Stage} {missing : Text}
    {f : Tree → Path → Tree × Entry} (hp : p.IsDown) (hproper : t.IsProper) (hF : ForModules c F t p)
    (hf : ∀ n, IsFileName n → (∀ x, t.readText (p.join ⟨n⟩) = .ok x → F n x) →
      (f t (p.join ⟨n⟩)).1 = t ∧ (f t (p.join ⟨n⟩)).2.outcome.isChange = false) :
    (eachModule stage c.registry missing f t p).1 = t
      ∧ ∀ e ∈ (eachModule stage c.registry missing f t p).2.entries, e.outcome.isChange = false := by
  refine eachModule_unchanged fun a hloc n hn => ?_
  obtain rfl := eq_address_of_locate hp hloc
  obtain ⟨k, hk⟩ := hn.isModuleIn.isFile
  have hname : IsFileName n := hproper _ _ hk n (by simp)
  have hdir := get?_of_isPrefix hk (List.prefix_append _ _) (by simp)
  refine hf n hname fun x hx => ?_
  obtain ⟨a, hl, hx'⟩ := readText_eq_ok hx
  obtain rfl := Except.ok.inj (hl.symm.trans (locate_join_of_dir hname hloc hdir))
  exact hF (isDir_iff.2 ⟨_, hloc, hdir⟩) n x hn hx'

/-- Stages that change nothing one by one change nothing together. -/
theorem each_again {α : Type} {f : Tree → α → Tree × StageReport} {as : List α}
    (h : ∀ a ∈ as, (f t a).1 = t ∧ ∀ e ∈ (f t a).2.entries, e.outcome.isChange = false) :
    (t.each f as).1 = t
      ∧ ∀ e ∈ (t.each f as).2.flatMap StageReport.entries, e.outcome.isChange = false := by
  refine ⟨each_unchanged fun a ha => (h a ha).1, fun e he => ?_⟩
  obtain ⟨r, hr, he⟩ := List.mem_flatMap.1 he
  obtain ⟨a, ha, rfl⟩ := each_answers (fun a ha => (h a ha).1) r hr
  exact (h a ha).2 e he

/-! ### Conversion -/

/-- **In a converted project** nothing is converted. -/
theorem convertAll_of_isConverted (h : IsSpread c stamp) (hproper : t.IsProper) (hc : IsConverted c t)
    (stamp' : Text) : (convertAll c stamp' t).1 = t
      ∧ ∀ e ∈ (convertAll c stamp' t).2.entries, e.outcome.isChange = false := by
  refine each_again fun l hl => eachModule_again (h.down_library hl) hproper (hc l hl) fun n hn hx => ?_
  refine convertModule_of_exportsDescriptor fun x hread helement => hx x hread ?_
  rwa [fileIdOf_join hn] at helement

/-! ### Generated modules -/

theorem isModuleName_moduleFile (hn : n ≠ []) : isModuleName (moduleFile n) = true := by
  have htake : (moduleFile n).reverse.takeWhile (· != '.') = ['s', 'j'] := by
    simp [moduleFile, moduleExtension]
  have hdrop : (moduleFile n).reverse.drop 3 = n.reverse := by
    simp [moduleFile, moduleExtension]
  obtain ⟨c, w, hw⟩ := List.exists_cons_of_ne_nil (mt List.reverse_eq_nil_iff.1 hn)
  rw [isModuleName, Path.splitName]
  simp only [htake, List.length_cons, List.length_nil, hdrop, hw]
  decide

theorem slash_not_mem_moduleFile (h : isName n = true) : '/' ∉ moduleFile n := by
  intro hc
  rcases List.mem_append.1 hc with hc | hc
  · exact ne_of_class (isNameChar_of_mem h hc) rfl rfl
  · exact absurd hc (by decide)

theorem pieceComponent?_moduleFile (n : Text) :
    pieceComponent? (moduleFile n) = some (.name (moduleFile n)) := by
  have hne : ∀ k : Text, k.getLast? ≠ some 's' → moduleFile n ≠ k := by
    rintro k hk rfl
    exact hk (by simp [moduleFile, moduleExtension])
  rw [pieceComponent?, if_neg, if_neg]
  · exact hne _ (by decide)
  · rintro (hc | hc)
    · exact hne _ (by decide) hc
    · exact hne _ (by decide) hc

section Generated

variable {w : ModuleWriter} {r : Registry} {name : Text} {row : ElementRow} {m : ElementModule}
  (h : generate table r name row = .ok m)
include h

/-- Where a generated module is written. -/
theorem target_generated : (w.target m).address = w.dir.address ++ [moduleFile name]
    ∧ ((w.target m).IsDown ↔ w.dir.IsDown) ∧ isModuleName (moduleFile name) = true := by
  rw [generate] at h
  split_ifs at h with hname
  obtain rfl := Except.ok.inj h
  have hid : isName name = true := (Bool.and_eq_true_iff.1 hname).1
  obtain ⟨haddress, hdown⟩ :=
    Path.join_name (slash_not_mem_moduleFile hid) (pieceComponent?_moduleFile name) w.dir
  refine ⟨haddress, hdown, isModuleName_moduleFile ?_⟩
  rintro rfl
  cases hid

/-- A generated module exports a descriptor, and a repair changes nothing. -/
theorem repair_generated (hr : IsReceiver r.receiver) (hlib : IsVerbatim table.library)
    (hcat : IsVerbatim table.category) : exportsDescriptor m.text = true
      ∧ ∀ k : Context, k.registry = r → repair k m.text = .ok m.text := by
  rw [generate] at h
  split_ifs at h with hname
  obtain rfl := Except.ok.inj h
  have hid : isName name = true := (Bool.and_eq_true_iff.1 hname).1
  have hrun := isFieldRun_generatedBody table.library name row
  refine ⟨Frame.exportsDescriptor_render hid hr hrun.endState_eq, fun k hk => ?_⟩
  exact Frame.repair_render hid hr hrun.endState_eq hrun.isBody hk.symm
    fun l hi hb => canonicalStatements_verbatim hk.symm hlib hcat hi hb

end Generated

/-- How a project writes generated modules. -/
def writerOf (c : Config) : ModuleWriter := ⟨c.generateDir, c.generate.overwrite⟩

/-- A table whose library and category are written without escapes. -/
structure IsVerbatimTable (table : ElementTable) : Prop where
  library : IsVerbatim table.library
  category : IsVerbatim table.category

/-- A configuration that keeps modules that differ from generated ones. The directory of these must
not end with a dot, unless it is the root of the tree. -/
structure KeepsModules (c : Config) : Prop where
  keeps : c.generate.overwrite = false
  dot : c.generateDir.endsWithDot = true → c.generateDir.components = [.here]
  receiver : IsReceiver c.registry.receiver

theorem generateTable_of_ok (h : elementTable c t = .ok table) :
    generateTable c t = ((t.each ((writerOf c).writeElement table c.registry) table.entries).1,
      ⟨.generate, (t.each ((writerOf c).writeElement table c.registry) table.entries).2⟩) := by
  rw [generateTable, h]
  rfl

section Writer

variable (h : IsSpread c stamp) (hc : KeepsModules c)
include h hc

/-- What the generation of a module writes. -/
theorem works_writeElement (htable : IsVerbatimTable table) (e : Text × ElementRow) (t : Tree) :
    Works c stamp (IsFine c) t ((writerOf c).writeElement table c.registry t e).1 := by
  rw [ModuleWriter.writeElement]
  cases hm : generate table c.registry e.1 e.2 with
  | error _ => exact .refl _ _ t
  | ok m =>
    obtain ⟨d, hd, -, he⟩ := generateDir_mem c
    obtain ⟨haddress, hdown, hname⟩ := target_generated (w := writerOf c) hm
    obtain ⟨hexports, hrepair⟩ := repair_generated hm hc.receiver htable.library htable.category
    refine (rewrites_write h.down_generateDir (hdown.2 h.down_generateDir) hc.keeps t).mono
      (fun a k hk => ?_) fun a ha => .inl ha
    have hfine : IsFine c d (moduleFile e.1) m.text :=
      ⟨settles_of_repair (hrepair (contextIn c d _) rfl), fun _ _ _ => hexports⟩
    refine .inr ⟨d, hd, moduleFile e.1, ?_, hname, .inr ⟨m.text, hk.2, hfine⟩⟩
    rw [hk.1, haddress, he]
    rfl

/-- A module that was generated is not generated again. -/
theorem writeElement_again (e : Text × ElementRow)
    (hw : Works c stamp G ((writerOf c).writeElement table c.registry t e).1 t') :
    ((writerOf c).writeElement table c.registry t' e).1 = t'
      ∧ ((writerOf c).writeElement table c.registry t' e).2.outcome.isChange = false := by
  rw [ModuleWriter.writeElement] at hw ⊢
  cases hm : generate table c.registry e.1 e.2 with
  | error _ => exact ⟨rfl, rfl⟩
  | ok m =>
    simp only [hm] at hw ⊢
    obtain ⟨d, hd, -, he⟩ := generateDir_mem c
    obtain ⟨haddress, hdown, -⟩ := target_generated (w := writerOf c) hm
    have hsame := write_of_rewrites h.down_generateDir (hdown.2 h.down_generateDir) hc.keeps hw
      hc.dot (by rw [haddress, List.dropLast_concat]) fun a ha k hk =>
        h.not_isSite_of_isPrefix (p := d) (mem_namedPaths (mem_workDirs hd)) (he ▸ ha) hk.isSite
    exact ⟨hsame, isChange_of_write hc.keeps hsame⟩

/-- The module of an element is there, and stays there whatever a run writes. -/
def IsGenerated (c : Config) (stamp : Text) (table : ElementTable) (e : Text × ElementRow) (t : Tree) :
    Prop :=
  ∀ t', Works c stamp (fun _ _ _ => True) t t' →
    ((writerOf c).writeElement table c.registry t' e).1 = t'
      ∧ ((writerOf c).writeElement table c.registry t' e).2.outcome.isChange = false

/-- The modules of all elements are there after they were written. -/
theorem writeElements_settles (htable : IsVerbatimTable table) (es : List (Text × ElementRow)) (t : Tree) :
    Works c stamp (IsFine c) t (t.each ((writerOf c).writeElement table c.registry) es).1
      ∧ ∀ e ∈ es, IsGenerated c stamp table e
        (t.each ((writerOf c).writeElement table c.registry) es).1 :=
  each_along (G := fun _ => True) (fun _ _ => trivial) (.refl _ _ t) (fun _ _ => .trans)
    (fun u e _ _ _ => ⟨works_writeElement h hc htable e u, fun _ hw => writeElement_again h hc e hw⟩)
    fun _ _ _ _ huv hP t' hw => hP t' ((huv.weaken fun _ _ _ _ => trivial).trans hw)

/-- **The modules of a table**, if there is one, are written once. -/
theorem generateTable_settles (htable : ∀ table, elementTable c t = .ok table → IsVerbatimTable table) :
    Works c stamp (IsFine c) t (generateTable c t).1
      ∧ ∀ t', Works c stamp (fun _ _ _ => True) (generateTable c t).1 t' →
        (∀ table, elementTable c t' = .ok table → elementTable c t = .ok table) →
        (generateTable c t').1 = t'
          ∧ ∀ e ∈ (generateTable c t').2.entries, e.outcome.isChange = false := by
  have hworks : Works c stamp (IsFine c) t (generateTable c t).1 := by
    cases ht : elementTable c t with
    | error e =>
      rw [generateTable, ht]
      exact .refl _ _ t
    | ok table =>
      rw [generateTable_of_ok ht]
      exact (writeElements_settles h hc (htable table ht) table.entries t).1
  refine ⟨hworks, fun t' hw hsame => ?_⟩
  cases ht' : elementTable c t' with
  | error e =>
    rw [generateTable, ht']
    refine ⟨rfl, fun e he => ?_⟩
    obtain rfl := List.mem_singleton.1 he
    rfl
  | ok table =>
    have ht := hsame table ht'
    rw [generateTable_of_ok ht] at hw
    have hdone := fun e he =>
      (writeElements_settles h hc (htable table ht) table.entries t).2 e he t' hw
    obtain ⟨es, heach, hes⟩ := exists_each_eq (P := fun e : Entry => e.outcome.isChange = false) hdone
    rw [generateTable_of_ok ht', heach]
    exact ⟨rfl, hes⟩

end Writer

/-! ### The table of elements -/

theorem elementTable_of_readText (h : ∀ p ∈ c.tablePath?, ∀ x, t'.readText p = .ok x →
    t.readText p = .ok x) (ht : elementTable c t' = .ok table) : elementTable c t = .ok table := by
  rw [elementTable] at ht ⊢
  split at ht
  next p hp =>
    cases hx : t'.readText p with
    | error e =>
      rw [readConfigFile, hx] at ht
      split_ifs at ht <;> cases ht
    | ok x =>
      have hnode : ∀ {u : Tree}, u.readText p = .ok x → readConfigFile u p = .ok x := by
        intro u hu
        have hfound : u.hasNode p = true := by
          rw [hasNode]
          cases hn : u.node p with
          | error e => simp [readText, hn] at hu
          | ok n => rfl
        simp [readConfigFile, hfound, hu]
      rw [hnode hx] at ht
      rw [hnode (h p hp x hx)]
      exact ht
  · exact ht

/-! ### Registrations -/

/-- A text that shows no element module, or that a repair does not change. -/
def IsPatchedText (c : Config) (d : Path) (n x : Text) : Prop :=
  isElementText c n x = true → IsRepaired (Registrar.ofConfig c) (d.join ⟨n⟩) x

/-- A project whose registrations are repaired. -/
def IsPatched (c : Config) (t : Tree) : Prop :=
  ∀ d ∈ c.moduleDirs, ForModules c (IsPatchedText c d) t d

/-- What a repair writes. -/
def IsFixed (c : Config) (d : Path) (n y : Text) : Prop := IsFine c d n y ∧ IsPatchedText c d n y

section Patch

variable (h : IsSpread c stamp)
include h

/-- **The repair of a module that settles.** -/
theorem works_repairModule (hs : IsSettling c stamp t) (hconverted : IsConverted c t)
    (hd : d ∈ c.moduleDirs) (hn : IsFileName n) (hlisted : IsListedIn c.registry t d.address n)
    (hdir : t.isDir d = true) :
    Works c stamp (IsFixed c) t ((Registrar.ofConfig c).repairModule t (d.join ⟨n⟩)).1
      ∧ ∀ x, ((Registrar.ofConfig c).repairModule t (d.join ⟨n⟩)).1.get? (d.address ++ [n])
        = some (.file (.text x)) → IsPatchedText c d n x := by
  have hdown := isDown_join hn (h.down_of_mem hd)
  have haddress := address_join hn d
  have hfile := fileIdOf_join hn d
  obtain ⟨a, hloc, hg⟩ := isDir_iff.1 hdir
  obtain rfl := eq_address_of_locate (h.down_of_mem hd) hloc
  have hloc' := locate_join_of_dir hn hloc hg
  have hrequires := hn.requiresDirectory_join d
  rcases repairModule_cases (Registrar.ofConfig c) t (d.join ⟨n⟩) with
    ⟨hsame, -, hrepaired⟩ | ⟨x, out, hx, helement, hr, -, hw⟩
  · rw [hsame]
    refine ⟨.refl _ _ t, fun x hx helement => hrepaired x ?_ (by rw [hfile]; exact helement)⟩
    exact readText_eq_ok_iff.2 ⟨_, hloc', hx, hrequires⟩
  · obtain ⟨a, hl, hx'⟩ := readText_eq_ok hx
    obtain rfl := Except.ok.inj (hl.symm.trans hloc')
    rw [hfile] at helement
    have hsettles := (hs d hd hdir n x hlisted hx').settles
    have hfixed : IsFixed c d n out := by
      refine ⟨⟨hsettles.of_repair hr, fun l hl hsame => ?_⟩, fun _ => (hsettles out hr).1⟩
      have he := congrArg (List.filterMap Component.name?) (Path.same_iff.1 hsame)
      have hdir' : t.isDir l.dir = true := (isDir_congr (Path.same_iff.1 hsame)).trans hdir
      exact (hsettles out hr).2 (hconverted l hl hdir' n x (by rw [Path.address, he]; exact hlisted)
        (by rw [Path.address, he]; exact hx') helement)
    refine ⟨(Rewrites.of_writeText hdown hw).mono (fun a k hk => ?_) fun _ hk => hk.elim,
      fun x' hx'' => ?_⟩
    · exact .inr ⟨d, hd, n, hk.1.trans haddress, hlisted.isModuleIn.isModuleName,
        .inr ⟨out, hk.2, hfixed⟩⟩
    · obtain ⟨a, hl', -, hput⟩ := writeFile_eq_ok hw
      obtain rfl := Except.ok.inj (hl'.symm.trans hloc')
      obtain rfl : out = x' := by simpa [hput] using hx''
      exact hfixed.2

/-- The modules in a directory after their registrations were repaired. -/
theorem repairModules_settles (hproper : t.IsProper) (hs : IsSettling c stamp t)
    (hconverted : IsConverted c t) (hd : d ∈ c.moduleDirs) :
    Works c stamp (IsFixed c) t ((Registrar.ofConfig c).repairModules t d).1
      ∧ ForModules c (IsPatchedText c d) ((Registrar.ofConfig c).repairModules t d).1 d := by
  refine eachModule_settles h hproper (h.down_of_mem hd) hd rfl (Q := fun _ => True)
    (fun _ _ => trivial) (fun n y hy => hy.2) fun u n hn hlisted hdir hu _ => ?_
  have hfine := hu.weaken fun _ _ _ hy => hy.1
  exact works_repairModule h (hs.of_works h hfine) (hconverted.of_works h hfine) hd hn hlisted hdir

/-- **After the repair of a project**, a repair changes no element module. -/
theorem repairAll_settles (hproper : t.IsProper) (hs : IsSettling c stamp t)
    (hconverted : IsConverted c t) :
    Works c stamp (IsFixed c) t (repairAll c t).1 ∧ IsPatched c (repairAll c t).1 := by
  refine each_along (R := Works c stamp (IsFixed c)) (G := fun _ => True)
    (P := fun d u => ForModules c (IsPatchedText c d) u d) (fun _ _ => trivial) (.refl _ _ t)
    (fun _ _ => .trans) (fun u d hd hu _ => ?_)
    fun d hd u v hv hP => hP.of_works h hv (h.down_of_mem hd) hd rfl fun n y hy => hy.2
  have hfine := hu.weaken fun _ _ _ hy => hy.1
  exact repairModules_settles h (hu.isProper hproper) (hs.of_works h hfine)
    (hconverted.of_works h hfine) hd

/-- **In a project whose registrations are repaired**, none is repaired. -/
theorem repairAll_of_isPatched (hproper : t.IsProper) (hp : IsPatched c t) :
    (repairAll c t).1 = t ∧ ∀ e ∈ (repairAll c t).2.entries, e.outcome.isChange = false := by
  refine each_again fun d hd => eachModule_again (h.down_of_mem hd) hproper (hp d hd) fun n hn hx => ?_
  refine repairModule_of_isRepaired fun x hread helement => hx x hread ?_
  rwa [fileIdOf_join hn] at helement

end Patch

/-! ### Index modules -/

theorem libraryAt_dir (c : Config) (d : Path) : (libraryAt c d).dir.same d := by
  rw [libraryAt]
  split
  next l hl => simpa using List.find?_some hl
  · simp [Path.same]

theorem address_libraryAt (c : Config) (d : Path) : (libraryAt c d).dir.address = d.address := by
  rw [Path.address, Path.same_iff.1 (libraryAt_dir c d), Path.address]

theorem down_libraryAt (h : IsSpread c stamp) (hd : d ∈ c.moduleDirs) : (libraryAt c d).dir.IsDown := by
  rw [Path.IsDown, Path.same_iff.1 (libraryAt_dir c d)]
  exact h.down_of_mem hd

section Index

variable (h : IsSpread c stamp) (hname : IsFileName c.registry.indexFile)
  (hindex : isModuleName c.registry.indexFile = true)
include h hname hindex

/-- **After index modules are written**, all directories are indexed. -/
theorem indexAll_settles (hproper : t.IsProper) :
    Works c stamp (fun _ _ _ => False) t (indexAll c t).1
      ∧ ∀ d ∈ c.moduleDirs, IsIndexed (Indexer.ofConfig c) (indexAll c t).1 (libraryAt c d) := by
  have htarget : ∀ d, ((Indexer.ofConfig c).target (libraryAt c d)).address
      = d.address ++ [c.registry.indexFile] := fun d => by
    rw [Indexer.target, ← address_libraryAt c d]
    exact address_join hname _
  have hrewrites := fun (u : Tree) (d : Path) (hd : d ∈ c.moduleDirs) =>
    rewrites_write_index (w := Indexer.ofConfig c) (down_libraryAt h hd) hname u
  have hworks : ∀ u, ∀ d ∈ c.moduleDirs, Works c stamp (fun _ _ _ => False) u
      ((Indexer.ofConfig c).write u (libraryAt c d)).1 := fun u d hd =>
    (hrewrites u d hd).mono (fun a k hk => .inr ⟨d, hd, _, hk.1.trans (htarget d), hindex, .inl rfl⟩)
      fun _ hk => hk.elim
  rw [indexAll, each_map]
  refine ⟨each_induct (.refl _ _ t) fun u d hd hu => hu.trans (hworks u d hd),
    each_done (I := fun u => Works c stamp (fun _ _ _ => False) t u) (.refl _ _ t)
      (fun u d hd hu => hu.trans (hworks u d hd))
      (P := fun d u => IsIndexed (Indexer.ofConfig c) u (libraryAt c d))
      (fun u d hd hu => isIndexed_write (down_libraryAt h hd) hname (hu.isProper hproper) hindex) ?_⟩
  have hdistinct : c.moduleDirs.Pairwise fun d d' => d.address ≠ d'.address := by
    have hnodup := h.distinct
    rw [workDirs, List.map_append, List.nodup_append] at hnodup
    exact List.pairwise_map.1 hnodup.1
  refine hdistinct.imp_of_mem fun {d d'} hd hd' hne u hu hi => ?_
  refine hi.of_rewrites (down_libraryAt h hd) (hu.isProper hproper) hindex (hrewrites u d' hd')
    fun a k hk => ⟨fun hc => hne ?_, d'.address, hk.1.trans (htarget d')⟩
  rw [hk.1, htarget, htarget] at hc
  exact (List.append_inj' hc rfl).1.symm

end Index

/-- **In an indexed project** no index module is written. -/
theorem indexAll_of_isIndexed (h : IsSpread c stamp) (hname : IsFileName c.registry.indexFile)
    (hi : ∀ d ∈ c.moduleDirs, IsIndexed (Indexer.ofConfig c) t (libraryAt c d)) :
    (indexAll c t).1 = t ∧ ∀ e ∈ (indexAll c t).2.entries, e.outcome.isChange = false := by
  have hall : ∀ l ∈ c.moduleDirs.map (libraryAt c), ((Indexer.ofConfig c).write t l).1 = t
      ∧ ((Indexer.ofConfig c).write t l).2.outcome.isChange = false := by
    intro l hl
    obtain ⟨d, hd, rfl⟩ := List.mem_map.1 hl
    exact write_of_isIndexed (down_libraryAt h hd) hname (hi d hd)
  refine ⟨each_unchanged fun l hl => (hall l hl).1, fun e he => ?_⟩
  obtain ⟨l, hl, rfl⟩ := each_answers (fun l hl => (hall l hl).1) e he
  exact (hall l hl).2

end ElementModules.Project
