import ElementModules.Project.Conversion
import ElementModules.Project.Registration
import ElementModules.Proofs.Path.Relative
import ElementModules.Proofs.Tree.Preserving
import ElementModules.Proofs.Tree.Rewriting

/-!
# Work on the modules in a directory

A stage that works on modules takes those that lie directly in a directory. What it writes are new
texts for them, and copies of them at their paths below the root in the backup directory; no
directory is made but for the copies.

## Main results

* `eachModule_done`, `eachModule_unchanged`: what holds after every module was worked on.
* `repairModule_cases`, `rewrites_convertModule`: what repairing and converting a module does.
* `exists_backupPath_eq`, `convertModule_cases`: where a module is copied, and what becomes of it.
-/

namespace ElementModules.Project

open ElementModules.Tree Descriptor

variable {t t' : Tree} {p dir : Path} {r : Registry} {n : Text} {c : Content}

/-! ### Modules in a directory -/

/-- A module that lies directly in a directory and is not its index module. -/
structure IsModuleIn (r : Registry) (t : Tree) (d : Address) (n : Text) : Prop where
  isFile : ∃ c, t.get? (d ++ [n]) = some (.file c)
  isModuleName : Tree.isModuleName n = true
  ne_index : n ≠ r.indexFile

/-- A module in a directory that is listed. -/
def IsListedIn (r : Registry) (t : Tree) (d : Address) (n : Text) : Prop :=
  [n] ∈ t.moduleNames (moduleScope r) d

theorem exists_of_mem_moduleNames {d : Address} {names : List Text}
    (h : names ∈ t.moduleNames (moduleScope r) d) : ∃ n, names = [n] ∧ IsModuleIn r t d n := by
  obtain ⟨c, hc, hne, -, hreaches, -, n, hlast, hn, hskip⟩ := mem_moduleNames_iff_get?.1 h
  obtain ⟨ns, rfl⟩ := List.getLast?_eq_some_iff.1 hlast
  have hns : ns = [] := by
    simpa [Scope.reaches, moduleScope] using hreaches
  subst hns
  exact ⟨n, rfl, ⟨c, hc⟩, hn, by simpa [moduleScope] using hskip⟩

theorem IsListedIn.isModuleIn {d : Address} (h : IsListedIn r t d n) : IsModuleIn r t d n := by
  obtain ⟨m, hm, hmodule⟩ := exists_of_mem_moduleNames h
  exact List.singleton_inj.1 hm ▸ hmodule

theorem isListedIn_iff {d : Address} : IsListedIn r t d n ↔ IsModuleIn r t d n
    ∧ t.isListed d (d ++ [n]) = true ∧ leadsThroughSkipped [n] = false := by
  rw [IsListedIn, mem_moduleNames_iff_get?]
  constructor
  · rintro ⟨c, hc, -, hlisted, -, hskipped, m, hm, hname, hskip⟩
    obtain rfl : n = m := by simpa using hm
    exact ⟨⟨⟨c, hc⟩, hname, by simpa [moduleScope] using hskip⟩, hlisted, hskipped⟩
  · rintro ⟨⟨⟨c, hc⟩, hname, hindex⟩, hlisted, hskipped⟩
    exact ⟨c, hc, by simp, hlisted, by simp [Scope.reaches, moduleScope], hskipped, n, by simp, hname,
      by simpa [moduleScope] using hindex⟩

/-- If only modules are written, a module is listed in both trees or in none. -/
theorem isListedIn_of_rewrites {q : Address → Content → Prop} {w : Address → Prop}
    (h : Rewrites q w t t') {d : Address}
    (hq : ∀ a c, q a c → ∃ front n, a = front ++ [n] ∧ isModuleName n = true)
    (hc : t.get? (d ++ [n]) = some (.file c)) : IsListedIn r t' d n ↔ IsListedIn r t d n := by
  obtain ⟨c', hc', -⟩ := h.file hc
  rw [isListedIn_iff, isListedIn_iff, h.isListed_eq hq (by simp [hc])]
  refine and_congr_left fun _ => ⟨fun hm => ⟨⟨c, hc⟩, hm.isModuleName, hm.ne_index⟩,
    fun hm => ⟨⟨c', hc'⟩, hm.isModuleName, hm.ne_index⟩⟩

/-- The modules in a directory, each once. -/
theorem exists_moduleNames_eq (r : Registry) (t : Tree) (d : Address) : ∃ names : List Text,
    t.moduleNames (moduleScope r) d = names.map ([·]) ∧ names.Nodup := by
  have hsingle : (t.moduleNames (moduleScope r) d).map (fun names => [names.headD []])
      = t.moduleNames (moduleScope r) d := by
    refine (List.map_congr_left fun names hnames => ?_).trans (List.map_id _)
    obtain ⟨n, rfl, -⟩ := exists_of_mem_moduleNames hnames
    rfl
  have hnodup := nodup_moduleNames t (moduleScope r) d
  refine ⟨(t.moduleNames (moduleScope r) d).map (·.headD []), ?_, ?_⟩
  · rw [List.map_map]
    exact hsingle.symm
  · rw [← hsingle] at hnodup
    exact List.pairwise_map.2 ((List.pairwise_map.1 hnodup).imp fun hne he => hne (by rw [he]))

section EachModule

variable (stage : Stage) (r : Registry) (missing : Text) (f : Tree → Path → Tree × Entry)

theorem eachModule_of_not_isDir (h : t.isDir dir = false) : eachModule stage r missing f t dir
    = (t, ⟨stage, [⟨stage, dir, .skipped, some missing⟩]⟩) := by
  rw [eachModule, modulesIn, listable, h]
  rfl

variable {d : Address} (hl : t.locate dir = .ok d) (hd : t.get? d = some .dir)
include hl hd

/-- **Work on the modules in a directory** is done for one name after the other. -/
theorem exists_eachModule_eq : ∃ names : List Text, names.Nodup ∧ (∀ n, n ∈ names ↔ IsListedIn r t d n)
    ∧ eachModule stage r missing f t dir
      = ((t.each (fun u n => f u (dir.join ⟨n⟩)) names).1,
        ⟨stage, (t.each (fun u n => f u (dir.join ⟨n⟩)) names).2⟩) := by
  obtain ⟨names, hnames, hnodup⟩ := exists_moduleNames_eq r t d
  refine ⟨names, hnodup, fun n => by simp [IsListedIn, hnames], ?_⟩
  rw [eachModule, modulesIn, listable_eq_ok_iff.2 ⟨hl, hd⟩]
  simp only [Except.map, hnames, List.map_map, each_map]
  rfl

variable {stage r missing f}

/-- **What is achieved for every module** in a directory, if work on other modules keeps it and all
entries have a property. -/
theorem eachModule_done {G : Entry → Prop} {I : Tree → Prop} {P : Text → Tree → Prop}
    (hG : ∀ e ∈ (eachModule stage r missing f t dir).2.entries, G e) (hI : I t)
    (hstep : ∀ u n, IsListedIn r t d n → I u → G (f u (dir.join ⟨n⟩)).2 →
      I (f u (dir.join ⟨n⟩)).1 ∧ P n (f u (dir.join ⟨n⟩)).1)
    (hkeep : ∀ u n m, IsListedIn r t d n → IsListedIn r t d m → n ≠ m → I u →
      G (f u (dir.join ⟨m⟩)).2 → P n u → P n (f u (dir.join ⟨m⟩)).1) :
    I (eachModule stage r missing f t dir).1
      ∧ ∀ n, IsListedIn r t d n → P n (eachModule stage r missing f t dir).1 := by
  obtain ⟨names, hnodup, hnames, heq⟩ := exists_eachModule_eq stage r missing f hl hd
  rw [heq] at hG ⊢
  refine ⟨each_induct_of_answers hG hI fun u n hn hu hGn => (hstep u n ((hnames n).1 hn) hu hGn).1,
    fun n hn => each_done_of_answers hG hI
      (fun u n hn hu hGn => (hstep u n ((hnames n).1 hn) hu hGn).1)
      (fun u n hn hu hGn => (hstep u n ((hnames n).1 hn) hu hGn).2)
      (hnodup.imp_of_mem fun hn hm hne u hu hGm hP =>
        hkeep u _ _ ((hnames _).1 hn) ((hnames _).1 hm) hne hu hGm hP) n ((hnames n).2 hn)⟩

omit hl hd in
/-- If no module is changed, the tree stays as it is and no change is reported. -/
theorem eachModule_unchanged (h : ∀ d, t.locate dir = .ok d → ∀ n, IsListedIn r t d n →
      (f t (dir.join ⟨n⟩)).1 = t ∧ (f t (dir.join ⟨n⟩)).2.outcome.isChange = false) :
    (eachModule stage r missing f t dir).1 = t
      ∧ ∀ e ∈ (eachModule stage r missing f t dir).2.entries, e.outcome.isChange = false := by
  cases hdir : t.isDir dir with
  | false =>
    rw [eachModule_of_not_isDir stage r missing f hdir]
    refine ⟨rfl, fun e he => ?_⟩
    obtain rfl := List.mem_singleton.1 he
    rfl
  | true =>
    obtain ⟨d, hl, hd⟩ := isDir_iff.1 hdir
    obtain ⟨names, -, hnames, heq⟩ := exists_eachModule_eq stage r missing f hl hd
    have hall := fun n hn => h d hl n ((hnames n).1 hn)
    rw [heq]
    refine ⟨each_unchanged fun n hn => (hall n hn).1, fun e he => ?_⟩
    obtain ⟨n, hn, rfl⟩ := each_answers (fun n hn => (hall n hn).1) e he
    exact (hall n hn).2

end EachModule

/-! ### Repairs -/

theorem isElementFile_of_readText {s : Selector} {x : Text} (h : t.readText p = .ok x) :
    isElementFile s t p = .ok (s.isElement (fileIdOf p) x) := by
  rw [isElementFile, Selector.isElement]
  cases hd : s.decidedBy? (fileIdOf p) with
  | some b => rfl
  | none => simp [h]

/-- A module that a repair leaves as it is. -/
def IsRepaired (w : Registrar) (p : Path) (x : Text) : Prop :=
  ∀ out, repair (w.context p) x = .ok out → out = x

/-- **What a repair of a module does**: nothing if there is nothing to be repaired, or the repaired text
is written. -/
theorem repairModule_cases (w : Registrar) (t : Tree) (p : Path) :
    ((w.repairModule t p).1 = t ∧ (w.repairModule t p).2.outcome.isChange = false
        ∧ ∀ x, t.readText p = .ok x → w.selector.isElement (fileIdOf p) x = true → IsRepaired w p x)
      ∨ ∃ x out, t.readText p = .ok x ∧ w.selector.isElement (fileIdOf p) x = true
        ∧ repair (w.context p) x = .ok out ∧ out ≠ x
        ∧ t.writeText p out = .ok (w.repairModule t p).1 := by
  cases hread : t.readText p with
  | error e =>
    left
    have hat : w.repairAt t p = (t, .error (.read p e)) := by rw [Registrar.repairAt, hread]
    rw [Registrar.repairModule]
    cases isElementFile w.selector t p with
    | error e => exact ⟨rfl, rfl, by simp⟩
    | ok isElement =>
      cases isElement with
      | false => exact ⟨rfl, rfl, by simp⟩
      | true => simp [hat, Outcome.isChange]
  | ok x =>
    rw [Registrar.repairModule, isElementFile_of_readText hread]
    cases helement : w.selector.isElement (fileIdOf p) x with
    | false => simp [helement, Outcome.isChange]
    | true =>
      rw [Registrar.repairAt, hread]
      dsimp only
      cases hr : repair (w.context p) x with
      | error e => simp [IsRepaired, hr, Outcome.isChange]
      | ok out =>
        by_cases hsame : out = x
        · simp [IsRepaired, hr, hsame, Outcome.isChange]
        · obtain ⟨t', hw⟩ := exists_writeText hread out
          exact .inr ⟨x, out, rfl, helement, hr, hsame, by simp [hsame, hw]⟩

/-- An element module that is repaired already is not changed. -/
theorem repairModule_of_isRepaired {w : Registrar} (h : ∀ x, t.readText p = .ok x →
    w.selector.isElement (fileIdOf p) x = true → IsRepaired w p x) :
    (w.repairModule t p).1 = t ∧ (w.repairModule t p).2.outcome.isChange = false := by
  rcases repairModule_cases w t p with ⟨hsame, hcalm, -⟩ | ⟨x, out, hx, helement, hr, hne, -⟩
  · exact ⟨hsame, hcalm⟩
  · exact absurd (h x hx helement out hr) hne

/-! ### Conversions -/

/-- **Where a module is copied**: to the place that it has below the root, seen from the backup
directory. -/
theorem exists_backupPath_eq {v : Converter} {q : Path} {root d : Address}
    (hroot : v.root.goal = .ok root) (hne : v.root.text ≠ []) (hq : q.goal = .ok d) (hn : IsFileName n)
    (b : Path) :
    ∃ s, v.backupPath b ((v.root.join q).join ⟨n⟩) = b.join s ∧ s.goal = .ok (d ++ [n]) := by
  obtain ⟨hrelative, hsteps⟩ := Path.goal_eq_ok_iff.1 hq
  have hgoal := goal_join hn (Path.goal_join hne hroot hq)
  have hcomponents : ((v.root.join q).join ⟨n⟩).components
      = v.root.components ++ (q.steps ++ [.name n]) := by
    rw [hn.components_join, Path.components_join hrelative hne, List.append_assoc]
  obtain ⟨s, hs⟩ := Path.exists_relativeTo? (hcomponents ▸ List.prefix_append v.root.components _)
  obtain ⟨-, hs'⟩ := Path.components_of_relativeTo? (Path.goal_eq_ok_iff.1 hgoal).1 hs
  rw [hcomponents, List.append_cancel_left_eq] at hs'
  refine ⟨s, by rw [Converter.backupPath, hs], ?_⟩
  rw [Path.goal, ← hs', List.foldlM_append, hsteps]
  exact congrArg (fun a => a >>= pure) (step_name hn.size_le)

/-- What the copy of a module writes. -/
theorem rewrites_backUp (v : Converter) (t : Tree) (p : Path) :
    Rewrites (fun a _ => ∃ b ∈ v.backupDir, (v.backupPath b p).goal = .ok a)
      (fun a => ∃ b ∈ v.backupDir, (v.backupPath b p).LeadsThrough a) t (v.backUp t p).1 := by
  unfold Converter.backUp
  split
  · exact .refl _ _ t
  next b hbackup =>
    have hmem : b ∈ v.backupDir := hbackup
    have hparents : Rewrites (fun a _ => ∃ b ∈ v.backupDir, (v.backupPath b p).goal = .ok a)
        (fun a => ∃ b ∈ v.backupDir, (v.backupPath b p).LeadsThrough a) t
        (t.makeParents (v.backupPath b p)).1 :=
      (Rewrites.of_addsDirs (addsDirs_makeParents_of_leadsThrough t _)).mono
        (fun _ _ hc => hc.elim) fun a ha => ⟨b, hmem, ha⟩
    dsimp only
    split
    next t₁ e hmade =>
      rw [hmade] at hparents
      exact hparents
    next t₁ hmade =>
      rw [hmade] at hparents
      split
      next t₂ hcopied =>
        obtain ⟨c, -, hw⟩ := copyFile_eq_ok hcopied
        exact hparents.trans ((Rewrites.of_write hw).mono
          (fun a _ ha => ⟨b, hmem, ha.1⟩) fun _ hc => hc.elim)
      · exact hparents

/-- What a conversion writes: a text for the module, and its copy. -/
theorem rewrites_convertModule (v : Converter) (l : Library) (t : Tree) (p : Path) :
    Rewrites (fun a c => p.goal = .ok a ∧ (∃ x, c = .text x)
        ∨ ∃ b ∈ v.backupDir, (v.backupPath b p).goal = .ok a)
      (fun a => ∃ b ∈ v.backupDir, (v.backupPath b p).LeadsThrough a) t (v.convertModule l t p).1 := by
  have hcopy : Rewrites (fun a c => p.goal = .ok a ∧ (∃ x, c = .text x)
        ∨ ∃ b ∈ v.backupDir, (v.backupPath b p).goal = .ok a)
      (fun a => ∃ b ∈ v.backupDir, (v.backupPath b p).LeadsThrough a) t (v.backUp t p).1 :=
    (rewrites_backUp v t p).mono (fun _ _ h => .inr h) fun _ => id
  show Rewrites _ _ t (v.treat l t p).1
  unfold Converter.treat
  split
  · exact .refl _ _ t
  · split
    next out conversion _ =>
      split
      next t₁ e hcopied =>
        rw [hcopied] at hcopy
        exact hcopy
      next t₁ hcopied =>
        rw [hcopied] at hcopy
        split
        next t₂ hwritten =>
          exact hcopy.trans ((Rewrites.of_write hwritten).mono
            (fun a c hc => .inl ⟨hc.1, out, hc.2⟩) fun _ hc => hc.elim)
        · exact hcopy
    · exact .refl _ _ t

/-- A copy that was made holds what the module holds. -/
theorem get?_of_backUp {v : Converter} {b : Path} {a : Address} (hb : v.backupDir = some b)
    (h : v.backUp t p = (t', .ok ())) (ha : p.goal = .ok a) (hc : t.get? a = some (.file c)) :
    ∃ k, (v.backupPath b p).goal = .ok k ∧ t'.get? k = some (.file c) := by
  have hparents := addsDirs_makeParents_of_leadsThrough t (v.backupPath b p)
  rw [Converter.backUp, hb] at h
  dsimp only at h
  split at h
  · cases h
  next u hmade =>
    rw [hmade] at hparents
    split at h
    next hcopied =>
      obtain ⟨rfl, -⟩ := Prod.mk.inj h
      obtain ⟨c', hnode, hw⟩ := copyFile_eq_ok hcopied
      obtain ⟨a', hl, hc', -⟩ := node_eq_ok_iff.1 hnode
      obtain rfl := Except.ok.inj ((goal_of_locate hl).symm.trans ha)
      rw [hparents.keeps (fun _ => True) _ trivial _ hc] at hc'
      obtain rfl := Node.file.inj (Option.some.inj hc')
      obtain ⟨k, hk, -, hget⟩ := writeFile_eq_ok hw
      exact ⟨k, goal_of_locate hk, by rw [hget, if_pos rfl]⟩
    · cases h

/-- **What a conversion does to its module**: nothing, or it replaces the text and leaves a copy. -/
theorem convertModule_cases {v : Converter} {b : Path} {a : Address} (hb : v.backupDir = some b)
    (ha : p.goal = .ok a) (hapart : (v.backupPath b p).goal ≠ .ok a) (l : Library) (t : Tree) :
    (v.convertModule l t p).1.get? a = t.get? a
      ∨ ∃ x y m k, v.treatment l p x = .replace y m ∧ t.get? a = some (.file (.text x))
        ∧ (v.convertModule l t p).1.get? a = some (.file (.text y))
        ∧ (v.backupPath b p).goal = .ok k
        ∧ (v.convertModule l t p).1.get? k = some (.file (.text x)) := by
  have hcopy : ∀ c, t.get? a = some (.file c) → (v.backUp t p).1.get? a = t.get? a := by
    intro c hc
    rcases rewrites_backUp v t p a with h | ⟨-, ⟨-, _, ⟨b', hb', hgoal⟩, -⟩ | ⟨-, hnone, -⟩⟩
    · exact h
    · rw [hb] at hb'
      obtain rfl := Option.some.inj hb'
      exact absurd hgoal hapart
    · rw [hc] at hnone
      cases hnone
  show (v.treat l t p).1.get? a = _ ∨ ∃ x y m k, _ ∧ _ ∧ (v.treat l t p).1.get? a = _ ∧ _
    ∧ (v.treat l t p).1.get? k = _
  unfold Converter.treat
  split
  · exact .inl rfl
  next x hread =>
    obtain ⟨a', hl, hx⟩ := readText_eq_ok hread
    obtain rfl := Except.ok.inj ((goal_of_locate hl).symm.trans ha)
    replace hcopy := hcopy _ hx
    split
    next y m htreatment =>
      split
      next hcopied =>
        rw [hcopied] at hcopy
        exact .inl hcopy
      next hcopied =>
        obtain ⟨k, hk, hget⟩ := get?_of_backUp hb hcopied ha hx
        split
        next hwritten =>
          obtain ⟨a'', hl', -, hput⟩ := writeFile_eq_ok hwritten
          obtain rfl := Except.ok.inj ((goal_of_locate hl').symm.trans ha)
          refine .inr ⟨x, y, m, k, htreatment, hx, by rw [hput, if_pos rfl], hk, ?_⟩
          rw [hput, if_neg, hget]
          rintro rfl
          exact hapart hk
        · rw [hcopied] at hcopy
          exact .inl hcopy
    · exact .inl rfl

/-- A module that exports a descriptor if it is an element module is not changed. -/
theorem convertModule_of_exportsDescriptor {v : Converter} {l : Library}
    (h : ∀ x, t.readText p = .ok x → v.selector.isElement (fileIdOf p) x = true →
      Script.exportsDescriptor x = true) :
    (v.convertModule l t p).1 = t ∧ (v.convertModule l t p).2.outcome.isChange = false := by
  have htreat : v.treat l t p = (t, .ok .notElement) ∨ v.treat l t p = (t, .ok .canonical)
      ∨ ∃ e, v.treat l t p = (t, .error e) := by
    rw [Converter.treat]
    cases hx : t.readText p with
    | error e => exact .inr (.inr ⟨_, rfl⟩)
    | ok x =>
      cases helement : v.selector.isElement (fileIdOf p) x with
      | false => exact .inl (by simp [Converter.treatment, helement])
      | true =>
        have hc : ∀ c, convert? c x = none := fun c => by rw [convert?, if_pos (h x hx helement)]
        exact .inr (.inl (by simp [Converter.treatment, helement, hc]))
  rw [Converter.convertModule]
  rcases htreat with h | h | ⟨e, h⟩ <;> rw [h] <;> exact ⟨rfl, rfl⟩

end ElementModules.Project
