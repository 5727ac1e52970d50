import ElementModules.Proofs.Path.Relative
import ElementModules.Proofs.Project.Preserving
import ElementModules.Proofs.Project.Rearranging
import ElementModules.Proofs.Tree.History

/-!
# What an arrangement does to files

An arrangement is a history of events that its report and its plan account for: what moves is named by
an entry, what is written is a stub, and what goes is an empty directory below that of a library
(`IsAccounted`). So no file is lost or overwritten.

For that, a place where nothing is found must be one where nothing stands once the directories above it
were made. This is not so for a path that goes through a directory that is not there and up again: such
a path leads nowhere at first, and then to what stood there all the time. The places of a plan must
not go up.

## Main results

* `accounted_relocate`, `accounted_placeStub`, `accounted_flatten`: the steps of an arrangement.
* `arrange_loses_nothing`: what becomes of the files and directories of a project.
-/

namespace ElementModules.Project

open ElementModules.Tree

variable {t t' u v : Tree} {p s d : Path} {a : Address} {l : Library} {stubs : List Stub}
  {libraries : List Library} {es es' : List Entry} {P Q : Event → Prop}

/-! ### Histories of permitted events -/

/-- One tree comes from another one by events with a property. -/
def Does (P : Event → Prop) (t t' : Tree) : Prop := ∃ es, History t es t' ∧ ∀ e ∈ es, P e

namespace Does

theorem refl (P : Event → Prop) (t : Tree) : Does P t t := ⟨[], .refl t, by simp⟩

theorem single {e : Event} (hP : P e) (h : e.IsPossible t) (hget : ∀ x, u.get? x = e.after t x) :
    Does P t u := ⟨[e], .single h hget, by simpa using hP⟩

theorem trans (h : Does P t u) (h' : Does P u v) : Does P t v := by
  obtain ⟨es, hes, hP⟩ := h
  obtain ⟨es', hes', hP'⟩ := h'
  exact ⟨es ++ es', hes.trans hes', fun e he => (List.mem_append.1 he).elim (hP e) (hP' e)⟩

theorem mono (h : Does P t u) (hPQ : ∀ e, P e → Q e) : Does Q t u := by
  obtain ⟨es, hes, hP⟩ := h
  exact ⟨es, hes, fun e he => hPQ e (hP e he)⟩

end Does

/-! ### Directories that are made -/

/-- An event by which a directory is made. -/
def IsMade (e : Event) : Prop := ∃ a, e = .made a

theorem does_mkdir (h : t.mkdir p = .ok t') : Does IsMade t t' := by
  obtain ⟨a, -, hnone, hget⟩ := mkdir_eq_ok h
  exact .single ⟨a, rfl⟩ hnone hget

theorem does_makeDirs (t : Tree) (p : Path) : Does IsMade t (t.makeDirs p).1 :=
  makeChain_induct (.refl _) (fun _ _ _ => .trans) (fun _ _ _ _ => does_mkdir) t

theorem does_makeParents (t : Tree) (p : Path) : Does IsMade t (t.makeParents p).1 := by
  rw [makeParents]
  split
  · exact does_makeDirs t _
  · exact .refl _ t

/-- No file appears when directories are made. -/
theorem Does.file_of_made (h : Does IsMade t u) {c : Content} (hc : u.get? a = some (.file c)) :
    t.get? a = some (.file c) := by
  obtain ⟨es, hes, hmade⟩ := h
  rcases hes.origin hc with ⟨y, hy, hcarry⟩ | ⟨before, b, later, rfl, -⟩
  · have hstays : ∀ z, Event.moved y z ∉ es := fun z hz => by
      obtain ⟨x, hx⟩ := hmade _ hz
      cases hx
    rwa [← hcarry, History.carry_eq_self hstays]
  · obtain ⟨x, hx⟩ := hmade (.wrote b c) (by simp)
    cases hx

/-- Where no file was found at a steady path, none stands after the directories above it were made. -/
theorem get?_of_steady (hsteady : IsSteady t p) (hfree : t.hasNode p = false)
    (hr : p.requiresDirectory = false) (hl : (t.makeParents p).1.locate p = .ok a)
    (hdir : (t.makeParents p).1.get? a ≠ some .dir) : (t.makeParents p).1.get? a = none := by
  cases hg : (t.makeParents p).1.get? a with
  | none => rfl
  | some n =>
    cases n with
    | dir => exact absurd hg hdir
    | file c =>
      have hc := (does_makeParents t p).file_of_made hg
      have hnode := hasNode_iff.2 (.inr (isFile_iff.2 ⟨a, c, hsteady _ a _ hl hc, hc, hr⟩))
      rw [hfree] at hnode
      cases hnode

/-! ### Events that are accounted for -/

/-- What entries, stubs and libraries account for: what moves is named by an entry, what is written is
a stub, and what goes lies below a library. -/
def IsAccounted (es : List Entry) (stubs : List Stub) (libraries : List Library) : Event → Prop
  | .made _ => True
  | .moved a _ => ∃ e ∈ es, e.outcome = .moved ∧ e.path.goal = .ok a
  | .wrote _ c => ∃ b ∈ stubs, c = .text b.body
  | .removed a => ∃ l ∈ libraries, ∃ d, l.dir.goal = .ok d ∧ IsBelow d a

theorem IsAccounted.mono (h : ∀ e ∈ es, e ∈ es') (e : Event)
    (he : IsAccounted es stubs libraries e) : IsAccounted es' stubs libraries e := by
  cases e with
  | moved a b =>
    obtain ⟨entry, hmem, hentry⟩ := he
    exact ⟨entry, h _ hmem, hentry⟩
  | made a | wrote a c | removed a => exact he

theorem isAccounted_of_isMade (e : Event) (he : IsMade e) : IsAccounted es stubs libraries e := by
  obtain ⟨a, rfl⟩ := he
  trivial

theorem accounted_placeDir (t : Tree) (p : Path) :
    Does (IsAccounted es stubs libraries) t (placeDir t p).1 := by
  rw [placeDir_fst]
  split_ifs
  · exact .refl _ t
  · exact (does_makeDirs t _).mono isAccounted_of_isMade

/-- **A file that moves** goes to a place where nothing stands. -/
theorem accounted_relocate (hsteady : IsSteady t d) :
    Does (IsAccounted [(relocate t s d).2] stubs libraries) t (relocate t s d).1 := by
  rw [relocate]
  split_ifs with hfile hnode
  · exact .refl _ t
  · exact .refl _ t
  · rw [Bool.not_eq_true] at hnode
    rw [Bool.not_eq_true', Bool.not_eq_false] at hfile
    have hmade := does_makeParents t d
    have hkeeps := keepsDirs_makeParents t d
    have hfree := @get?_of_steady t d
    rw [moveFile]
    cases hm : t.makeParents d with
    | mk t₁ r =>
      rw [hm] at hmade hkeeps
      cases r with
      | error e => exact hmade.mono isAccounted_of_isMade
      | ok _ =>
        cases hr : t₁.rename s d with
        | error e => simpa [hr] using hmade.mono isAccounted_of_isMade
        | ok t₂ =>
          simp only [hr]
          refine (hmade.mono isAccounted_of_isMade).trans ?_
          rcases rename_eq_ok hr with rfl | ⟨a, b, c, hs, hd, ha, hb, hplace, -, hget⟩
          · exact .refl _ _
          · have hnone : t₁.get? b = none := by
              have hfree := @hfree b hsteady hnode hplace
              rw [hm] at hfree
              exact hfree hd hb
            refine .single (e := .moved a b) ⟨_, List.mem_singleton_self _, rfl, goal_of_locate hs⟩
              ⟨⟨c, ha⟩, hnone⟩ fun x => ?_
            rw [hget, Event.after, ha]

theorem requiresDirectory_of_writeFile {c : Content} (h : t.writeFile p c = .ok t') :
    p.requiresDirectory = false := by
  rw [writeFile] at h
  split at h
  · cases h
  · split at h
    · cases h
    all_goals
      split at h
      · cases h
      next hr => exact Bool.eq_false_iff.2 hr

/-- **A stub that is written** is written where nothing stands. -/
theorem accounted_placeStub {b : Stub} (hb : b ∈ stubs) (hsteady : IsSteady t p) :
    Does (IsAccounted es stubs libraries) t (placeStub t p b.body).1 := by
  rw [placeStub_fst]
  split_ifs with hnode
  · exact .refl _ t
  · rw [Bool.not_eq_true] at hnode
    have hmade := does_makeParents t p
    have hfree := @get?_of_steady t p
    rw [writeNew]
    cases hm : t.makeParents p with
    | mk t₁ r =>
      rw [hm] at hmade
      cases r with
      | error e => exact hmade.mono isAccounted_of_isMade
      | ok _ =>
        cases hw : t₁.writeText p b.body with
        | error e => simpa [hw] using hmade.mono isAccounted_of_isMade
        | ok t₂ =>
          simp only [hw]
          obtain ⟨a, hl, hdir, hget⟩ := writeFile_eq_ok hw
          have hnone : t₁.get? a = none := by
            have hfree := @hfree a hsteady hnode (requiresDirectory_of_writeFile hw)
            rw [hm] at hfree
            exact hfree hl hdir
          exact (hmade.mono isAccounted_of_isMade).trans
            (.single (e := .wrote a (.text b.body)) ⟨b, hb, rfl⟩ hnone hget)

/-! ### Libraries -/

/-- **Flattening a library** is accounted for by the entries that it gives. -/
theorem accounted_flatten (stubs : List Stub) (hl : l ∈ libraries) (hproper : t.IsProper) :
    (flatten t l).1.IsProper
      ∧ Does (IsAccounted (flatten t l).2.entries stubs libraries) t (flatten t l).1 := by
  have hrefl : ∀ es, Does (IsAccounted es stubs libraries) t t := fun es => .refl _ t
  refine flatten_induct
    (P := fun u es => u.IsProper ∧ Does (IsAccounted es stubs libraries) t u)
    ⟨hproper, hrefl _⟩ (fun _ => ⟨hproper, hrefl _⟩) (fun u d names es hloc hd hkeeps hu _ _ => ?_)
    fun u v d names es hloc ⟨_, hu⟩ hv hnames => ?_
  · refine ⟨(keepsDirs_flattenModule l u _).isProper hu.1, ?_⟩
    refine (hu.2.mono (IsAccounted.mono fun _ => List.mem_append_left _)).trans ?_
    rw [flattenModule, Library.flattenedPath?]
    cases hname : (extendPath l.dir names).fileName? with
    | none => exact .refl _ u
    | some n =>
      have hdir : u.isDir l.dir = true := hkeeps.isDir (isDir_iff.2 ⟨d, hloc, hd⟩)
      exact (accounted_relocate (isSteady_join hdir (Path.isDown_of_fileName? hname))).mono
        (IsAccounted.mono fun _ => List.mem_append_right _)
  · obtain ⟨hg, hne, -⟩ := mem_dirNames_iff_get?.1 hnames
    have hfile : ∀ n ∈ names, IsFileName n := fun n hn =>
      hu.1 _ _ hg n (List.mem_append_right _ hn)
    have hbefore := hv.2.mono
      (IsAccounted.mono fun _ => List.mem_append_left (prune v (extendPath l.dir names)).2.toList)
    rcases prune_extendPath_cases hloc hfile with he | ⟨hdir, hempty, he⟩
    · rw [he]
      exact ⟨hv.1, hbefore⟩
    · have hget := get?_remove hempty (by simp [hne])
      rw [he]
      refine ⟨fun x n hx => ?_, hbefore.trans (.single (e := .removed (d ++ names))
        ⟨l, hl, d, goal_of_locate hloc, isBelow_append hne⟩ ⟨hdir, hempty⟩ hget)⟩
      rw [hget] at hx
      split_ifs at hx
      exact hv.1 x n hx

/-! ### Arrangements -/

/-- The entries of a report, if there is one. -/
def reported : Except LayoutError StageReport → List Entry
  | .ok r => r.entries
  | .error _ => []

/-- Operations one after the other are accounted for by their entries together. -/
theorem accounted_each {α : Type} (f : Tree → α → Tree × Entry) (as : List α)
    (h : KeepsDirs t u ∧ Does (IsAccounted es stubs libraries) t u)
    (hstep : ∀ v, KeepsDirs t v → ∀ x ∈ as, KeepsDirs v (f v x).1
      ∧ Does (IsAccounted [(f v x).2] stubs libraries) v (f v x).1) :
    KeepsDirs t (u.each f as).1
      ∧ Does (IsAccounted (es ++ (u.each f as).2) stubs libraries) t (u.each f as).1 := by
  refine each_induct_answers (P := fun v bs =>
    KeepsDirs t v ∧ Does (IsAccounted (es ++ bs) stubs libraries) t v)
    (by rwa [List.append_nil]) fun v bs x hx hv => ?_
  obtain ⟨hkeeps, hdoes⟩ := hstep v hv.1 x hx
  rw [← List.append_assoc]
  exact ⟨hv.1.trans hkeeps, (hv.2.mono (IsAccounted.mono fun _ => List.mem_append_left _)).trans
    (hdoes.mono (IsAccounted.mono fun _ => List.mem_append_right _))⟩

theorem accounted_flattenAll (hproper : u.IsProper) (h : Does (IsAccounted es stubs libraries) t u) :
    Does (IsAccounted (es ++ (u.each flatten libraries).2.flatMap StageReport.entries) stubs libraries)
      t (u.each flatten libraries).1 := by
  refine (each_induct_answers (P := fun v bs => v.IsProper
    ∧ Does (IsAccounted (es ++ bs.flatMap StageReport.entries) stubs libraries) t v)
    ⟨hproper, by rwa [List.flatMap_nil, List.append_nil]⟩ fun v bs l hl hv => ?_).2
  obtain ⟨hp, hdoes⟩ := accounted_flatten stubs hl hv.1
  rw [List.flatMap_append, ← List.append_assoc, List.flatMap_singleton]
  exact ⟨hp, (hv.2.mono (IsAccounted.mono fun _ => List.mem_append_left _)).trans
    (hdoes.mono (IsAccounted.mono fun _ => List.mem_append_right _))⟩

variable {plan : LayoutPlan}

/-- **An arrangement** is a history that its report and its plan account for. -/
theorem accounted_arrange (s : Path) (libraries : List Library) (hproper : t.IsProper)
    (htargets : ∀ r ∈ plan.relocations, r.target.IsDown) (hstubs : ∀ b ∈ plan.stubs, b.path.IsDown) :
    Does (IsAccounted (reported (arrange t s plan libraries).2) plan.stubs libraries) t
      (arrange t s plan libraries).1 := by
  unfold arrange
  split
  · exact .refl _ t
  next hroot =>
    rw [Bool.not_eq_true', Bool.not_eq_false] at hroot
    have hsteady : ∀ {v : Tree} {q : Path}, KeepsDirs t v → q.IsDown → IsSteady v (s.join q) :=
      fun hv hq => isSteady_join (hv.isDir hroot) hq
    have hstart : KeepsDirs t t ∧ Does (IsAccounted [] plan.stubs libraries) t t :=
      ⟨.refl t, .refl _ t⟩
    have hdirs := accounted_each placeDir (plan.directories.map s.join) hstart
      fun v _ p _ => ⟨keepsDirs_placeDir v p, accounted_placeDir v p⟩
    have hmoves := accounted_each (fun t r => relocate t (s.join r.source) (s.join r.target))
      plan.relocations hdirs fun v hv r hr =>
        ⟨keepsDirs_relocate v _ _, accounted_relocate (hsteady hv (htargets r hr))⟩
    have hlaid := accounted_each (fun t (b : Stub) => placeStub t (s.join b.path) b.body)
      plan.stubs hmoves fun v hv b hb =>
        ⟨keepsDirs_placeStub v _ _, accounted_placeStub hb (hsteady hv (hstubs b hb))⟩
    exact accounted_flattenAll (hlaid.1.isProper hproper) hlaid.2

/-- What became of the files and directories of a tree, told by a history. -/
structure LosesNothing (events : List Event) (t t' : Tree) (es : List Entry) (stubs : List Stub)
    (libraries : List Library) : Prop where
  history : History t events t'
  /-- No file is lost, and no two become one. -/
  carries : CarriesFiles (carry events) t t'
  /-- A file stays where it is unless an entry says that it moved. -/
  stays : ∀ a c, t.get? a = some (.file c) →
    (∀ e ∈ es, e.outcome = .moved → e.path.goal ≠ .ok a) → carry events a = a
  /-- A file that was not there is a stub, written where nothing stood at that moment. -/
  written : ∀ b c, t'.get? b = some (.file c) →
    (∃ a d, t.get? a = some (.file d) ∧ carry events a = b)
      ∨ ∃ before a later u, events = before ++ .wrote a c :: later ∧ carry later a = b
        ∧ History t before u ∧ u.get? a = none ∧ ∃ x ∈ stubs, c = .text x.body
  /-- A directory that is gone was empty at that moment, and it lay below that of a library. -/
  gone : ∀ a, t.get? a = some .dir → t'.get? a ≠ some .dir →
    ∃ before later u, events = before ++ .removed a :: later
      ∧ History t before u ∧ u.get? a = some .dir ∧ u.hasChildren a = false
      ∧ ∃ l ∈ libraries, ∃ d, l.dir.goal = .ok d ∧ IsBelow d a

/-- **An arrangement loses and overwrites nothing** if no place of its plan goes up. -/
theorem arrange_loses_nothing (hproper : t.IsProper)
    (htargets : ∀ r ∈ plan.relocations, r.target.IsDown) (hstubs : ∀ b ∈ plan.stubs, b.path.IsDown) :
    ∃ events, LosesNothing events t (arrange t s plan libraries).1
      (reported (arrange t s plan libraries).2) plan.stubs libraries := by
  obtain ⟨events, hhistory, haccounted⟩ :=
    accounted_arrange s libraries hproper htargets hstubs
  refine ⟨events, hhistory, hhistory.carriesFiles, fun a c _ hno => ?_, fun b c hb => ?_,
    fun a ha hgone => ?_⟩
  · refine History.carry_eq_self fun b hb => ?_
    obtain ⟨e, he, hmoved, hgoal⟩ := haccounted _ hb
    exact hno e he hmoved hgoal
  · rcases hhistory.origin hb with ⟨a, ha, hcarry⟩ | ⟨before, a, later, rfl, hcarry⟩
    · exact .inl ⟨a, c, ha, hcarry⟩
    · obtain ⟨u, hu, hnone⟩ := hhistory.exists_moment
      have hstub := haccounted (.wrote a c) (by simp)
      exact .inr ⟨before, a, later, u, rfl, hcarry, hu, hnone, hstub⟩
  · obtain ⟨before, later, rfl⟩ := (hhistory.dir_or_removed ha).resolve_left hgone
    obtain ⟨u, hu, hdir, hempty⟩ := hhistory.exists_moment
    have hlibrary := haccounted (.removed a) (by simp)
    exact ⟨before, later, u, rfl, hu, hdir, hempty, hlibrary⟩

theorem arrange_loses_nothing_nestedProject :
    (nestedProject.IsProper ∧ (∀ r ∈ smallPlan.relocations, r.target.IsDown)
        ∧ ∀ b ∈ smallPlan.stubs, b.path.IsDown)
      ∧ ∃ events, LosesNothing events nestedProject
        (arrange nestedProject "src" smallPlan [⟨"lib", "src/../lib"⟩]).1
        (reported (arrange nestedProject "src" smallPlan [⟨"lib", "src/../lib"⟩]).2) smallPlan.stubs
        [⟨"lib", "src/../lib"⟩] := by
  have hproper : nestedProject.IsProper := isProper_iff.2 (by decide)
  have htargets : ∀ r ∈ smallPlan.relocations, r.target.IsDown := by decide
  have hstubs : ∀ b ∈ smallPlan.stubs, b.path.IsDown := by decide
  exact ⟨⟨hproper, htargets, hstubs⟩, arrange_loses_nothing hproper htargets hstubs⟩

/-- A project with two services. -/
def twoServices : Tree where
  nodes := [(["src"], .dir), (["src", "a.js"], .file (.text "a")), (["src", "y.js"], .file (.text "y"))]
  distinct := by decide
  closed := by decide

/-- A plan whose move goes through a directory that is not there, and up again. -/
def detourPlan : LayoutPlan where
  directories := []
  relocations := [⟨"a.js", "x/../y.js"⟩]
  stubs := []

/-- The move overwrites the other service. -/
theorem arrange_overwrites :
    twoServices.IsProper ∧ ¬ ∃ σ, CarriesFiles σ twoServices
      (arrange twoServices "src" detourPlan []).1 := by
  refine ⟨isProper_iff.2 (by decide), ?_⟩
  rintro ⟨σ, hσ⟩
  have hfile := hσ.file ["src", "y.js"] (.text "y") (by decide)
  have hlost : ∀ e ∈ (arrange twoServices "src" detourPlan []).1.nodes, e.2 ≠ .file (.text "y") := by
    decide
  refine hlost _ (mem_of_get? hfile fun hnil => ?_) rfl
  rw [hnil] at hfile
  cases hfile

end ElementModules.Project
