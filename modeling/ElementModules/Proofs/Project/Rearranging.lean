import ElementModules.Proofs.Project.Flattening
import ElementModules.Proofs.Project.Placing

/-!
# Arranging a project again

An arrangement is done step by step, and each step may undo what an earlier one did: a file moves
away from where an earlier move put it, or a directory that was made is empty and goes. A project is
**in order** (`IsOrderly`) if no step does: nothing moves away from a place or from the way to one,
nothing that a step names lies below the directory of a library, and no directory in that of a library
has the name of a module. Then the arrangement is done after one run, and a second one changes nothing.

Every step is settled once it was carried out: in any later tree it changes nothing, as long as the
nodes that steps rely on stand, and no file came to a place from which one moves (`Follows`). The
steps themselves only lead to such trees, so all of them are settled in the end.

## Main results

* `arrange_arrange`: arranging a project in order again changes nothing.
* `isArranged_arrange`, `arrange_of_isArranged`, `IsArranged.of_follows`: arranged trees.
-/

namespace ElementModules.Project

open ElementModules.Tree

variable {t t' t'' : Tree} {s p : Path} {plan : LayoutPlan} {libraries : List Library}

/-! ### What steps rely on -/

/-- Where an arrangement puts something. -/
def places (s : Path) (plan : LayoutPlan) : List Path :=
  plan.directories.map s.join ++ plan.relocations.map (fun r => s.join r.target)
    ++ plan.stubs.map (fun b => s.join b.path)

/-- Where an arrangement takes something away. -/
def sources (s : Path) (plan : LayoutPlan) : List Path :=
  plan.relocations.map fun r => s.join r.source

theorem target_mem {r : Relocation} (h : r ∈ plan.relocations) : s.join r.target ∈ places s plan :=
  List.mem_append_left _ (List.mem_append_right _
    (List.mem_map_of_mem (f := fun r => s.join r.target) h))

theorem source_mem {r : Relocation} (h : r ∈ plan.relocations) : s.join r.source ∈ sources s plan :=
  List.mem_map_of_mem (f := fun r => s.join r.source) h

theorem stub_mem {b : Stub} (h : b ∈ plan.stubs) : s.join b.path ∈ places s plan :=
  List.mem_append_right _ (List.mem_map_of_mem (f := fun b => s.join b.path) h)

/-- A project in which no step of an arrangement undoes what another one does. -/
structure IsOrderly (t : Tree) (s : Path) (plan : LayoutPlan) (libraries : List Library) : Prop where
  /-- All names are names of files. -/
  proper : t.IsProper
  /-- No path leads to the directory above. -/
  down : ∀ p ∈ places s plan ++ sources s plan ++ libraries.map Library.dir, p.IsDown
  /-- Nothing moves away from a place or from the way to it. -/
  free : ∀ p ∈ sources s plan, ∀ q ∈ places s plan, ¬ p.address <+: q.address
  /-- Nothing that is named lies below the directory of a library. -/
  outside : ∀ l ∈ libraries, ∀ p ∈ places s plan ++ sources s plan ++ libraries.map Library.dir,
    ¬ IsBelow l.dir.address p.address
  /-- No directory in that of a library has the name of a module. -/
  clear : ∀ l ∈ libraries, ∀ n, t.get? (l.dir.address ++ [n]) = some .dir → isModuleName n = false

instance : Decidable (IsOrderly t s plan libraries) :=
  decidable_of_iff ((∀ e ∈ t.nodes, ∀ x ∈ e.1, IsFileName x)
      ∧ (∀ p ∈ places s plan ++ sources s plan ++ libraries.map Library.dir, p.IsDown)
      ∧ (∀ p ∈ sources s plan, ∀ q ∈ places s plan, ¬ p.address <+: q.address)
      ∧ (∀ l ∈ libraries, ∀ p ∈ places s plan ++ sources s plan ++ libraries.map Library.dir,
          ¬ IsBelow l.dir.address p.address)
      ∧ ∀ l ∈ libraries, ∀ e ∈ t.nodes, e.2 = .dir → e.1.dropLast = l.dir.address →
          isModuleName (e.1.getLastD []) = false)
    ⟨fun ⟨h₁, h₂, h₃, h₄, h₅⟩ =>
      ⟨isProper_iff.2 h₁, h₂, h₃, h₄, fun l hl => forall_dir_in_iff.2 (h₅ l hl)⟩,
    fun ⟨h₁, h₂, h₃, h₄, h₅⟩ =>
      ⟨isProper_iff.1 h₁, h₂, h₃, h₄, fun l hl => forall_dir_in_iff.1 (h₅ l hl)⟩⟩

/-- The built-in plan with the built-in libraries is in order in every tree. -/
theorem isOrderly_builtin (hproper : t.IsProper)
    (hclear : ∀ l ∈ ({} : Config).resolvedLibraries, ∀ n,
      t.get? (l.dir.address ++ [n]) = some .dir → isModuleName n = false) :
    IsOrderly t ({} : Config).servicesRoot {} ({} : Config).resolvedLibraries where
  proper := hproper
  down := by decide
  free := by decide
  outside := by decide
  clear := hclear

/-- A later tree: places and the ways to them stand as before, and no file came to where one is taken
away. -/
structure Follows (s : Path) (plan : LayoutPlan) (t t' : Tree) : Prop where
  keeps : ∀ p ∈ places s plan, Keeps (· <+: p.address) t t'
  source : ∀ p ∈ sources s plan, ∀ c, t'.get? p.address = some (.file c) →
    t.get? p.address = some (.file c)

theorem Follows.refl (s : Path) (plan : LayoutPlan) (t : Tree) : Follows s plan t t where
  keeps _ _ := .refl _ t
  source _ _ _ h := h

theorem Follows.trans (h : Follows s plan t t') (h' : Follows s plan t' t'') :
    Follows s plan t t'' where
  keeps p hp := (h.keeps p hp).trans (h'.keeps p hp)
  source p hp c hc := h.source p hp c (h'.source p hp c hc)

/-- A step that is settled: no later tree is changed by it. -/
def IsDone {α β : Type} (s : Path) (plan : LayoutPlan) (f : Tree → α → Tree × β) (a : α) (t : Tree) :
    Prop := ∀ t', Follows s plan t t' → (f t' a).1 = t'

theorem IsDone.of_follows {α β : Type} {f : Tree → α → Tree × β} {a : α} (h : IsDone s plan f a t)
    (hf : Follows s plan t t') : IsDone s plan f a t' := fun u hu => h u (hf.trans hu)

/-- All steps are settled after they were carried out, if each is settled and leads to a later tree. -/
theorem each_isDone {α β : Type} (s : Path) (plan : LayoutPlan) {f : Tree → α → Tree × β} {as : List α}
    {I : Tree → Prop} (hI : I t)
    (hstep : ∀ t, ∀ a ∈ as, I t →
      I (f t a).1 ∧ Follows s plan t (f t a).1 ∧ IsDone s plan f a (f t a).1) :
    I (t.each f as).1 ∧ Follows s plan t (t.each f as).1
      ∧ ∀ a ∈ as, IsDone s plan f a (t.each f as).1 := by
  have hrun : I (t.each f as).1 ∧ Follows s plan t (t.each f as).1 :=
    each_induct (P := fun u => I u ∧ Follows s plan t u) ⟨hI, .refl s plan t⟩ fun u a ha ⟨hu, hf⟩ =>
      ⟨(hstep u a ha hu).1, hf.trans (hstep u a ha hu).2.1⟩
  refine ⟨hrun.1, hrun.2, each_done hI (fun u a ha hu => (hstep u a ha hu).1)
    (fun u a ha hu => (hstep u a ha hu).2.2) ?_⟩
  exact List.pairwise_of_forall_mem_list fun _ _ b hb u hu hdone =>
    hdone.of_follows (hstep u b hb hu).2.1

/-! ### Steps in a project in order -/

section Steps

variable (h : IsOrderly t s plan libraries)
include h

theorem IsOrderly.down_place (hp : p ∈ places s plan) : p.IsDown :=
  h.down p (List.mem_append_left _ (List.mem_append_left _ hp))

theorem IsOrderly.down_source (hp : p ∈ sources s plan) : p.IsDown :=
  h.down p (List.mem_append_left _ (List.mem_append_right _ hp))

theorem IsOrderly.down_library {l : Library} (hl : l ∈ libraries) : l.dir.IsDown :=
  h.down _ (List.mem_append_right _ (List.mem_map_of_mem hl))

/-- Order does not depend on what stands at a place. -/
theorem IsOrderly.of_puts (hp : p ∈ places s plan) (hputs : Puts p.address t t') :
    IsOrderly t' s plan libraries where
  proper a n hn := by
    rcases hputs a n hn with hn | ⟨hway, -⟩
    · exact h.proper a n hn
    · exact hway.2
  down := h.down
  free := h.free
  outside := h.outside
  clear l hl n hn := by
    rcases hputs _ _ hn with hn | ⟨hway, -⟩
    · exact h.clear l hl n hn
    · -- the directory would lie below that of the library
      exact absurd (isBelow_of_append_isPrefix (by simp) hway.1)
        (h.outside l hl p (List.mem_append_left _ (List.mem_append_left _ hp)))

theorem IsOrderly.of_flattens {l : Library} (hf : Flattens l.dir.address t t') :
    IsOrderly t' s plan libraries where
  proper := hf.isProper h.proper
  down := h.down
  free := h.free
  outside := h.outside
  clear l' hl' n hn := h.clear l' hl' n (hf.dir _ hn)

/-- Putting something at a place leads to a later tree if nothing but a source goes. -/
theorem follows_of_puts (hp : p ∈ places s plan) (hputs : Puts p.address t t') {P : Address → Prop}
    (hkeeps : Keeps P t t') (hP : ∀ q ∈ places s plan, ∀ a, a <+: q.address → P a) :
    Follows s plan t t' where
  keeps q hq := hkeeps.mono (hP q hq)
  source q hq c hc := by
    rcases hputs _ _ hc with hc | ⟨hway, -⟩
    · exact hc
    · exact absurd hway.1 (h.free q hq p hp)

theorem follows_of_flattens {l : Library} (hl : l ∈ libraries) (hf : Flattens l.dir.address t t') :
    Follows s plan t t' where
  keeps p hp a ha n hn := by
    rwa [hf.outside]
    exact fun hb => h.outside l hl p (List.mem_append_left _ (List.mem_append_left _ hp))
      (hb.trans_isPrefix ha)
  source p hp c hc := by
    rwa [hf.outside] at hc
    exact h.outside l hl p (List.mem_append_left _ (List.mem_append_right _ hp))

end Steps

/-! ### Stages -/

/-- Moves a file as a plan says. -/
def moveAsPlanned (s : Path) (t : Tree) (r : Relocation) : Tree × Entry :=
  relocate t (s.join r.source) (s.join r.target)

/-- Writes a stub as a plan says. -/
def writeAsPlanned (s : Path) (t : Tree) (b : Stub) : Tree × Entry :=
  placeStub t (s.join b.path) b.body

/-- A tree in which the steps of an arrangement up to the libraries were carried out. -/
def layOut (t : Tree) (s : Path) (plan : LayoutPlan) : Tree :=
  (((t.each placeDir (plan.directories.map s.join)).1.each (moveAsPlanned s) plan.relocations).1.each
    (writeAsPlanned s) plan.stubs).1

theorem arrange_fst (t : Tree) (s : Path) (plan : LayoutPlan) (libraries : List Library) :
    (arrange t s plan libraries).1
      = if t.isDir s = true then ((layOut t s plan).each flatten libraries).1 else t := by
  rw [arrange]
  cases t.isDir s <;> rfl

/-- A tree in which all steps are settled. -/
structure IsArranged (s : Path) (plan : LayoutPlan) (libraries : List Library) (t : Tree) :
    Prop where
  directories : ∀ p ∈ plan.directories.map s.join, IsDone s plan placeDir p t
  relocations : ∀ r ∈ plan.relocations, IsDone s plan (moveAsPlanned s) r t
  stubs : ∀ b ∈ plan.stubs, IsDone s plan (writeAsPlanned s) b t
  flat : ∀ l ∈ libraries, t.isDir l.dir = true → IsFlattened t l.dir.address

theorem IsArranged.of_follows (h : IsArranged s plan libraries t) (hf : Follows s plan t t')
    (hflat : ∀ l ∈ libraries, t'.isDir l.dir = true → IsFlattened t' l.dir.address) :
    IsArranged s plan libraries t' where
  directories p hp := (h.directories p hp).of_follows hf
  relocations r hr := (h.relocations r hr).of_follows hf
  stubs b hb := (h.stubs b hb).of_follows hf
  flat := hflat

/-- The steps up to the libraries are settled after they were carried out. -/
theorem layOut_isDone (h : IsOrderly t s plan libraries) :
    IsOrderly (layOut t s plan) s plan libraries
      ∧ (∀ p ∈ plan.directories.map s.join, IsDone s plan placeDir p (layOut t s plan))
      ∧ (∀ r ∈ plan.relocations, IsDone s plan (moveAsPlanned s) r (layOut t s plan))
      ∧ ∀ b ∈ plan.stubs, IsDone s plan (writeAsPlanned s) b (layOut t s plan) := by
  obtain ⟨h₁, -, hdirs⟩ := each_isDone s plan (f := placeDir)
    (I := fun u => IsOrderly u s plan libraries) h
    fun u p (hp : p ∈ plan.directories.map s.join) hu => by
      have hmem : p ∈ places s plan := List.mem_append_left _ (List.mem_append_left _ hp)
      have hdown := hu.down_place hmem
      have hadds := addsDirs_placeDir hdown u
      have hputs := Puts.of_addsDirs hadds
      exact ⟨hu.of_puts hmem hputs, follows_of_puts hu hmem hputs (hadds.keeps fun _ => True)
        fun _ _ _ _ => trivial, fun u' hu' => placeDir_of_keeps hdown (hu'.keeps p hmem)⟩
  obtain ⟨h₂, hf₂, hmoves⟩ := each_isDone s plan (f := moveAsPlanned s)
    (I := fun u => IsOrderly u s plan libraries) h₁
    fun u r (hr : r ∈ plan.relocations) hu => by
      have hmem := target_mem (s := s) hr
      have hsource := source_mem (s := s) hr
      have hd := hu.down_place hmem
      have hs := hu.down_source hsource
      have hputs := puts_relocate hs hd u
      exact ⟨hu.of_puts hmem hputs, follows_of_puts hu hmem hputs (keeps_relocate hs hd u)
        fun q hq a ha he => hu.free _ hsource q hq (he ▸ ha), fun u' hu' =>
          relocate_of_keeps hs hd (hu'.keeps _ hmem) (hu'.source _ hsource)⟩
  obtain ⟨h₃, hf₃, hstubs⟩ := each_isDone s plan (f := writeAsPlanned s)
    (I := fun u => IsOrderly u s plan libraries) h₂
    fun u b (hb : b ∈ plan.stubs) hu => by
      have hmem := stub_mem (s := s) hb
      have hdown := hu.down_place hmem
      have hputs := puts_placeStub hdown u b.body
      exact ⟨hu.of_puts hmem hputs, follows_of_puts hu hmem hputs
        (keeps_placeStub hdown u b.body fun _ => True) fun _ _ _ _ => trivial, fun u' hu' =>
          placeStub_of_keeps hdown (hu'.keeps _ hmem)⟩
  exact ⟨h₃, fun p hp => (hdirs p hp).of_follows (hf₂.trans hf₃),
    fun r hr => (hmoves r hr).of_follows hf₃, hstubs⟩

/-! ### Libraries -/

/-- A library that is flat stays flat when another one is flattened. -/
theorem isFlattened_flatten_of_isFlattened {l l' : Library} (h : IsOrderly t s plan libraries)
    (hl : l ∈ libraries) (hl' : l' ∈ libraries)
    (hflat : t.isDir l.dir = true → IsFlattened t l.dir.address) :
    (flatten t l').1.isDir l.dir = true → IsFlattened (flatten t l').1 l.dir.address := by
  have hf := flattens_flatten (h.down_library hl') h.proper
  have hmem : ∀ {k : Library}, k ∈ libraries →
      k.dir ∈ places s plan ++ sources s plan ++ libraries.map Library.dir := fun hk =>
    List.mem_append_right _ (List.mem_map_of_mem hk)
  intro hdir
  have hdir' : t.isDir l.dir = true := isDir_of_keeps (h.down_library hl)
    (fun a ha n hn => by
      rwa [hf.outside a fun hb => h.outside l' hl' _ (hmem hl) (hb.trans_isPrefix ha)] at hn) hdir
  by_cases he : l'.dir.address = l.dir.address
  · rw [flatten_of_isFlattened (h.down_library hl') h.proper fun _ => he ▸ hflat hdir']
    exact hflat hdir'
  · refine (hflat hdir').of_flattens hf fun a ha hb => ?_
    rcases List.prefix_or_prefix_of_prefix ha hb.1 with hpre | hpre
    · exact h.outside l hl _ (hmem hl') ⟨hpre, Ne.symm he⟩
    · exact h.outside l' hl' _ (hmem hl) ⟨hpre, he⟩

/-- All libraries are flat after they were flattened. -/
theorem isFlattened_each (h : IsOrderly t s plan libraries) :
    IsOrderly (t.each flatten libraries).1 s plan libraries
      ∧ Follows s plan t (t.each flatten libraries).1
      ∧ ∀ l ∈ libraries, (t.each flatten libraries).1.isDir l.dir = true →
        IsFlattened (t.each flatten libraries).1 l.dir.address := by
  have hstep : ∀ u, ∀ l ∈ libraries, IsOrderly u s plan libraries →
      IsOrderly (flatten u l).1 s plan libraries := fun u l hl hu =>
    hu.of_flattens (flattens_flatten (hu.down_library hl) hu.proper)
  have hfollows : ∀ u, ∀ l ∈ libraries, IsOrderly u s plan libraries →
      Follows s plan u (flatten u l).1 := fun u l hl hu =>
    follows_of_flattens hu hl (flattens_flatten (hu.down_library hl) hu.proper)
  have hrun := each_induct (P := fun u => IsOrderly u s plan libraries ∧ Follows s plan t u)
    ⟨h, .refl s plan t⟩ fun u l hl hu => ⟨hstep u l hl hu.1, hu.2.trans (hfollows u l hl hu.1)⟩
  refine ⟨hrun.1, hrun.2, each_done (I := fun u => IsOrderly u s plan libraries)
    (P := fun l u => u.isDir l.dir = true → IsFlattened u l.dir.address) h hstep
    (fun u l hl hu hdir => ?_) ?_⟩
  · have hf := flattens_flatten (hu.down_library hl) hu.proper
    refine isFlattened_flatten (hu.down_library hl) hu.proper ?_ (hu.clear l hl)
    exact isDir_of_keeps (hu.down_library hl)
      (fun a ha n hn => by rwa [hf.outside a (not_isBelow_of_isPrefix ha)] at hn) hdir
  · exact List.pairwise_of_forall_mem_list fun _ ha _ hb _ hu hflat =>
      isFlattened_flatten_of_isFlattened hu ha hb hflat

/-! ### Arranging again -/

/-- **All steps are settled** in an arranged tree. -/
theorem isArranged_arrange (h : IsOrderly t s plan libraries) (hs : t.isDir s = true) :
    IsOrderly (arrange t s plan libraries).1 s plan libraries
      ∧ IsArranged s plan libraries (arrange t s plan libraries).1 := by
  obtain ⟨hlaid, hdirs, hmoves, hstubs⟩ := layOut_isDone h
  obtain ⟨horderly, hf, hflat⟩ := isFlattened_each hlaid
  rw [arrange_fst, if_pos hs]
  exact ⟨horderly, fun p hp => (hdirs p hp).of_follows hf, fun r hr => (hmoves r hr).of_follows hf,
    fun b hb => (hstubs b hb).of_follows hf, hflat⟩

/-- **To arrange an arranged tree** changes nothing. -/
theorem arrange_of_isArranged (h : IsOrderly t s plan libraries)
    (harranged : IsArranged s plan libraries t) : (arrange t s plan libraries).1 = t := by
  have hlaid : layOut t s plan = t := by
    rw [layOut, each_unchanged fun p hp => harranged.directories p hp t (.refl s plan t),
      each_unchanged fun r hr => harranged.relocations r hr t (.refl s plan t),
      each_unchanged fun b hb => harranged.stubs b hb t (.refl s plan t)]
  rw [arrange_fst, hlaid, each_unchanged fun l hl =>
    flatten_of_isFlattened (h.down_library hl) h.proper (harranged.flat l hl), ite_self]

/-- **Arranging a project in order again** changes nothing. -/
theorem arrange_arrange (h : IsOrderly t s plan libraries) :
    (arrange (arrange t s plan libraries).1 s plan libraries).1
      = (arrange t s plan libraries).1 := by
  cases hs : t.isDir s with
  | true =>
    obtain ⟨horderly, harranged⟩ := isArranged_arrange h hs
    exact arrange_of_isArranged horderly harranged
  | false =>
    have hsame : (arrange t s plan libraries).1 = t := by
      rw [arrange_fst, hs]
      rfl
    rw [hsame, hsame]

/-- A project with a parser to be moved and a module below the directory of its library. -/
def nestedProject : Tree where
  nodes := [(["src"], .dir), (["src", "a.js"], .file (.text "a")), (["lib"], .dir),
    (["lib", "in"], .dir), (["lib", "in", "b.js"], .file (.text "b"))]
  distinct := by decide
  closed := by decide

/-- A plan with a directory, a move and a stub. -/
def smallPlan : LayoutPlan where
  directories := ["code"]
  relocations := [⟨"a.js", "code/old/a.js"⟩]
  stubs := [⟨"code/new.js", "new"⟩]

theorem arrange_arrange_nestedProject :
    IsOrderly nestedProject "src" smallPlan [⟨"lib", "lib"⟩]
      ∧ (arrange (arrange nestedProject "src" smallPlan [⟨"lib", "lib"⟩]).1 "src" smallPlan
          [⟨"lib", "lib"⟩]).1
        = (arrange nestedProject "src" smallPlan [⟨"lib", "lib"⟩]).1 := by
  have h : IsOrderly nestedProject "src" smallPlan [⟨"lib", "lib"⟩] := by decide
  exact ⟨h, arrange_arrange h⟩

/-- A plan whose second move takes a file to where the first one takes one away. -/
def chainedPlan : LayoutPlan where
  directories := []
  relocations := [⟨"b.js", "c.js"⟩, ⟨"a.js", "b.js"⟩]
  stubs := []

/-- The second run moves on what the first one moved. -/
theorem arrange_moves_on :
    nestedProject.isDir "src" = true
      ∧ (arrange (arrange nestedProject "src" chainedPlan []).1 "src" chainedPlan []).1
        ≠ (arrange nestedProject "src" chainedPlan []).1 := by
  refine ⟨by decide, fun h => ?_⟩
  have hfile := congrArg (fun t : Tree => t.get? ["src", "c.js"]) h
  revert hfile
  decide

end ElementModules.Project
