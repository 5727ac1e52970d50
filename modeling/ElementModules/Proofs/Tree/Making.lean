import ElementModules.Proofs.Prefixes
import ElementModules.Proofs.Tree.Locating

/-!
# Directories that are made

A directory is made together with those above it, from the nearest one that exists downwards. Nothing
that stands somewhere changes by that (`AddsDirs`). It may end early: where a file stands on the way
or a name is too long. Either way a second attempt changes nothing: not at once, and not in any later
tree in which the nodes on the way still stand (`makeDirs_of_keeps`).

An attempt to make a directory is one for its parent with something in front and behind (`Attempt`), so
the facts go from the parent of a path to the path (`Path.parent_induct`). This needs one more fact:
what was blocked stays blocked (`isDir_of_keeps_of_blocked`), because a later attempt would go on
behind it otherwise.

## Main results

* `addsDirs_makeDirs`, `addsDirs_makeParents`: what making directories does to a tree.
* `isDir_of_makeDirs`: a directory that was made stands.
* `makeDirs_of_keeps`, `makeParents_of_keeps`: a second attempt changes nothing.
* `makeParents_blocked`: what a failed attempt tells about later trees.
-/

namespace ElementModules

/-! ### Parents of paths that go down -/

namespace Path

variable {p q : Path}

theorem length_components_of_parent? (h : p.parent? = some q) :
    q.components.length + 1 = p.components.length := by
  have hne : p.components ≠ [] := fun hnil => by
    rw [parent?, List.map_eq_nil_iff.1 hnil] at h
    cases h
  rw [(components_of_parent? h).1, List.length_dropLast]
  exact Nat.sub_add_cancel (List.length_pos_iff.2 hne)

theorem components_ne_nil_of_parent? (h : p.parent? = some q) : p.components ≠ [] :=
  List.ne_nil_of_length_eq_add_one (length_components_of_parent? h).symm

/-- **Along the parents**: a property holds of all paths if it holds of those without a parent and goes
from the parent of a path to the path. -/
@[elab_as_elim]
theorem parent_induct {motive : Path → Prop} (p : Path) (top : ∀ p, p.parent? = none → motive p)
    (step : ∀ p q, p.parent? = some q → motive q → motive p) : motive p := by
  induction hk : p.components.length generalizing p with
  | zero =>
    refine top p ?_
    rw [parent?, List.map_eq_nil_iff.1 (List.length_eq_zero_iff.1 hk)]
    rfl
  | succ k ih =>
    cases hq : p.parent? with
    | none => exact top p hq
    | some q => exact step p q hq (ih q (by have := length_components_of_parent? hq; omega))

theorem ancestors_of_parent? (h : p.parent? = some q) : p.ancestors = p :: q.ancestors := by
  have hlength : q.places.length + 1 = p.places.length := by
    simpa [components] using length_components_of_parent? h
  rw [ancestors, ancestorsUpTo, h, ancestors, hlength]

theorem ancestors_of_no_parent (h : p.parent? = none) : p.ancestors = [p] := by
  rw [ancestors, ancestorsUpTo, h]

theorem exists_ancestors_eq (p : Path) : ∃ above, p.ancestors = p :: above := by
  cases h : p.parent? with
  | none => exact ⟨[], ancestors_of_no_parent h⟩
  | some q => exact ⟨q.ancestors, ancestors_of_parent? h⟩

theorem components_of_mem_ancestors {a : Path} (h : a ∈ p.ancestors) :
    a.components <+: p.components := by
  induction p using parent_induct with
  | top p hp =>
    rw [ancestors_of_no_parent hp] at h
    obtain rfl := List.mem_singleton.1 h
    exact List.prefix_rfl
  | step p q hq ih =>
    rw [ancestors_of_parent? hq] at h
    rcases List.mem_cons.1 h with rfl | h
    · exact List.prefix_rfl
    · refine (ih h).trans ?_
      rw [(components_of_parent? hq).1]
      exact List.dropLast_prefix _

theorem IsDown.parent (h : p.IsDown) (hq : p.parent? = some q) : q.IsDown := by
  rw [IsDown, (components_of_parent? hq).1]
  exact fun hc => h (List.dropLast_subset _ hc)

/-- The names of the parent are the names but the last. -/
theorem IsDown.address_parent (h : p.IsDown) (hq : p.parent? = some q) :
    q.address = p.address.dropLast := by
  have hnames : ∀ (ns : List Text), ((ns.map Component.name).dropLast).filterMap Component.name?
      = ns.dropLast := by
    intro ns
    rw [← List.map_dropLast, filterMap_name?_map]
  have hfront : ∀ (c : Component) (ns : List Text), c.name? = none →
      ((c :: ns.map Component.name).dropLast).filterMap Component.name? = ns.dropLast := by
    intro c ns hc
    cases ns with
    | nil => rfl
    | cons n ns =>
      rw [List.map_cons, List.dropLast_cons_cons, List.filterMap_cons_none hc, ← List.map_cons, hnames]
  have hq' : q.address = p.components.dropLast.filterMap Component.name? := by
    rw [address, (components_of_parent? hq).1]
  rw [hq']
  rcases (components_of_isDown h).1 with ⟨hc | hc, -⟩ | ⟨hc, -⟩
  · rw [hc, hnames]
  · rw [hc, hfront _ _ rfl]
  · rw [hc, hfront _ _ rfl]

theorem address_parent_prefix (h : p.IsDown) (hq : p.parent? = some q) : q.address <+: p.address :=
  h.address_parent hq ▸ List.dropLast_prefix _

/-- A path without a parent leads nowhere. -/
theorem IsDown.locate_of_parent?_eq_none (h : p.IsDown) (hq : p.parent? = none) (t : Tree) :
    ∃ e, t.locate p = .error e := by
  rw [Tree.locate_eq h]
  split_ifs with hempty hnull habsolute
  · exact ⟨_, rfl⟩
  · exact ⟨_, rfl⟩
  · exact ⟨_, rfl⟩
  · have hroot := (getLast?_of_parent? hq).resolve_left (mt components_eq_nil_iff.1 hempty)
    have hmem : Component.root ∈ p.components := List.mem_of_getLast? hroot
    rcases (components_of_isDown h).1 with ⟨hc | hc, -⟩ | ⟨-, hc⟩
    · simp [hc] at hmem
    · simp [hc] at hmem
    · exact absurd hc habsolute

end Path

namespace Tree

variable {t t' t'' : Tree} {p q : Path}

/-! ### Adding directories -/

/-- A tree with more directories, at addresses with a property where nothing stood. -/
def AddsDirs (P : Address → Prop) (t t' : Tree) : Prop :=
  ∀ a, t'.get? a = t.get? a ∨ t.get? a = none ∧ t'.get? a = some .dir ∧ P a

/-- An address in front of another one, with names that files can have. -/
def IsOnWay (b a : Address) : Prop := a <+: b ∧ ∀ n ∈ a, IsFileName n

theorem IsOnWay.mono {a b c : Address} (h : IsOnWay b a) (hbc : b <+: c) : IsOnWay c a :=
  ⟨h.1.trans hbc, h.2⟩

namespace AddsDirs

variable {P : Address → Prop}

theorem refl (P : Address → Prop) (t : Tree) : AddsDirs P t t := fun _ => .inl rfl

theorem trans (h : AddsDirs P t t') (h' : AddsDirs P t' t'') : AddsDirs P t t'' := by
  intro a
  rcases h' a with h₂ | ⟨hnone, hdir, ha⟩
  · rw [h₂]
    exact h a
  · rcases h a with h₁ | ⟨-, hdir', -⟩
    · exact .inr ⟨h₁ ▸ hnone, hdir, ha⟩
    · rw [hnone] at hdir'
      cases hdir'

theorem mono {Q : Address → Prop} (h : AddsDirs P t t') (hPQ : ∀ a, P a → Q a) :
    AddsDirs Q t t' := fun a => (h a).imp_right fun ⟨h₁, h₂, h₃⟩ => ⟨h₁, h₂, hPQ a h₃⟩

theorem keeps (h : AddsDirs P t t') (Q : Address → Prop) : Keeps Q t t' := by
  intro a _ n hn
  rcases h a with he | ⟨hnone, -⟩
  · rw [he, hn]
  · rw [hn] at hnone
    cases hnone

end AddsDirs

/-! ### One directory -/

theorem mkdir_of_isDir (h : t.isDir p = true) : t.mkdir p = .error .alreadyExists := by
  obtain ⟨a, hl, hg⟩ := isDir_iff.1 h
  rw [mkdir, hl]
  simp only [hg]

/-- Why a directory is not made: its path leads nowhere, or something stands there, or the path ends
with a dot. -/
theorem mkdir_eq_error {e : Fault} (h : t.mkdir p = .error e) :
    t.locate p = .error e
      ∨ (∃ a n, t.locate p = .ok a ∧ t.get? a = some n ∧ e = .alreadyExists)
      ∨ ∃ a, t.locate p = .ok a ∧ t.get? a = none ∧ p.endsWithDot = true ∧ e = .notFound := by
  rw [mkdir] at h
  cases hl : t.locate p with
  | error e' =>
    simp only [hl, Except.error.injEq] at h
    exact .inl (congrArg _ h)
  | ok a =>
    simp only [hl] at h
    cases hg : t.get? a with
    | some n =>
      simp only [hg] at h
      exact .inr (.inl ⟨a, n, rfl, hg, (Except.error.inj h).symm⟩)
    | none =>
      simp only [hg] at h
      split at h
      next hdot => exact .inr (.inr ⟨a, rfl, hg, hdot, (Except.error.inj h).symm⟩)
      · cases h

theorem mkdir_of_locate_error {e : Fault} (h : t.locate p = .error e) : t.mkdir p = .error e := by
  rw [mkdir, h]

theorem endsWithDot_of_mkdir (h : t.mkdir p = .ok t') : p.endsWithDot = false := by
  rw [mkdir] at h
  split at h
  · cases h
  · split at h
    · cases h
    · split at h
      · cases h
      next hdot => exact Bool.eq_false_iff.2 hdot

/-- A directory that was made stands there. -/
theorem isDir_of_mkdir (h : t.mkdir p = .ok t') : t'.isDir p = true := by
  obtain ⟨a, hl, hnone, hget⟩ := mkdir_eq_ok h
  refine isDir_iff.2 ⟨a, locate_of_dirs (fun b hb => ?_) hl, by rw [hget, if_pos rfl]⟩
  rw [hget, if_neg, hb]
  rintro rfl
  rw [hnone] at hb
  cases hb

theorem addsDirs_mkdir (hdown : p.IsDown) (h : t.mkdir p = .ok t') :
    AddsDirs (IsOnWay p.address) t t' := by
  obtain ⟨a, hl, hnone, hget⟩ := mkdir_eq_ok h
  intro b
  rw [hget]
  split_ifs with hb
  · subst hb
    exact .inr ⟨hnone, rfl, eq_address_of_locate hdown hl ▸ List.prefix_rfl,
      isFileName_of_locate hl⟩
  · exact .inl rfl

/-- A directory that cannot be made cannot be made later, either, unless a directory was missing. -/
theorem mkdir_error_of_keeps (hdown : p.IsDown) (hk : Keeps (· <+: p.address) t t') {e : Fault}
    (h : t.mkdir p = .error e) (he : e ≠ .notFound) : t'.mkdir p = .error e := by
  rcases mkdir_eq_error h with hl | ⟨a, n, hl, hg, rfl⟩ | ⟨a, -, -, -, rfl⟩
  · exact mkdir_of_locate_error (locate_error_of_keeps hdown (hk.mono fun _ h => h.1) hl he)
  · have ha := eq_address_of_locate hdown hl
    rw [mkdir, locate_of_keeps hdown hk hl]
    simp only [hk a (ha ▸ List.prefix_rfl) n hg]
  · exact absurd rfl he

/-! ### The directory above -/

/-- A path leads where its names say if the directory above exists. -/
theorem locate_of_parent (hdown : p.IsDown) (hq : p.parent? = some q)
    (hparent : q.components = [] ∨ t.isDir q = true) {a : Address} (h : t'.locate p = .ok a) :
    t.locate p = .ok a := by
  rw [locate_eq_ok_iff hdown] at h ⊢
  obtain ⟨hempty, hnull, habsolute, ha, hsize, -⟩ := h
  refine ⟨hempty, hnull, habsolute, ha, hsize, fun b hb hne => ?_⟩
  have hb' : b <+: q.address := hdown.address_parent hq ▸ prefix_dropLast_of_ne hb hne
  rcases hparent with hnil | hdir
  · have hb'' : b = [] := by
      rw [Path.address, hnil] at hb'
      exact List.prefix_nil.1 hb'
    rw [hb'', get?_nil]
  · obtain ⟨c, hl, hg⟩ := isDir_iff.1 hdir
    rw [eq_address_of_locate (hdown.parent hq) hl] at hg
    by_cases hbq : b = q.address
    · rwa [hbq]
    · exact get?_of_isPrefix hg hb' hbq

/-- A path that leads anywhere leads into a directory. -/
theorem isDir_parent_of_locate (hq : p.parent? = some q) {a : Address} (h : t.locate p = .ok a) :
    q.components = [] ∨ t.isDir q = true := by
  by_cases hnil : q.components = []
  · exact .inl hnil
  · right
    obtain ⟨-, hnull, hfollow⟩ := locate_eq_ok_iff_follow.1 h
    obtain ⟨hcomponents, htext, -⟩ := Path.components_of_parent? hq
    obtain ⟨init, last, hlast⟩ := (List.eq_nil_or_concat p.components).resolve_left fun hc =>
      hnil (by rw [hcomponents, hc]; rfl)
    rw [hlast, List.concat_eq_append] at hfollow
    rw [hlast, List.concat_eq_append, List.dropLast_concat] at hcomponents
    obtain ⟨m, hm, hlead⟩ := follow_append_eq_ok_iff.1 hfollow
    exact isDir_iff.2 ⟨m, locate_eq_ok_iff_follow.2 ⟨mt Path.components_eq_nil_iff.2 hnil,
      fun hc => hnull (htext.subset hc), hcomponents ▸ hm⟩, (follow_cons_eq_ok_iff.1 hlead).1⟩

/-- A path whose parent is no directory leads nowhere. -/
theorem locate_ne_ok_of_parent (hq : p.parent? = some q)
    (hne : q.components ≠ []) (h : t.isDir q = false) (a : Address) : t.locate p ≠ .ok a := by
  intro hl
  rw [(isDir_parent_of_locate hq hl).resolve_left hne] at h
  cases h

/-- If a directory cannot be made although the one above exists, its path is at fault: wherever it
leads in any tree, something stands there already, or it ends with a dot. -/
theorem exists_of_mkdir_error (hdown : p.IsDown) (hq : p.parent? = some q)
    (hparent : q.components = [] ∨ t.isDir q = true) {e : Fault} (hm : t.mkdir p = .error e)
    {a : Address} (hl : t'.locate p = .ok a) :
    (∃ n, t.locate p = .ok a ∧ t.get? a = some n) ∨ p.endsWithDot = true := by
  have hl' := locate_of_parent hdown hq hparent hl
  rcases mkdir_eq_error hm with he | ⟨b, n, hb, hg, -⟩ | ⟨b, hb, -, hdot, -⟩
  · rw [hl'] at he
    cases he
  · obtain rfl : b = a := Except.ok.inj (hb.symm.trans hl')
    exact .inl ⟨n, hb, hg⟩
  · exact .inr hdot

/-! ### Chains -/

/-- What an attempt to make a directory comes to, if the attempt for those above it comes to `above`. -/
inductive Attempt (t : Tree) (p : Path) (above result : Tree × Except Fault Unit) : Prop
  /-- The directory is made at once. -/
  | made {t₁ : Tree} (mkdir_eq : t.mkdir p = .ok t₁) (result_eq : result = (t₁, .ok ()))
  /-- It cannot be made, and that is not for want of those above it. -/
  | refused {e : Fault} {r : Except Fault Unit} (mkdir_eq : t.mkdir p = .error e)
    (ne_notFound : e ≠ .notFound) (result_eq : result = (t, r))
    (ok_iff : r = .ok () ↔ t.isDir p = true)
  /-- Those above it cannot be made. -/
  | blocked {t₁ : Tree} {e : Fault} (mkdir_eq : t.mkdir p = .error .notFound)
    (above_eq : above = (t₁, .error e)) (result_eq : result = (t₁, .error e))
  /-- It is made behind those above it. -/
  | madeBehind {t₁ t₂ : Tree} (mkdir_eq : t.mkdir p = .error .notFound)
    (above_eq : above = (t₁, .ok ())) (again_eq : t₁.mkdir p = .ok t₂)
    (result_eq : result = (t₂, .ok ()))
  /-- It cannot be made behind those above it, either. -/
  | refusedBehind {t₁ : Tree} {e : Fault} {r : Except Fault Unit}
    (mkdir_eq : t.mkdir p = .error .notFound) (above_eq : above = (t₁, .ok ()))
    (again_eq : t₁.mkdir p = .error e) (result_eq : result = (t₁, r))
    (ok_iff : r = .ok () ↔ t₁.isDir p = true)

namespace Attempt

variable {above result : Tree × Except Fault Unit} (h : Attempt t p above result)
include h

/-- What making one directory keeps is kept by an attempt that keeps it above. -/
theorem rel {R : Tree → Tree → Prop} (refl : ∀ t, R t t)
    (trans : ∀ t u v, R t u → R u v → R t v) (step : ∀ t u, t.mkdir p = .ok u → R t u)
    (habove : R t above.1) : R t result.1 := by
  cases h with
  | made hm hr =>
    rw [hr]
    exact step _ _ hm
  | refused _ _ hr _ =>
    rw [hr]
    exact refl t
  | blocked _ ha hr =>
    rw [ha] at habove
    rwa [hr]
  | madeBehind _ ha hm hr =>
    rw [ha] at habove
    rw [hr]
    exact trans _ _ _ habove (step _ _ hm)
  | refusedBehind _ ha _ hr _ =>
    rw [ha] at habove
    rwa [hr]

theorem eq_of_mkdir (hm : t.mkdir p = .ok t') : result = (t', .ok ()) := by
  cases h with
  | made hm' hr =>
    obtain rfl := Except.ok.inj (hm.symm.trans hm')
    exact hr
  | refused hm' _ _ _ | blocked hm' _ _ | madeBehind hm' _ _ _ | refusedBehind hm' _ _ _ _ =>
    rw [hm] at hm'
    cases hm'

/-- Where no directory can be made, nothing changes if nothing changes above. -/
theorem fst_eq {e : Fault} (hm : t.mkdir p = .error e) (habove : e = .notFound → above.1 = t) :
    result.1 = t := by
  have hsame : ∀ {u r}, t.mkdir p = .error .notFound → above = (u, r) → u = t := by
    intro u r hn ha
    rw [← habove (Except.error.inj (hm.symm.trans hn)), ha]
  cases h with
  | made hm' _ =>
    rw [hm] at hm'
    cases hm'
  | refused _ _ hr _ => rw [hr]
  | blocked hn ha hr => rw [hr, hsame hn ha]
  | madeBehind hn ha hm' _ =>
    rw [hsame hn ha, hm] at hm'
    cases hm'
  | refusedBehind hn ha _ hr _ => rw [hr, hsame hn ha]

/-- A directory that was made stands. -/
theorem isDir_of_ok (hok : result.2 = .ok ()) : result.1.isDir p = true := by
  cases h with
  | made hm hr =>
    rw [hr]
    exact isDir_of_mkdir hm
  | refused _ _ hr hiff =>
    rw [hr] at hok ⊢
    exact hiff.1 hok
  | blocked _ _ hr =>
    rw [hr] at hok
    cases hok
  | madeBehind _ _ hm hr =>
    rw [hr]
    exact isDir_of_mkdir hm
  | refusedBehind _ _ _ hr hiff =>
    rw [hr] at hok ⊢
    exact hiff.1 hok

end Attempt

theorem attempt_makeChain (hne : p.components ≠ []) (t : Tree) (above : List Path) :
    Attempt t p (t.makeChain above) (t.makeChain (p :: above)) := by
  rw [makeChain, if_neg hne]
  have hend : ∀ (u : Tree) (e : Fault), ∃ r : Except Fault Unit,
      (if u.isDir p = true then (u, Except.ok ()) else (u, Except.error e)) = (u, r)
        ∧ (r = .ok () ↔ u.isDir p = true) := by
    intro u e
    split_ifs with hd
    · exact ⟨_, rfl, by simp [hd]⟩
    · exact ⟨_, rfl, by simp [hd]⟩
  cases hm : t.mkdir p with
  | ok t₁ => exact .made hm rfl
  | error e =>
    by_cases he : e = .notFound
    · subst he
      cases ha : t.makeChain above with
      | mk t₁ r =>
        cases r with
        | error e => exact .blocked hm rfl rfl
        | ok u =>
          cases hm₁ : t₁.mkdir p with
          | ok t₂ => exact .madeBehind hm rfl hm₁ (by simp [hm₁])
          | error e =>
            obtain ⟨r, hr, hiff⟩ := hend t₁ e
            exact .refusedBehind hm rfl hm₁ (by simpa [hm₁] using hr) hiff
    · obtain ⟨r, hr, hiff⟩ := hend t e
      exact .refused hm he (by simpa [he] using hr) hiff

theorem makeChain_of_components_eq_nil {above : List Path} (h : p.components = []) :
    t.makeChain (p :: above) = (t, .ok ()) := by rw [makeChain, if_pos h]

/-- What making one directory keeps is kept when a chain of them is made. -/
theorem makeChain_induct {R : Tree → Tree → Prop} {ps : List Path} (refl : ∀ t, R t t)
    (trans : ∀ t u v, R t u → R u v → R t v) (step : ∀ t u, ∀ p ∈ ps, t.mkdir p = .ok u → R t u)
    (t : Tree) : R t (t.makeChain ps).1 := by
  induction ps with
  | nil => exact refl t
  | cons p above ih =>
    by_cases hne : p.components = []
    · rw [makeChain_of_components_eq_nil hne]
      exact refl t
    · exact (attempt_makeChain hne t above).rel refl trans
        (fun t u => step t u p List.mem_cons_self)
        (ih fun t u q hq => step t u q (List.mem_cons_of_mem p hq))

/-! ### A directory with those above it -/

theorem attempt_makeDirs (hq : p.parent? = some q) (t : Tree) :
    Attempt t p (t.makeDirs q) (t.makeDirs p) := by
  have h := attempt_makeChain (Path.components_ne_nil_of_parent? hq) t q.ancestors
  rwa [← Path.ancestors_of_parent? hq] at h

/-- An attempt for a path without a parent has nothing above it to make. -/
theorem attempt_makeDirs_top (hq : p.parent? = none) (hne : p.components ≠ []) (t : Tree) :
    Attempt t p (t, .error .notFound) (t.makeDirs p) := by
  have h := attempt_makeChain hne t []
  rwa [← Path.ancestors_of_no_parent hq] at h

theorem exists_attempt (hne : p.components ≠ []) (t : Tree) :
    ∃ above, Attempt t p above (t.makeDirs p) := by
  cases hq : p.parent? with
  | none => exact ⟨_, attempt_makeDirs_top hq hne t⟩
  | some q => exact ⟨_, attempt_makeDirs hq t⟩

theorem makeDirs_of_components_eq_nil (h : p.components = []) : t.makeDirs p = (t, .ok ()) := by
  obtain ⟨above, ha⟩ := p.exists_ancestors_eq
  rw [makeDirs, ha, makeChain_of_components_eq_nil h]

/-- The empty path is never blocked. -/
theorem components_ne_nil_of_blocked (h : (t.makeDirs p).2 ≠ .ok ()) : p.components ≠ [] :=
  fun hnil => h (by rw [makeDirs_of_components_eq_nil hnil])

/-- Where a directory stands, there is nothing to do. -/
theorem makeDirs_of_isDir (h : p.components = [] ∨ t.isDir p = true) :
    t.makeDirs p = (t, .ok ()) := by
  by_cases hne : p.components = []
  · exact makeDirs_of_components_eq_nil hne
  · have hdir := h.resolve_left hne
    obtain ⟨above, ha⟩ := p.exists_ancestors_eq
    rw [makeDirs, ha, makeChain, if_neg hne, mkdir_of_isDir hdir]
    simp [hdir]

/-- **A directory that was made stands.** -/
theorem isDir_of_makeDirs (h : (t.makeDirs p).2 = .ok ()) :
    p.components = [] ∨ (t.makeDirs p).1.isDir p = true := by
  by_cases hne : p.components = []
  · exact .inl hne
  · obtain ⟨above, ha⟩ := exists_attempt hne t
    exact .inr (ha.isDir_of_ok h)

/-- Making a directory adds directories on the way. -/
theorem addsDirs_makeDirs (hdown : p.IsDown) (t : Tree) :
    AddsDirs (IsOnWay p.address) t (t.makeDirs p).1 := by
  refine makeChain_induct (.refl _) (fun _ _ _ => .trans) (fun _ _ q hq hm => ?_) t
  have hpre := Path.components_of_mem_ancestors hq
  exact (addsDirs_mkdir (fun hc => hdown (hpre.subset hc)) hm).mono fun _ ha =>
    ha.mono (hpre.filterMap _)

/-! ### Second attempts -/

/-- Where a node other than a directory stands, none will stand. -/
theorem isDir_of_keeps_eq_false (hdown : p.IsDown) (hk : Keeps (· <+: p.address) t t') {a : Address}
    {n : Node} (hl : t.locate p = .ok a) (hg : t.get? a = some n) (h : t.isDir p = false) :
    t'.isDir p = false := by
  rw [Bool.eq_false_iff] at h ⊢
  intro hdir
  obtain ⟨b, hl', hg'⟩ := isDir_iff.1 hdir
  obtain rfl : b = a := Except.ok.inj (hl'.symm.trans (locate_of_keeps hdown hk hl))
  have hn := hk b (eq_address_of_locate hdown hl ▸ List.prefix_rfl) n hg
  rw [hg'] at hn
  obtain rfl := Option.some.inj hn
  exact h (isDir_iff.2 ⟨b, hl, hg⟩)

/-- A directory that cannot be made does not stand there later, either, unless a directory was
missing. -/
theorem isDir_of_mkdir_error (hdown : p.IsDown) (hk : Keeps (· <+: p.address) t t') {e : Fault}
    (hm : t.mkdir p = .error e) (he : e ≠ .notFound) (h : t.isDir p = false) :
    t'.isDir p = false := by
  rcases mkdir_eq_error hm with hl | ⟨a, n, hl, hg, -⟩ | ⟨a, -, -, -, rfl⟩
  · have hl' := locate_error_of_keeps hdown (hk.mono fun _ h => h.1) hl he
    rw [isDir, node, hl']
  · exact isDir_of_keeps_eq_false hdown hk hl hg h
  · exact absurd rfl he

/-- **What was blocked stays blocked**: a directory that was not made for want of those above it, for
a name that is too long or for a file on the way does not stand there later. -/
theorem isDir_of_keeps_of_blocked (hdown : p.IsDown)
    (hdot : p.endsWithDot = true → p.components = [.here]) (h : (t.makeDirs p).2 ≠ .ok ())
    (hkeeps : Keeps (· <+: p.address) (t.makeDirs p).1 t'') : t''.isDir p = false := by
  induction p using Path.parent_induct with
  | top p hq =>
    obtain ⟨e, he⟩ := hdown.locate_of_parent?_eq_none hq t''
    rw [isDir, node, he]
  | step p q hq ih =>
    cases attempt_makeDirs hq t with
    | made _ hr => exact absurd (by rw [hr]) h
    | madeBehind _ _ _ hr => exact absurd (by rw [hr]) h
    | refused hm he hr hiff =>
      rw [hr] at h hkeeps
      exact isDir_of_mkdir_error hdown hkeeps hm he (Bool.eq_false_iff.2 (mt hiff.2 h))
    | blocked _ ha hr =>
      -- a directory above is still missing
      have hblocked : (t.makeDirs q).2 ≠ .ok () := by simp [ha]
      rw [hr] at hkeeps
      rw [ha] at ih
      have hparent := ih (hdown.parent hq) (Path.components_of_parent? hq).2.2 (by simp)
        (hkeeps.mono fun a ha => ha.trans (Path.address_parent_prefix hdown hq))
      rw [Bool.eq_false_iff]
      intro hdir
      obtain ⟨a, hl, -⟩ := isDir_iff.1 hdir
      exact locate_ne_ok_of_parent hq (components_ne_nil_of_blocked hblocked) hparent a hl
    | refusedBehind _ ha hm hr hiff =>
      have hparent := isDir_of_makeDirs (t := t) (p := q) (by rw [ha])
      rw [ha] at hparent
      rw [hr] at h hkeeps
      rw [Bool.eq_false_iff]
      intro hdir
      obtain ⟨a, hl, -⟩ := isDir_iff.1 hdir
      rcases exists_of_mkdir_error hdown hq hparent hm hl with ⟨n, hl₁, hg⟩ | hd
      · have hno := isDir_of_keeps_eq_false hdown hkeeps hl₁ hg (Bool.eq_false_iff.2 (mt hiff.2 h))
        rw [hno] at hdir
        cases hdir
      · -- only the root is written with a dot at the end
        have hl₁ := locate_of_parent hdown hq hparent hl
        have hroot := eq_address_of_locate hdown hl₁
        rw [Path.address, hdot hd] at hroot
        exact h (hiff.2 (isDir_iff.2 ⟨a, hl₁, hroot ▸ rfl⟩))

/-- Behind a directory that was not made, a path leads nowhere later. -/
theorem locate_ne_ok_of_blocked (hdown : p.IsDown) (hq : p.parent? = some q)
    (h : (t.makeDirs q).2 ≠ .ok ()) (hkeeps : Keeps (· <+: p.address) (t.makeDirs q).1 t'')
    (a : Address) : t''.locate p ≠ .ok a := by
  have hparent := isDir_of_keeps_of_blocked (hdown.parent hq) (Path.components_of_parent? hq).2.2 h
    (hkeeps.mono fun a ha => ha.trans (Path.address_parent_prefix hdown hq))
  exact locate_ne_ok_of_parent hq (components_ne_nil_of_blocked h) hparent a

/-- **A second attempt changes nothing**, at once or in a later tree. -/
theorem makeDirs_of_keeps (hdown : p.IsDown)
    (hkeeps : Keeps (· <+: p.address) (t.makeDirs p).1 t'') : (t''.makeDirs p).1 = t'' := by
  induction p using Path.parent_induct with
  | top p hq =>
    by_cases hne : p.components = []
    · rw [makeDirs_of_components_eq_nil hne]
    · obtain ⟨e, he⟩ := hdown.locate_of_parent?_eq_none hq t''
      exact (attempt_makeDirs_top hq hne t'').fst_eq (mkdir_of_locate_error he) fun _ => rfl
  | step p q hq ih =>
    have hdone : t''.isDir p = true → (t''.makeDirs p).1 = t'' := fun hd => by
      rw [makeDirs_of_isDir (.inr hd)]
    have hfailed : ∀ {e}, t''.mkdir p = .error e → (e = .notFound → (t''.makeDirs q).1 = t'') →
        (t''.makeDirs p).1 = t'' := fun hm => (attempt_makeDirs hq t'').fst_eq hm
    replace ih := fun h : Keeps (· <+: p.address) (t.makeDirs q).1 t'' => ih (hdown.parent hq)
      (h.mono fun a ha => ha.trans (Path.address_parent_prefix hdown hq))
    cases attempt_makeDirs hq t with
    | made hm hr =>
      rw [hr] at hkeeps
      exact hdone (isDir_of_keeps hdown hkeeps (isDir_of_mkdir hm))
    | madeBehind _ _ hm hr =>
      rw [hr] at hkeeps
      exact hdone (isDir_of_keeps hdown hkeeps (isDir_of_mkdir hm))
    | refused hm he hr _ =>
      rw [hr] at hkeeps
      exact hfailed (mkdir_error_of_keeps hdown hkeeps hm he) fun hc => absurd hc he
    | blocked _ ha hr =>
      -- a directory above is still missing, so this one cannot be made
      have hnowhere : (t.makeDirs q).2 ≠ .ok () → Keeps (· <+: p.address) (t.makeDirs q).1 t'' →
          ∀ a, t''.locate p ≠ .ok a := locate_ne_ok_of_blocked hdown hq
      rw [hr] at hkeeps
      rw [ha] at ih hnowhere
      cases hm : t''.mkdir p with
      | error e => exact hfailed hm fun _ => ih hkeeps
      | ok u =>
        obtain ⟨a, hl, -⟩ := mkdir_eq_ok hm
        exact absurd hl (hnowhere (by simp) hkeeps a)
    | refusedBehind _ ha hm hr _ =>
      -- the path itself is at fault
      have hparent := isDir_of_makeDirs (t := t) (p := q) (by rw [ha])
      rw [ha] at hparent ih
      rw [hr] at hkeeps
      cases hm' : t''.mkdir p with
      | error e => exact hfailed hm' fun _ => ih hkeeps
      | ok u =>
        obtain ⟨a, hl, hnone, -⟩ := mkdir_eq_ok hm'
        rcases exists_of_mkdir_error hdown hq hparent hm hl with ⟨n, hl₁, hg⟩ | hd
        · rw [hkeeps a (eq_address_of_locate hdown hl₁ ▸ List.prefix_rfl) n hg] at hnone
          cases hnone
        · rw [endsWithDot_of_mkdir hm'] at hd
          cases hd

/-! ### The directories above a path -/

/-- The directories above a path are made where nothing stood. -/
theorem addsDirs_makeParents (hdown : p.IsDown) (t : Tree) :
    AddsDirs (IsOnWay p.address.dropLast) t (t.makeParents p).1 := by
  rw [makeParents]
  cases hq : p.parent? with
  | none => exact .refl _ t
  | some q =>
    rw [← hdown.address_parent hq]
    exact addsDirs_makeDirs (hdown.parent hq) t

/-- A second attempt at the directories above a path changes nothing. -/
theorem makeParents_of_keeps (hdown : p.IsDown)
    (hk : Keeps (· <+: p.address) (t.makeParents p).1 t'') : (t''.makeParents p).1 = t'' := by
  rw [makeParents] at hk ⊢
  cases hq : p.parent? with
  | none => rfl
  | some q =>
    rw [hq] at hk
    exact makeDirs_of_keeps (hdown.parent hq)
      (hk.mono fun a ha => ha.trans (Path.address_parent_prefix hdown hq))

/-- Behind the directories above it, a path leads where it leads in any tree. -/
theorem locate_of_makeParents (hdown : p.IsDown) (h : (t.makeParents p).2 = .ok ()) {a : Address}
    (hl : t'.locate p = .ok a) : (t.makeParents p).1.locate p = .ok a := by
  rw [makeParents] at h ⊢
  cases hq : p.parent? with
  | none =>
    obtain ⟨e, he⟩ := hdown.locate_of_parent?_eq_none hq t'
    rw [he] at hl
    cases hl
  | some q =>
    rw [hq] at h
    exact locate_of_parent hdown hq (isDir_of_makeDirs h) hl

/-- Where the directories above a path could not be made, the path leads nowhere later. -/
theorem makeParents_blocked (hdown : p.IsDown) (h : (t.makeParents p).2 ≠ .ok ())
    (hk : Keeps (· <+: p.address) (t.makeParents p).1 t'') (a : Address) : t''.locate p ≠ .ok a := by
  rw [makeParents] at h hk
  cases hq : p.parent? with
  | none =>
    rw [hq] at h
    exact absurd rfl h
  | some q =>
    rw [hq] at h hk
    exact locate_ne_ok_of_blocked hdown hq h hk a

end Tree

end ElementModules
