import ElementModules.Proofs.Tree.Preserving

/-!
# Directories that can be entered

Whether the files of a directory can be read is decided by the directory alone: either its path leads
into a directory, and every name leads to a place in it, or every name leads to the same fault
(`exists_locate_join_error`). If the fault is anything but that something is missing, the directory
cannot be made, either. And if it is missing, an attempt to make it leaves one of two states behind,
whatever the path looks like, also if it goes up and down again: the directory can be entered, or a
second attempt fails without changing anything (`makeDirs_of_makeDirs_error`).

A path that goes up may lead to a directory that has stood all the time, but only after others that
it leads through were made. Such a path makes a detour (`Detours`); a path without `..` makes none.

## Main results

* `Opens.locate_join`, `exists_locate_join_error`: where the names of a directory lead.
* `exists_opens_of_makeDirs`, `makeDirs_makeDirs`, `makeDirs_of_makeDirs_error`: what an attempt to make
  a directory leaves behind.
* `not_detours_of_isDown`, `not_detours_of_opens`: paths without `..` and paths to directories make no
  detour.
-/

namespace ElementModules.Tree

variable {t t' : Tree} {p q : Path} {a d : Address} {n : Text}

/-- A name that is one piece of a path and stands for itself, however long it is. -/
structure IsPathPiece (n : Text) : Prop where
  slash_not_mem : '/' ∉ n
  null_not_mem : '\x00' ∉ n
  component : pieceComponent? n = some (.name n)

/-- The path of a directory leads into the directory at an address. The empty path stands for the
root. -/
def Opens (t : Tree) (p : Path) (d : Address) : Prop :=
  p.text = [] ∧ d = [] ∨ t.locate p = .ok d ∧ t.get? d = some .dir

theorem Opens.of_keepsDirs (h : t.Opens p d) (hk : KeepsDirs t t') : t'.Opens p d :=
  h.imp_right fun ⟨hl, hd⟩ => ⟨hk.locate hl, hk.dir d hd⟩

theorem locate_of_text_eq_nil (h : p.text = []) (t : Tree) : t.locate p = .error .notFound := by
  rw [locate, if_pos h]

theorem exists_opens_iff : (∃ d, t.Opens p d) ↔ p.components = [] ∨ t.isDir p = true := by
  rw [Path.components_eq_nil_iff, isDir_iff]
  constructor
  · rintro ⟨d, ⟨hempty, -⟩ | h⟩
    · exact .inl hempty
    · exact .inr ⟨d, h⟩
  · rintro (hempty | ⟨d, h⟩)
    · exact ⟨[], .inl ⟨hempty, rfl⟩⟩
    · exact ⟨d, .inr h⟩

/-! ### Names in a directory -/

/-- A last component leads on from where the others lead. -/
theorem follow_concat (t : Tree) (a : Address) (cs : List Component) (c : Component) :
    t.follow a (cs ++ [c]) = match t.follow a cs with
      | .error e => .error e
      | .ok d => t.follow d [c] := by
  induction cs generalizing a with
  | nil => rfl
  | cons x cs ih =>
    rw [List.cons_append, follow, follow]
    cases t.enter a with
    | error e => rfl
    | ok u =>
      cases step a x with
      | error e => rfl
      | ok b => exact ih b

/-- The text of a path with a name appended holds a null character if that of the path does. -/
theorem IsPathPiece.null_mem_join_iff (hn : IsPathPiece n) (p : Path) :
    '\x00' ∈ (p.join ⟨n⟩).text ↔ '\x00' ∈ p.text := by
  constructor
  · intro hc
    rcases (Path.join_piece hn.slash_not_mem hn.component p).2.2 _ hc with hc | hc | hc
    · exact hc
    · cases hc
    · exact absurd hc hn.null_not_mem
  · intro hc
    rw [Path.join, if_neg (by simp [Path.isAbsolute_of_not_mem hn.slash_not_mem])]
    split_ifs <;> exact List.mem_append_left _ hc

/-- A path with a name appended can stand for a file. -/
theorem IsPathPiece.requiresDirectory_join (hn : IsPathPiece n) (p : Path) :
    (p.join ⟨n⟩).requiresDirectory = false :=
  Path.requiresDirectory_join_piece hn.slash_not_mem hn.component p

/-- Where a path leads to which a name is appended. -/
theorem locate_join_piece (hn : IsPathPiece n) (t : Tree) (p : Path) :
    t.locate (p.join ⟨n⟩) = if p.text = [] then step [] (.name n) else
      match t.locate p with
      | .error e => .error e
      | .ok d => t.follow d [.name n] := by
  have hcomponents := (Path.join_piece hn.slash_not_mem hn.component p).2.1
  have hne : (p.join ⟨n⟩).text ≠ [] := by
    intro hc
    rw [Path.components_eq_nil_iff.2 hc] at hcomponents
    simp at hcomponents
  rw [locate, if_neg hne, hcomponents, follow_concat]
  simp only [hn.null_mem_join_iff p]
  by_cases hempty : p.text = []
  · rw [if_neg (by simp [hempty]), if_pos hempty, Path.components_eq_nil_iff.2 hempty]
    simp only [follow, enter, get?_nil]
    cases step [] (.name n) <;> rfl
  · rw [if_neg hempty, locate, if_neg hempty]
    split_ifs <;> rfl

/-- **In a directory that can be entered** a name leads to its place. -/
theorem Opens.locate_join (h : t.Opens p d) (hn : IsPathPiece n) :
    t.locate (p.join ⟨n⟩) = step d (.name n) := by
  rw [locate_join_piece hn]
  rcases h with ⟨hempty, rfl⟩ | ⟨hl, hd⟩
  · rw [if_pos hempty]
  · have hne : p.text ≠ [] := fun hempty => by
      rw [locate_of_text_eq_nil hempty] at hl
      cases hl
    rw [if_neg hne, hl]
    simp only [follow, enter, hd]
    cases step d (.name n) <;> rfl

/-! ### Making the directory -/

theorem makeDirs_of_opens (h : t.Opens p d) : t.makeDirs p = (t, .ok ()) :=
  makeDirs_of_isDir (exists_opens_iff.1 ⟨d, h⟩)

/-- A directory that cannot be made, although nothing is missing, is not tried again. -/
theorem makeDirs_of_mkdir_error (hne : p.components ≠ []) {e : Fault} (hm : t.mkdir p = .error e)
    (he : e ≠ .notFound) (hdir : t.isDir p = false) : ∃ e', t.makeDirs p = (t, .error e') := by
  obtain ⟨above, ha⟩ := p.exists_ancestors_eq
  refine ⟨e, ?_⟩
  rw [makeDirs, ha, makeChain, if_neg hne, hm]
  simp [he, hdir]

/-- **Where no directory can be entered** all names lead to the same fault, and unless something is
missing no directory can be made. -/
theorem exists_locate_join_error (h : ∀ d, ¬ t.Opens p d) :
    ∃ e, (∀ n, IsPathPiece n → t.locate (p.join ⟨n⟩) = .error e)
      ∧ (e ≠ .notFound → ∃ e', t.makeDirs p = (t, .error e')) := by
  have hclosed : ¬ (p.components = [] ∨ t.isDir p = true) := fun hc => by
    obtain ⟨d, hd⟩ := exists_opens_iff.2 hc
    exact h d hd
  rw [not_or, Bool.not_eq_true] at hclosed
  obtain ⟨hne, hdir⟩ := hclosed
  have hempty : p.text ≠ [] := mt Path.components_eq_nil_iff.2 hne
  have hblocked : ∀ {e}, t.mkdir p = .error e → e ≠ .notFound → ∃ e', t.makeDirs p = (t, .error e') :=
    fun hm he => makeDirs_of_mkdir_error hne hm he hdir
  cases hl : t.locate p with
  | error e =>
    refine ⟨e, fun n hn => ?_, hblocked (mkdir_of_locate_error hl)⟩
    rw [locate_join_piece hn, if_neg hempty, hl]
  | ok d =>
    cases hg : t.get? d with
    | none =>
      refine ⟨.notFound, fun n hn => ?_, fun he => absurd rfl he⟩
      rw [locate_join_piece hn, if_neg hempty, hl]
      simp only [follow, enter, hg]
    | some k =>
      cases k with
      | dir => exact absurd (.inr ⟨hl, hg⟩) (h d)
      | file c =>
        have hm : t.mkdir p = .error .alreadyExists := by
          rw [mkdir, hl]
          simp only [hg]
        refine ⟨.notDirectory, fun n hn => ?_, fun _ => hblocked hm (by decide)⟩
        rw [locate_join_piece hn, if_neg hempty, hl]
        simp only [follow, enter, hg]

/-- **A directory that was made** can be entered. -/
theorem exists_opens_of_makeDirs (h : (t.makeDirs p).2 = .ok ()) : ∃ d, (t.makeDirs p).1.Opens p d :=
  exists_opens_iff.2 (isDir_of_makeDirs h)

/-- A directory that was not made does not stand there. -/
theorem isDir_of_makeDirs_error {e : Fault} (h : (t.makeDirs p).2 = .error e) :
    (t.makeDirs p).1.isDir p = false := by
  have hne : p.components ≠ [] := components_ne_nil_of_blocked (t := t) (by simp [h])
  induction p using Path.parent_induct generalizing e with
  | top p hq =>
    cases hm : t.mkdir p with
    | ok t₁ =>
      rw [(attempt_makeDirs_top hq hne t).eq_of_mkdir hm] at h
      cases h
    | error e' =>
      have hsame := (attempt_makeDirs_top hq hne t).fst_eq hm fun _ => rfl
      by_contra hdir
      rw [Bool.not_eq_false, hsame] at hdir
      rw [makeDirs_of_isDir (.inr hdir)] at h
      cases h
  | step p q hq ih =>
    cases attempt_makeDirs hq t with
    | made _ hr | madeBehind _ _ _ hr =>
      rw [hr] at h
      cases h
    | refused _ _ hr hiff | refusedBehind _ _ _ hr hiff =>
      rw [hr] at h ⊢
      exact Bool.eq_false_iff.2 fun hd => by rw [hiff.2 hd] at h; cases h
    | blocked _ ha hr =>
      -- the directory above is still missing, so this one leads nowhere
      have hq' : q.components ≠ [] := components_ne_nil_of_blocked (t := t) (by simp [ha])
      have hparent := ih (by rw [ha]) hq'
      rw [ha] at hparent
      rw [hr, Bool.eq_false_iff]
      intro hdir
      obtain ⟨a, hl, -⟩ := isDir_iff.1 hdir
      exact locate_ne_ok_of_parent hq hq' hparent a hl

/-- **A second attempt changes nothing**, whatever the path looks like. -/
theorem makeDirs_makeDirs (t : Tree) (p : Path) :
    ((t.makeDirs p).1.makeDirs p).1 = (t.makeDirs p).1 := by
  -- an attempt that changed nothing is repeated as it was
  have hsame : ∀ {p}, (t.makeDirs p).1 = t → ((t.makeDirs p).1.makeDirs p).1 = (t.makeDirs p).1 :=
    fun hs => by rw [hs, hs]
  induction p using Path.parent_induct with
  | top p hq =>
    by_cases hne : p.components = []
    · exact hsame (by rw [makeDirs_of_components_eq_nil hne])
    · have hattempt := attempt_makeDirs_top hq hne t
      cases hm : t.mkdir p with
      | ok t₁ => rw [hattempt.eq_of_mkdir hm, makeDirs_of_isDir (.inr (isDir_of_mkdir hm))]
      | error e => exact hsame (hattempt.fst_eq hm fun _ => rfl)
  | step p q hq ih =>
    cases attempt_makeDirs hq t with
    | made hm hr | madeBehind _ _ hm hr =>
      rw [hr, makeDirs_of_isDir (.inr (isDir_of_mkdir hm))]
    | refused _ _ hr _ => exact hsame (by rw [hr])
    | blocked _ ha hr =>
      -- the directory above is still missing, so this one leads nowhere
      have hparent := isDir_of_makeDirs_error (t := t) (p := q) (by rw [ha])
      have hq' : q.components ≠ [] := components_ne_nil_of_blocked (t := t) (by simp [ha])
      rw [ha] at ih hparent
      rw [hr]
      cases hm : Tree.mkdir _ p with
      | ok u =>
        obtain ⟨a, hl, -⟩ := mkdir_eq_ok hm
        exact absurd hl (locate_ne_ok_of_parent hq hq' hparent a)
      | error e => exact (attempt_makeDirs hq _).fst_eq hm fun _ => ih
    | refusedBehind _ ha hm hr _ =>
      -- the directory above stands
      rw [ha] at ih
      rw [hr]
      exact (attempt_makeDirs hq _).fst_eq hm fun _ => ih

/-- **A directory that could not be made** is not made by a second attempt, which changes nothing. -/
theorem makeDirs_of_makeDirs_error {e : Fault} (h : (t.makeDirs p).2 = .error e) :
    ∃ e', (t.makeDirs p).1.makeDirs p = ((t.makeDirs p).1, .error e') := by
  have hsame := makeDirs_makeDirs t p
  have hdir := isDir_of_makeDirs_error h
  cases hr : ((t.makeDirs p).1.makeDirs p).2 with
  | error e' => exact ⟨e', Prod.ext hsame hr⟩
  | ok u =>
    have hne : p.components ≠ [] := components_ne_nil_of_blocked (t := t) (by simp [h])
    have hmade := (isDir_of_makeDirs hr).resolve_left hne
    rw [hsame, hdir] at hmade
    cases hmade

/-! ### Detours -/

/-- The path of a directory leads to one that stands already, but only after others are made. -/
def Detours (t : Tree) (p : Path) : Prop :=
  ∃ d, (t.makeDirs p).1.Opens p d ∧ t.get? d = some .dir ∧ ¬ t.Opens p d

/-- **A path without `..`** makes no detour. -/
theorem not_detours_of_isDown (hp : p.IsDown) (t : Tree) : ¬ t.Detours p := by
  rintro ⟨d, hopens, hd, hclosed⟩
  rcases hopens with hempty | ⟨hl, -⟩
  · exact hclosed (.inl hempty)
  · exact hclosed (.inr ⟨locate_of_get? hp hl hd, hd⟩)

/-- A path that leads to a directory makes no detour either. -/
theorem not_detours_of_opens (h : t.Opens p d) : ¬ t.Detours p := by
  rintro ⟨e, hopens, -, hclosed⟩
  rw [makeDirs_of_opens h] at hopens
  exact hclosed hopens

end ElementModules.Tree
