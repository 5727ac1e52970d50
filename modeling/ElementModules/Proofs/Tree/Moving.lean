import ElementModules.Proofs.Tree.Making
import Mathlib.Tactic.ByContra
import Mathlib.Tactic.Push

/-!
# Files that are written and moved

Before a file is put at a path, the directories above it are made. Then it is put there, unless the
path is **blocked**: it leads nowhere, or it is written like the path of a directory. A path that is
blocked then is blocked in every later tree in which the nodes on the way still stand, so a second
attempt fails as well (`blocked_of_keeps`).

## Main results

* `get?_transfer`: what a move does to a tree.
* `get?_of_free`: where nothing stood, nothing stands after the directories above were made.
* `moveFile_cases`: a file that is moved to a free place is there, or its place is blocked.
-/

namespace ElementModules.Tree

variable {t t' t'' : Tree} {p s d : Path}

/-- Nothing lies in what is no directory. -/
theorem hasChildren_of_get?_ne {a : Address} (h : t.get? a ≠ some .dir) : t.hasChildren a = false := by
  rw [hasChildren, List.any_eq_false]
  intro e he hc
  have hdir := (t.closed e.1 (List.mem_map_of_mem he)).2
  rw [of_decide_eq_true hc] at hdir
  exact h hdir

/-- What stands at an address after a file was moved. -/
theorem get?_transfer {a b : Address} {c : Content} (ha : t.get? a = some (.file c)) (hab : a ≠ b)
    (hplace : t.hasPlace b = true) (hb : t.get? b ≠ some .dir) (x : Address) :
    (t.transfer a b).get? x
      = if x = a then none else if x = b then some (.file c) else t.get? x := by
  have hset := get?_setFile (c := c) hplace hb
  have hne : a ≠ [] := by
    rintro rfl
    cases ha
  have hfile : (t.setFile b c).get? a = some (.file c) := by rw [hset, if_neg hab, ha]
  rw [transfer, ha]
  simp only [if_neg hab]
  rw [get?_remove (hasChildren_of_get?_ne (by rw [hfile]; simp)) hne, hset]

/-! ### Blocked paths -/

/-- A path at which no file can be put. -/
def IsBlocked (t : Tree) (p : Path) : Prop :=
  (∀ a, t.locate p ≠ .ok a) ∨ p.requiresDirectory = true

/-- A path that leads somewhere behind the directories above it leads there in no other tree, either,
or it is blocked in none. -/
theorem blocked_of_keeps (hdown : p.IsDown)
    (hk : Keeps (· <+: p.address) (t.makeParents p).1 t'')
    (h : (t.makeParents p).2 = .ok () → IsBlocked (t.makeParents p).1 p) : IsBlocked t'' p := by
  by_cases hok : (t.makeParents p).2 = .ok ()
  · refine (h hok).imp_left fun hnone a hl => ?_
    exact hnone a (locate_of_makeParents hdown hok hl)
  · exact .inl (makeParents_blocked hdown hok hk)

theorem rename_of_isBlocked (h : IsBlocked t d) (s : Path) : ∃ e, t.rename s d = .error e := by
  rw [rename]
  cases t.locate s with
  | error e => exact ⟨e, rfl⟩
  | ok a =>
    cases hl : t.locate d with
    | error e => exact ⟨e, rfl⟩
    | ok b =>
      have hr := h.resolve_left fun hnone => hnone b hl
      exact ⟨.isDirectory, by simp [hr]⟩

theorem writeFile_of_isBlocked (h : IsBlocked t p) (c : Content) :
    ∃ e, t.writeFile p c = .error e := by
  rw [writeFile]
  cases hl : t.locate p with
  | error e => exact ⟨e, rfl⟩
  | ok a =>
    have hr := h.resolve_left fun hnone => hnone a hl
    cases hg : t.get? a with
    | none => exact ⟨.isDirectory, by simp [hg, hr]⟩
    | some n =>
      cases n with
      | dir => exact ⟨.isDirectory, by simp [hg]⟩
      | file c' => exact ⟨.notDirectory, by simp [hg, hr]⟩

/-! ### Free places -/

section Free

variable (hdown : p.IsDown) (hfree : t.hasNode p = false)
include hdown hfree

/-- Nothing stands at a free place after the directories above it were made. -/
theorem get?_of_free {a : Address} (hl : (t.makeParents p).1.locate p = .ok a)
    (hr : p.requiresDirectory = false) : (t.makeParents p).1.get? a = none := by
  rw [Bool.eq_false_iff] at hfree
  have ha := eq_address_of_locate hdown hl
  cases hg : (t.makeParents p).1.get? a with
  | none => rfl
  | some n =>
    exfalso
    have hn : t.get? a = some n := by
      rcases addsDirs_makeParents hdown t a with he | ⟨hnone, -, hpre⟩
      · rw [← he, hg]
      · -- only the root is an address in front of itself
        have hnil : p.address = [] := by
          by_contra hne
          have hlt := (ha ▸ hpre.1).length_le
          have := List.length_pos_iff.2 hne
          rw [List.length_dropLast] at hlt
          omega
        rw [ha, hnil] at hnone
        cases hnone
    have hl' := locate_of_get? hdown hl hn
    refine hfree (hasNode_iff.2 ?_)
    cases n with
    | dir => exact .inl (isDir_iff.2 ⟨a, hl', hn⟩)
    | file c => exact .inr (isFile_iff.2 ⟨a, c, hl', hn, hr⟩)

/-- A free place that is not blocked has room for a file. -/
theorem hasPlace_of_free (h : ¬ IsBlocked (t.makeParents p).1 p) :
    p.requiresDirectory = false ∧ (t.makeParents p).1.locate p = .ok p.address
      ∧ (t.makeParents p).1.get? p.address = none
      ∧ (t.makeParents p).1.hasPlace p.address = true := by
  obtain ⟨hl, hr⟩ := not_or.1 h
  rw [Bool.not_eq_true] at hr
  push Not at hl
  obtain ⟨a, hl⟩ := hl
  have ha := eq_address_of_locate hdown hl
  subst ha
  have hnone := get?_of_free hdown hfree hl hr
  refine ⟨hr, hl, hnone, hasPlace_of_locate hl ?_⟩
  intro hnil
  rw [hnil] at hnone
  cases hnone

end Free

/-- **A file that is moved to a free place** is there, or its place is blocked. -/
theorem moveFile_cases (hs : s.IsDown) (hd : d.IsDown) (hfile : t.isFile s = true)
    (hfree : t.hasNode d = false) :
    ((t.moveFile s d).1 = (t.makeParents d).1
        ∧ ∀ t'', Keeps (· <+: d.address) (t.makeParents d).1 t'' → IsBlocked t'' d)
      ∨ ∃ c, (t.makeParents d).1.get? s.address = some (.file c)
        ∧ (t.makeParents d).1.get? d.address = none
        ∧ (t.makeParents d).1.hasPlace d.address = true
        ∧ (t.makeParents d).1.locate d = .ok d.address ∧ d.requiresDirectory = false
        ∧ (t.moveFile s d).1 = (t.makeParents d).1.transfer s.address d.address := by
  by_cases hblocked : (t.makeParents d).2 = .ok () → IsBlocked (t.makeParents d).1 d
  · left
    refine ⟨?_, fun t'' hk => blocked_of_keeps hd hk hblocked⟩
    rw [moveFile]
    cases hp : t.makeParents d with
    | mk t₁ r =>
      cases r with
      | error e => rfl
      | ok u =>
        rw [hp] at hblocked
        obtain ⟨e, he⟩ := rename_of_isBlocked (hblocked rfl) s
        simp only [he]
  · right
    rw [Classical.not_imp] at hblocked
    obtain ⟨hok, hnot⟩ := hblocked
    obtain ⟨hr, hl, hnone, hplace⟩ := hasPlace_of_free hd hfree hnot
    have hkeeps := (addsDirs_makeParents hd t).keeps fun _ => True
    obtain ⟨a, c, hls, hg, -⟩ := isFile_iff.1 hfile
    obtain rfl := eq_address_of_locate hs hls
    have hg₁ := hkeeps _ trivial _ hg
    have hls₁ := locate_of_keeps hs (hkeeps.mono fun _ _ => trivial) hls
    refine ⟨c, hg₁, hnone, hplace, hl, hr, ?_⟩
    rw [moveFile]
    cases hp : t.makeParents d with
    | mk t₁ r =>
      rw [hp] at hok hl hnone hls₁
      simp only at hok hl hnone hls₁
      subst hok
      simp only [rename, hls₁, hl, hr, hnone]
      rfl

/-- A file cannot be moved to a blocked place. -/
theorem moveFile_ne_ok_of_isBlocked (h : IsBlocked (t.makeParents d).1 d) (s : Path) :
    (t.moveFile s d).2 ≠ .ok () := by
  rw [moveFile]
  cases hp : t.makeParents d with
  | mk t₁ r =>
    rw [hp] at h
    cases r with
    | error e => simp
    | ok u =>
      obtain ⟨e, he⟩ := rename_of_isBlocked h s
      simp [he]

/-- Moving a file to a blocked place changes nothing if the directories above it are there. -/
theorem moveFile_of_isBlocked (hsame : (t.makeParents d).1 = t) (h : IsBlocked t d) (s : Path) :
    (t.moveFile s d).1 = t := by
  rw [moveFile]
  cases hp : t.makeParents d with
  | mk t₁ r =>
    rw [hp] at hsame
    cases r with
    | error e => exact hsame
    | ok u =>
      obtain ⟨e, he⟩ := rename_of_isBlocked h s
      subst hsame
      simp only [he]

end ElementModules.Tree
