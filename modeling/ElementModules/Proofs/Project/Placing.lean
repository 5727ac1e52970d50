import ElementModules.Project.Arrangement
import ElementModules.Proofs.Tree.Moving

/-!
# The steps of an arrangement

A step of an arrangement makes a directory, moves a file or writes a stub. What it may change is
little: all nodes stay but a file that is moved away, and files appear only where the step puts one.
And a step is done once and for all: carried out again in a later tree, it changes nothing, as long
as the nodes on the way to its place still stand, and no file came to the place from which it moves.

## Main results

* `placeDir_of_keeps`, `relocate_of_keeps`, `placeStub_of_keeps`: steps that are carried out again.
* `keeps_relocate`, `puts_relocate` and the like: what a step keeps and where nodes appear.
-/

namespace ElementModules.Project

open ElementModules.Tree

variable {t t' t'' : Tree} {p s d : Path} {a : Address} {c : Content}

/-! ### New nodes -/

/-- A tree in which new nodes stand nowhere but at an address and on the way to it. -/
def Puts (b : Address) (t t' : Tree) : Prop :=
  ∀ a n, t'.get? a = some n → t.get? a = some n ∨ IsOnWay b a ∧ (n = .dir ∨ a = b)

theorem Puts.refl (b : Address) (t : Tree) : Puts b t t := fun _ _ h => .inl h

theorem Puts.of_addsDirs (h : AddsDirs (IsOnWay a) t t') : Puts a t t' := by
  intro x n hn
  rcases h x with hx | ⟨-, hx, hway⟩
  · exact .inl (hx ▸ hn)
  · rw [hx] at hn
    exact .inr ⟨hway, .inl (Option.some.inj hn).symm⟩

theorem puts_makeParents (hp : p.IsDown) (t : Tree) : Puts p.address t (t.makeParents p).1 :=
  .of_addsDirs ((addsDirs_makeParents hp t).mono fun _ ha => ha.mono (List.dropLast_prefix _))

theorem isOnWay_of_isFile (hp : p.IsDown) (h : t.isFile p = true) : IsOnWay p.address p.address := by
  obtain ⟨a, c, hloc, -⟩ := isFile_iff.1 h
  obtain rfl := eq_address_of_locate hp hloc
  exact ⟨List.prefix_rfl, isFileName_of_locate hloc⟩

/-! ### Directories -/

theorem placeDir_fst (t : Tree) (p : Path) :
    (placeDir t p).1 = if t.hasNode p = true then t else (t.makeDirs p).1 := by
  rw [placeDir]
  split_ifs with hdir hnode hnode
  · rfl
  · exact absurd (hasNode_iff.2 (.inl hdir)) hnode
  · rfl
  · rfl

theorem addsDirs_placeDir (hp : p.IsDown) (t : Tree) :
    AddsDirs (IsOnWay p.address) t (placeDir t p).1 := by
  rw [placeDir_fst]
  split_ifs
  · exact .refl _ t
  · exact addsDirs_makeDirs hp t

/-- A directory that is asked for again. -/
theorem placeDir_of_keeps (hp : p.IsDown) (hk : Keeps (· <+: p.address) (placeDir t p).1 t'') :
    (placeDir t'' p).1 = t'' := by
  rw [placeDir_fst] at hk ⊢
  by_cases hnode : t.hasNode p = true
  · rw [if_pos hnode] at hk
    rw [if_pos (hasNode_of_keeps hp hk hnode)]
  · rw [if_neg hnode] at hk
    split_ifs
    · rfl
    · exact makeDirs_of_keeps hp hk

/-! ### Moves -/

theorem relocate_fst (t : Tree) (s d : Path) :
    (relocate t s d).1
      = if t.isFile s = true ∧ t.hasNode d = false then (t.moveFile s d).1 else t := by
  rw [relocate]
  cases t.isFile s <;> cases t.hasNode d <;> simp

section Relocate

variable (hs : s.IsDown) (hd : d.IsDown)
include hs hd

/-- What a move does: nothing, or it only makes directories in front of a place that is blocked, or a
file is moved to a place where nothing stands. -/
theorem relocate_cases (t : Tree) :
    (relocate t s d).1 = t ∧ (t.isFile s = false ∨ t.hasNode d = true)
      ∨ (relocate t s d).1 = (t.makeParents d).1
        ∧ (∀ t'', Keeps (· <+: d.address) (t.makeParents d).1 t'' → IsBlocked t'' d)
      ∨ s.address ≠ d.address ∧ (relocate t s d).1.isFile d = true
        ∧ (t.makeParents d).1.get? d.address = none
        ∧ ∃ c, ∀ x, (relocate t s d).1.get? x = if x = s.address then none
          else if x = d.address then some (.file c) else (t.makeParents d).1.get? x := by
  rw [relocate_fst]
  split_ifs with h
  · right
    obtain ⟨hfile, hfree⟩ := h
    rcases moveFile_cases hs hd hfile hfree with h | ⟨c, hg, hnone, hplace, hl, hr, he⟩
    · exact .inl h
    · right
      have hne : s.address ≠ d.address := by
        intro he
        rw [he, hnone] at hg
        cases hg
      have hget := get?_transfer hg hne hplace (by rw [hnone]; simp)
      have hput : ((t.makeParents d).1.transfer s.address d.address).get? d.address
          = some (.file c) := by rw [hget, if_neg (Ne.symm hne), if_pos rfl]
      rw [he]
      exact ⟨hne, isFile_iff.2 ⟨_, c, locate_of_get? hd hl hput, hput, hr⟩, hnone, c, hget⟩
  · left
    refine ⟨rfl, ?_⟩
    cases hf : t.isFile s
    · exact .inl rfl
    · cases hn : t.hasNode d
      · exact absurd ⟨hf, hn⟩ h
      · exact .inr rfl

theorem keeps_relocate (t : Tree) : Keeps (· ≠ s.address) t (relocate t s d).1 := by
  intro a ha n hn
  have hkeeps := (addsDirs_makeParents hd t).keeps (fun _ => True) a trivial n hn
  rcases relocate_cases hs hd t with ⟨he, -⟩ | ⟨he, -⟩ | ⟨-, -, hnone, c, hget⟩
  · rw [he, hn]
  · rw [he, hkeeps]
  · rw [hget, if_neg ha, if_neg, hkeeps]
    rintro rfl
    rw [hnone] at hkeeps
    cases hkeeps

theorem puts_relocate (t : Tree) : Puts d.address t (relocate t s d).1 := by
  have hadds := puts_makeParents hd t
  rcases relocate_cases hs hd t with ⟨he, -⟩ | ⟨he, -⟩ | ⟨-, hput, -, c', hget⟩
  · rw [he]
    exact .refl _ t
  · rwa [he]
  · intro a n hn
    rw [hget] at hn
    split_ifs at hn with h₁ h₂
    · exact .inr ⟨h₂ ▸ isOnWay_of_isFile hd hput, .inr h₂⟩
    · exact hadds a n hn

/-- **A move that is asked for again** changes nothing: there is no file to be moved, or its target
exists or is blocked. -/
theorem relocate_of_keeps (hk : Keeps (· <+: d.address) (relocate t s d).1 t'')
    (hsource : ∀ c, t''.get? s.address = some (.file c) →
      (relocate t s d).1.get? s.address = some (.file c)) : (relocate t'' s d).1 = t'' := by
  rw [relocate_fst]
  split_ifs with h
  · obtain ⟨hfile, hfree⟩ := h
    have hfree' : ∀ u, Keeps (· <+: d.address) u t'' → u.hasNode d ≠ true := by
      intro u hu hn
      rw [hasNode_of_keeps hd hu hn] at hfree
      cases hfree
    rcases relocate_cases hs hd t with ⟨he, hno | hn⟩ | ⟨he, hblocked⟩ | ⟨-, hput, -⟩
    · -- the file that is moved now would have been moved before
      obtain ⟨b, c, hl, hg, hr⟩ := isFile_iff.1 hfile
      obtain rfl := eq_address_of_locate hs hl
      have hg' := hsource c hg
      rw [he] at hg'
      rw [isFile_iff.2 ⟨_, c, locate_of_get? hs hl hg', hg', hr⟩] at hno
      cases hno
    · exact absurd hn (hfree' t (he ▸ hk))
    · rw [he] at hk
      exact moveFile_of_isBlocked (makeParents_of_keeps hd hk) (hblocked t'' hk) s
    · exact absurd (hasNode_iff.2 (.inr hput)) (hfree' _ hk)
  · rfl

end Relocate

/-! ### Stubs -/

theorem placeStub_fst (t : Tree) (p : Path) (body : Text) :
    (placeStub t p body).1 = if t.hasNode p = true then t else (writeNew t p body).1 := by
  rw [placeStub]
  split_ifs <;> rfl

section PlaceStub

variable (hp : p.IsDown)
include hp

/-- What writing a stub does: nothing, or it only makes directories in front of a place that is
blocked, or a file is written where nothing stands. -/
theorem placeStub_cases (t : Tree) (body : Text) :
    (placeStub t p body).1 = t ∧ t.hasNode p = true
      ∨ (placeStub t p body).1 = (t.makeParents p).1
        ∧ (∀ t'', Keeps (· <+: p.address) (t.makeParents p).1 t'' → IsBlocked t'' p)
      ∨ (placeStub t p body).1.isFile p = true ∧ (t.makeParents p).1.get? p.address = none
        ∧ ∀ x, (placeStub t p body).1.get? x = if x = p.address then some (.file (.text body))
          else (t.makeParents p).1.get? x := by
  rw [placeStub_fst]
  split_ifs with hnode
  · exact .inl ⟨rfl, hnode⟩
  · right
    rw [Bool.not_eq_true] at hnode
    by_cases hblocked : (t.makeParents p).2 = .ok () → IsBlocked (t.makeParents p).1 p
    · left
      refine ⟨?_, fun t'' hk => blocked_of_keeps hp hk hblocked⟩
      rw [writeNew]
      cases hm : t.makeParents p with
      | mk t₁ r =>
        cases r with
        | error e => rfl
        | ok u =>
          rw [hm] at hblocked
          obtain ⟨e, he⟩ := writeFile_of_isBlocked (hblocked rfl) (.text body)
          simp only [writeText, he]
    · right
      rw [Classical.not_imp] at hblocked
      obtain ⟨hok, hnot⟩ := hblocked
      obtain ⟨hr, hl, hnone, hplace⟩ := hasPlace_of_free hp hnode hnot
      have he : (writeNew t p body).1
          = (t.makeParents p).1.setFile p.address (.text body) := by
        rw [writeNew]
        cases hm : t.makeParents p with
        | mk t₁ r =>
          rw [hm] at hok hl hnone
          simp only at hok hl hnone
          subst hok
          simp [writeText, writeFile_of_locate hl hr, hnone]
      have hget := get?_setFile (c := .text body) hplace (by rw [hnone]; simp)
      have hput : ((t.makeParents p).1.setFile p.address (.text body)).get? p.address
          = some (.file (.text body)) := by rw [hget, if_pos rfl]
      rw [he]
      exact ⟨isFile_iff.2 ⟨_, _, locate_of_get? hp hl hput, hput, hr⟩, hnone, hget⟩

theorem keeps_placeStub (t : Tree) (body : Text) (P : Address → Prop) :
    Keeps P t (placeStub t p body).1 := by
  intro a ha n hn
  have hkeeps := (addsDirs_makeParents hp t).keeps P a ha n hn
  rcases placeStub_cases hp t body with ⟨he, -⟩ | ⟨he, -⟩ | ⟨-, hnone, hget⟩
  · rw [he, hn]
  · rw [he, hkeeps]
  · rw [hget, if_neg, hkeeps]
    rintro rfl
    rw [hnone] at hkeeps
    cases hkeeps

theorem puts_placeStub (t : Tree) (body : Text) : Puts p.address t (placeStub t p body).1 := by
  have hadds := puts_makeParents hp t
  rcases placeStub_cases hp t body with ⟨he, -⟩ | ⟨he, -⟩ | ⟨hput, -, hget⟩
  · rw [he]
    exact .refl _ t
  · rwa [he]
  · intro a n hn
    rw [hget] at hn
    split_ifs at hn with h₁
    · exact .inr ⟨h₁ ▸ isOnWay_of_isFile hp hput, .inr h₁⟩
    · exact hadds a n hn

/-- A stub that is asked for again. -/
theorem placeStub_of_keeps {body : Text} (hk : Keeps (· <+: p.address) (placeStub t p body).1 t'') :
    (placeStub t'' p body).1 = t'' := by
  rw [placeStub_fst]
  split_ifs with hnode
  · rfl
  · have hfree : ∀ u, Keeps (· <+: p.address) u t'' → u.hasNode p ≠ true :=
      fun u hu hn => hnode (hasNode_of_keeps hp hu hn)
    rcases placeStub_cases hp t body with ⟨he, hn⟩ | ⟨he, hblocked⟩ | ⟨hput, -⟩
    · exact absurd hn (hfree t (he ▸ hk))
    · rw [he] at hk
      have hsame := makeParents_of_keeps hp hk
      obtain ⟨e, herror⟩ := writeFile_of_isBlocked (hblocked t'' hk) (.text body)
      rw [writeNew]
      cases hm : t''.makeParents p with
      | mk t₁ r =>
        rw [hm] at hsame
        cases r with
        | error e => exact hsame
        | ok u =>
          subst hsame
          simp only [writeText, herror]
    · exact absurd (hasNode_iff.2 (.inr hput)) (hfree _ hk)

end PlaceStub

end ElementModules.Project
