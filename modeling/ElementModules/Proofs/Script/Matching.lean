import ElementModules.Proofs.Script.Nesting
import ElementModules.Proofs.Script.Offsets
import Mathlib.Order.Bounds.Basic

/-!
# Matching brackets

The closing bracket of an opening one is searched for by depth and character alone. The depths are
those of a stack that also holds the substitutions of templates, whose closing brace is no code, and
that passes over closing brackets with nothing to close. Even so the search finds the place where
the stack is back to what it was in front of the opening bracket: while no mark is found, the
bracket stays on the stack (`State.IsAbove.step`), and the mark found takes it off
(`State.step_closer`).

So a bracket and its closing one **enclose** exactly the offsets behind the first whose depth is
larger, up to the second (`encloses_of_closeOffset?`). What is known of matching follows from that
and from the order of the offsets.

## Main results

* `closeIndex?_cases`: the run of the scan behind an opening bracket.
* `encloses_of_closeOffset?`, `deeper_of_closeOffset?_eq_none`: the depths behind an opening
  bracket.
* `closeOffset?_exact`: the closing bracket is the first place where the depth is back, it is none
  only if the depth is never back, and matched pairs are nested or disjoint.
-/

namespace ElementModules.Script

open Text

/-! ### The scan behind an opening bracket -/

section

variable {base : List Enclosure} {s : State}

/-- A bracket is open that was opened on a given stack. -/
def State.IsAbove (base : List Enclosure) (s : State) : Prop :=
  .bracket :: base <:+ s.stack

theorem State.IsAbove.lt_depth (h : s.IsAbove base) : base.length < s.depth :=
  h.length_le

theorem State.isAbove_opener {c : Char} {next : Option Char} (hc : isOpener c = true)
    (hl : s.layer c next = .code) : (s.step c).IsAbove s.stack := by
  have hstack : (s.step c).stack = .bracket :: s.stack := by rw [State.step_opener hc hl]
  exact ⟨[], hstack.symm⟩

/-- A bracket stays open over a character that does not close it. -/
theorem State.IsAbove.step (h : s.IsAbove base) {c : Char} {next : Option Char}
    (hc : closes (base.length + 1) ⟨c, s.layer c next, s.depth⟩ = false) :
    (s.step c).IsAbove base := by
  obtain ⟨e, he⟩ := h
  obtain ⟨e', he'⟩ := State.step_inside he.symm hc
  exact ⟨e', he'.symm⟩

/-- The character that closes a bracket takes it off the stack, and nothing else. -/
theorem State.step_closer (h : s.IsAbove base) {c : Char} {next : Option Char}
    (hc : closes (base.length + 1) ⟨c, s.layer c next, s.depth⟩ = true) :
    (s.step c).stack = base := by
  obtain ⟨mode, stack⟩ := s
  simp only [closes, Mark.isCode, Bool.and_eq_true, decide_eq_true_eq] at hc
  obtain ⟨⟨hcl, hl⟩, hd⟩ := hc
  obtain rfl : .bracket :: base = stack := h.eq_of_length hd.symm
  simp only [isCloser, Bool.or_eq_true, decide_eq_true_eq] at hcl
  rcases hcl with (rfl | rfl) | rfl <;> cases mode <;>
    simp_all [State.layer, State.layerInCode, State.step, State.stepCode, isOpener, isCloser]

/-- **The run behind an opening bracket.** Either no mark closes the bracket, and it stays open
behind every first part; or one does, and the bracket stays open up to it. -/
theorem closeIndex?_cases (h : s.IsAbove base) (t : Text) :
    (closeIndex? (base.length + 1) (marksFrom s t) = none
        ∧ ∀ q r, t = q ++ r → (s.run q).IsAbove base)
      ∨ ∃ w c r, t = w ++ c :: r
          ∧ closeIndex? (base.length + 1) (marksFrom s t) = some w.length
          ∧ closes (base.length + 1) ⟨c, (s.run w).layer c r.head?, (s.run w).depth⟩ = true
          ∧ ∀ q v, w = q ++ v → (s.run q).IsAbove base := by
  induction t generalizing s with
  | nil =>
    refine .inl ⟨rfl, fun q r hqr => ?_⟩
    obtain ⟨rfl, -⟩ := List.append_eq_nil_iff.1 hqr.symm
    exact h
  | cons d t ih =>
    rw [marksFrom, closeIndex?_eq, List.findIdx?_cons, ← closeIndex?_eq]
    cases hd : closes (base.length + 1) ⟨d, s.layer d t.head?, s.depth⟩ with
    | true =>
      refine .inr ⟨[], d, t, rfl, by rw [if_pos rfl]; rfl, hd, fun q v hqv => ?_⟩
      obtain ⟨rfl, -⟩ := List.append_eq_nil_iff.1 hqv.symm
      exact h
    | false =>
      rw [if_neg Bool.false_ne_true]
      rcases ih (h.step hd) with ⟨hn, hin⟩ | ⟨w, c, r, rfl, hi, hc, hin⟩
      · refine .inl ⟨by rw [hn, Option.map_none], fun q r hqr => ?_⟩
        rcases List.cons_eq_append_iff.1 hqr with ⟨rfl, -⟩ | ⟨q, rfl, hq⟩
        · exact h
        · exact hin q r hq
      · refine .inr ⟨d :: w, c, r, rfl, by rw [hi, Option.map_some, List.length_cons], hc, ?_⟩
        intro q v hqv
        rcases List.cons_eq_append_iff.1 hqv with ⟨rfl, -⟩ | ⟨q, rfl, hq⟩
        · exact h
        · exact hin q v hq

end

/-! ### Opening and closing brackets by offset -/

/-- An opening bracket of code stands at an offset. -/
def OpensAt (t : Text) (o : Nat) : Prop :=
  (∃ x, charAt? t o = some x ∧ isOpener x = true) ∧ layerAt? t o = some .code

/-- A closing bracket of code stands at an offset. -/
def ClosesAt (t : Text) (c : Nat) : Prop :=
  (∃ x, charAt? t c = some x ∧ isCloser x = true) ∧ layerAt? t c = some .code

/-- The brackets at two offsets enclose what is deeper than the first one. -/
structure Encloses (t : Text) (o c : Nat) : Prop where
  /-- The second bracket stands behind the first. -/
  lt : o < c
  /-- It is a closing bracket of code. -/
  closesAt : ClosesAt t c
  /-- Up to the second bracket everything is deeper. -/
  deeper : ∀ i, o < i → i ≤ c → depthBefore t o < depthBefore t i
  /-- Behind it the depth is back. -/
  back : depthBefore t (c + 1) = depthBefore t o

theorem utf8Size_of_isOpener {c : Char} (h : isOpener c = true) : c.utf8Size = 1 := by
  simp only [isOpener, Bool.or_eq_true, decide_eq_true_eq] at h
  rcases h with (rfl | rfl) | rfl <;> rfl

theorem utf8Size_of_isCloser {c : Char} (h : isCloser c = true) : c.utf8Size = 1 := by
  simp only [isCloser, Bool.or_eq_true, decide_eq_true_eq] at h
  rcases h with (rfl | rfl) | rfl <;> rfl

theorem lt_size_of_layerAt? {t : Text} {i : Nat} {l : Layer} (h : layerAt? t i = some l) :
    i < size t := by
  by_contra hi
  rw [layerAt?_of_le (by omega)] at h
  cases h

/-- An opening bracket of code cuts the text in front of it. -/
theorem OpensAt.exists_eq {t : Text} {o : Nat} (h : OpensAt t o) :
    ∃ p x r, t = p ++ x :: r ∧ o = size p ∧ isOpener x = true
      ∧ (endState p).layer x r.head? = .code := by
  obtain ⟨⟨x, hx, hop⟩, hl⟩ := h
  obtain ⟨p, c, r, rfl, hle, hlt⟩ := exists_char_at (lt_size_of_layerAt? hl)
  obtain rfl : c = x := Option.some.inj ((charAt?_at hle hlt).symm.trans hx)
  rw [utf8Size_of_isOpener hop] at hlt
  have ho : o = size p := by omega
  subst ho
  rw [layerAt?_at (Nat.le_refl _) (Nat.lt_add_of_pos_right c.utf8Size_pos)] at hl
  exact ⟨p, c, r, rfl, rfl, hop, Option.some.inj hl⟩

/-- A bracket that is matched is an opening bracket of code. -/
theorem opensAt_of_closeOffset? {t : Text} {o c : Nat} (h : closeOffset? (marks t) o = some c) :
    OpensAt t o := by
  obtain ⟨k, hk, -⟩ := Option.map_eq_some_iff.1 h
  have hlt : o < size t := by
    by_contra ho
    rw [fromOffset_of_le (by rw [marks, sizeOf_marksFrom]; omega)] at hk
    cases hk
  obtain ⟨p, x, r, rfl, hle, hlt⟩ := exists_char_at hlt
  obtain ⟨j, rfl⟩ := Nat.exists_eq_add_of_le hle
  have hj : j < x.utf8Size := by omega
  rw [fromOffset_marks_append, marksFrom, fromOffset, Mark.size, if_pos hj, closeAfter?] at hk
  split at hk
  · rename_i hopen
    rw [Bool.and_eq_true, Mark.isCode, decide_eq_true_eq] at hopen
    exact ⟨⟨x, charAt?_at hle hlt, hopen.1⟩, (layerAt?_at hle hlt).trans (congrArg some hopen.2)⟩
  · cases hk

/-! ### The depths behind an opening bracket -/

/-- First parts of one text compare by their sizes. -/
theorem exists_append_of_size_le {a b p q : Text} (h : a ++ b = p ++ q) (hs : size a ≤ size p) :
    ∃ w, p = a ++ w := by
  rcases List.append_eq_append_iff.1 h with ⟨w, hp, -⟩ | ⟨w, ha, -⟩
  · exact ⟨w, hp⟩
  · rw [ha, size_append] at hs
    obtain rfl := size_eq_zero.1 (show size w = 0 by omega)
    exact ⟨[], by rw [List.append_nil, ha, List.append_nil]⟩

section

variable {p w r : Text} {x : Char}

/-- Where the bracket stays open behind every first part, everything is deeper. -/
theorem lt_depthBefore (hx : isOpener x = true)
    (hin : ∀ q v, w = q ++ v → (((endState p).step x).run q).IsAbove (endState p).stack) {i : Nat}
    (hi : size p < i) (hw : i ≤ size (p ++ x :: w) ∨ r = []) :
    depthBefore (p ++ x :: (w ++ r)) (size p) < depthBefore (p ++ x :: (w ++ r)) i := by
  obtain ⟨a, b, hab, hle, hd, hmax⟩ := exists_depthBefore (p ++ x :: (w ++ r)) i
  have hopen : p ++ x :: (w ++ r) = (p ++ [x]) ++ (w ++ r) := by simp
  have hclose : p ++ x :: (w ++ r) = (p ++ x :: w) ++ r := by simp
  have hlen : size (p ++ [x]) ≤ i := by
    rw [size_append, size_cons, size_nil, utf8Size_of_isOpener hx]
    exact hi
  obtain ⟨q, rfl⟩ := exists_append_of_size_le (hopen.symm.trans hab) (hmax _ _ hopen hlen)
  have hshort : size (p ++ [x] ++ q) ≤ size (p ++ x :: w) := by
    rcases hw with hw | rfl
    · exact hle.trans hw
    · have htotal := congrArg size (hclose.symm.trans hab)
      rw [List.append_nil, size_append _ b] at htotal
      exact htotal ▸ Nat.le_add_right _ _
  obtain ⟨v, hv⟩ := exists_append_of_size_le (hab.symm.trans hclose) hshort
  have hq : w = q ++ v := by simpa using hv
  rw [hd, depthBefore_size, List.append_assoc, endState_append]
  exact (hin q v hq).lt_depth

end

/-- The search for the closing bracket, from an opening one. -/
theorem closeOffset?_eq {p r : Text} {x : Char} (hx : isOpener x = true)
    (hl : (endState p).layer x r.head? = .code) :
    closeOffset? (marks (p ++ x :: r)) (size p)
      = (closeIndex? ((endState p).depth + 1) (marksFrom ((endState p).step x) r)).map
          fun k => size (p ++ x :: r.take k) := by
  have hcut := fromOffset_marks_append p (x :: r) 0
  rw [Nat.add_zero, fromOffset_zero, marksFrom] at hcut
  rw [closeOffset?, hcut, closeAfter?, if_pos (by simp [hx, hl, Mark.isCode]), Option.map_map]
  refine congrArg (Option.map · _) (funext fun k => ?_)
  rw [Function.comp_apply, List.take_succ_cons, sizeOf_cons, size_append, size_cons, sizeOf, chars,
    List.map_take, ← chars, chars_marksFrom]
  rfl

/-- **What an opening bracket encloses.** Either its closing bracket is found, and the two enclose
what is deeper; or none is found, and everything behind the opening bracket is deeper. -/
theorem closeOffset?_cases {t : Text} {o : Nat} (h : OpensAt t o) :
    (∃ c, closeOffset? (marks t) o = some c ∧ Encloses t o c)
      ∨ closeOffset? (marks t) o = none ∧ ∀ i, o < i → depthBefore t o < depthBefore t i := by
  obtain ⟨p, x, r, rfl, rfl, hx, hl⟩ := h.exists_eq
  rw [closeOffset?_eq hx hl]
  rcases closeIndex?_cases (State.isAbove_opener hx hl) r with
    ⟨hn, hin⟩ | ⟨w, y, u, rfl, hi, hy, hin⟩
  · refine .inr ⟨by rw [State.depth, hn, Option.map_none], fun i hi => ?_⟩
    have hlt := lt_depthBefore (r := []) hx hin hi (.inr rfl)
    rwa [List.append_nil] at hlt
  · have hcl : isCloser y = true ∧ ((endState p).step x |>.run w).layer y u.head? = .code := by
      simp only [closes, Mark.isCode, Bool.and_eq_true, decide_eq_true_eq] at hy
      exact hy.1
    have hsize := utf8Size_of_isCloser hcl.1
    have hsplit : p ++ x :: (w ++ y :: u) = (p ++ x :: w) ++ y :: u := by simp
    have hend : endState (p ++ x :: w) = ((endState p).step x).run w := endState_append p _
    refine .inl ⟨size (p ++ x :: w), by rw [State.depth, hi, Option.map_some, List.take_left], ?_⟩
    refine ⟨?_, ⟨⟨y, ?_, hcl.1⟩, ?_⟩, fun i hi hle => lt_depthBefore hx hin hi (.inl hle), ?_⟩
    · rw [size_append, size_cons]
      have := x.utf8Size_pos
      omega
    · rw [hsplit]
      exact charAt?_at (Nat.le_refl _) (by omega)
    · rw [hsplit, layerAt?_at (Nat.le_refl _) (by omega), hend, hcl.2]
    · have hbehind : p ++ x :: (w ++ y :: u) = (p ++ x :: (w ++ [y])) ++ u := by simp
      have hc : size (p ++ x :: w) + 1 = size (p ++ x :: (w ++ [y])) := by
        simp only [size_append, size_cons, size_nil, hsize]
        omega
      have hrun : endState (p ++ x :: (w ++ [y])) = ((endState p).step x |>.run w).step y := by
        rw [endState_append, State.run_cons, State.run_append]
        rfl
      rw [depthBefore_size, hbehind, hc, depthBefore_size, hrun, State.depth, State.depth,
        State.step_closer (hin w [] (List.append_nil w).symm) hy]

/-! ### Matched pairs -/

section

variable {t : Text} {o c : Nat}

/-- A bracket and its closing one enclose what is deeper. -/
theorem encloses_of_closeOffset? (h : closeOffset? (marks t) o = some c) : Encloses t o c := by
  rcases closeOffset?_cases (opensAt_of_closeOffset? h) with ⟨c', hc', he⟩ | ⟨hn, -⟩
  · obtain rfl := Option.some.inj (hc'.symm.trans h)
    exact he
  · rw [hn] at h
    cases h

/-- Behind a bracket that is never closed everything is deeper. -/
theorem deeper_of_closeOffset?_eq_none (ho : OpensAt t o) (h : closeOffset? (marks t) o = none)
    {i : Nat} (hi : o < i) : depthBefore t o < depthBefore t i := by
  rcases closeOffset?_cases ho with ⟨c', hc', -⟩ | ⟨-, hd⟩
  · rw [hc'] at h
    cases h
  · exact hd i hi

/-- The offsets behind which the depth of an opening bracket is back. -/
def returns (t : Text) (o : Nat) : Set Nat :=
  {c | o < c ∧ depthBefore t (c + 1) = depthBefore t o}

/-- What a bracket encloses ends at the first offset behind which the depth is back. -/
theorem Encloses.isLeast (h : Encloses t o c) : IsLeast (returns t o) c := by
  refine ⟨⟨h.lt, h.back⟩, fun c' hc' => ?_⟩
  by_contra hlt
  have := h.deeper (c' + 1) (by have := hc'.1; omega) (by omega)
  have := hc'.2
  omega

theorem ClosesAt.not_opensAt (h : ClosesAt t c) : ¬ OpensAt t c := by
  rintro ⟨⟨x, hx, hop⟩, -⟩
  obtain ⟨⟨y, hy, hcl⟩, -⟩ := h
  obtain rfl := Option.some.inj (hx.symm.trans hy)
  simp only [isOpener, Bool.or_eq_true, decide_eq_true_eq] at hop
  rcases hop with (rfl | rfl) | rfl <;> cases hcl

/-- Of two matched pairs, the one that opens later closes earlier or opens behind the other. -/
theorem Encloses.disjoint_or_nested {o' c' : Nat} (h : Encloses t o c) (h' : Encloses t o' c')
    (ho' : OpensAt t o') (hlt : o < o') : c < o' ∨ c' < c := by
  by_contra hn
  push Not at hn
  obtain ⟨hle, hcc⟩ := hn
  -- The later bracket opens inside the earlier pair, so it is deeper than the end of that pair.
  have hdeep := h.deeper o' hlt hle
  rcases Nat.lt_or_eq_of_le hcc with hcc | rfl
  · have hne : o' ≠ c := fun he => h.closesAt.not_opensAt (he ▸ ho')
    have := h'.deeper (c + 1) (by omega) hcc
    have := h.back
    omega
  · have := h.back
    have := h'.back
    omega

end

/-- **Bracket matching is exact.** The closing bracket of an opening one is the first offset behind
which the depth is back; everything up to it is deeper. There is none only if everything behind the
opening bracket is deeper, the end included. Two matched pairs are nested or disjoint. -/
theorem closeOffset?_exact (t : Text) :
    (∀ o, OpensAt t o →
      (∀ c, closeOffset? (marks t) o = some c ↔ IsLeast (returns t o) c)
        ∧ (∀ c, closeOffset? (marks t) o = some c →
            ClosesAt t c ∧ ∀ i, o < i → i ≤ c → depthBefore t o < depthBefore t i)
        ∧ (closeOffset? (marks t) o = none
            ↔ ∀ i, o < i → i ≤ size t → depthBefore t o < depthBefore t i)
        ∧ (closeOffset? (marks t) o = none → depthBefore t o < endDepth t))
      ∧ ∀ o c o' c', closeOffset? (marks t) o = some c → closeOffset? (marks t) o' = some c' →
          o < o' → c < o' ∨ c' < c := by
  refine ⟨fun o ho => ⟨fun c => ⟨?_, ?_⟩, ?_, ⟨?_, ?_⟩, ?_⟩, ?_⟩
  · intro h
    exact (encloses_of_closeOffset? h).isLeast
  · intro h
    rcases closeOffset?_cases ho with ⟨c', hc', he⟩ | ⟨-, hd⟩
    · rw [hc', he.isLeast.unique h]
    · have := hd (c + 1) (by have := h.1.1; omega)
      have := h.1.2
      omega
  · intro c h
    exact ⟨(encloses_of_closeOffset? h).closesAt, (encloses_of_closeOffset? h).deeper⟩
  · intro h i hi _
    exact deeper_of_closeOffset?_eq_none ho h hi
  · intro h
    rcases closeOffset?_cases ho with ⟨c, -, he⟩ | ⟨hn, -⟩
    · have hc := lt_size_of_layerAt? he.closesAt.2
      have := h (c + 1) (by have := he.lt; omega) hc
      have := he.back
      omega
    · exact hn
  · intro h
    have := deeper_of_closeOffset?_eq_none ho h (lt_size_of_layerAt? ho.2)
    rwa [depthBefore_of_le (Nat.le_refl _)] at this
  · intro o c o' c' h h' hlt
    exact (encloses_of_closeOffset? h).disjoint_or_nested (encloses_of_closeOffset? h')
      (opensAt_of_closeOffset? h') hlt

/-- A script with a matched pair in a substitution, a pair inside that pair, and a brace that is
never closed. -/
def nestedScript : Text := "\x60$\x7b([1])\x7d\x60\x7b"

theorem closeOffset?_nestedScript :
    (OpensAt nestedScript 3 ∧ closeOffset? (marks nestedScript) 3 = some 7
        ∧ IsLeast (returns nestedScript 3) 7)
      ∧ (closeOffset? (marks nestedScript) 4 = some 6 ∧ 3 < 4 ∧ (7 < 4 ∨ 6 < 7))
      ∧ OpensAt nestedScript 10 ∧ closeOffset? (marks nestedScript) 10 = none
      ∧ depthBefore nestedScript 10 < endDepth nestedScript := by
  have hpair : OpensAt nestedScript 3 := ⟨⟨'(', by decide, by decide⟩, by decide⟩
  have hopen : OpensAt nestedScript 10 := ⟨⟨'\x7b', by decide, by decide⟩, by decide⟩
  have h₃ : closeOffset? (marks nestedScript) 3 = some 7 := by decide
  have h₄ : closeOffset? (marks nestedScript) 4 = some 6 := by decide
  have h₁₀ : closeOffset? (marks nestedScript) 10 = none := by decide
  obtain ⟨hbrackets, hpairs⟩ := closeOffset?_exact nestedScript
  exact ⟨⟨hpair, h₃, ((hbrackets 3 hpair).1 7).1 h₃⟩,
    ⟨h₄, by decide, hpairs 3 7 4 6 h₃ h₄ (by decide)⟩,
    hopen, h₁₀, (hbrackets 10 hopen).2.2.2 h₁₀⟩

end ElementModules.Script
