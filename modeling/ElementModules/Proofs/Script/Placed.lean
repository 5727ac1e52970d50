import ElementModules.Proofs.Script.Composing
import ElementModules.Proofs.Script.Matching
import ElementModules.Proofs.Script.Openings
import ElementModules.Proofs.Text.Slices

/-!
# Where literals stand

A literal is found in three ways that do not know of each other: its head is read by the characters
alone, its end by the brackets of the scan, and where these do not balance by the shape of the lines.
All three go forward. The head is wordy and begins in code, so no part of it changes the state of the
scan, and the brace behind it is one of code. What is cut off the end of an open literal (blanks, a
semicolon, one brace) never reaches that brace. So the offsets of a literal are in order, the scan goes
on behind each literal, and the next one begins there or later.

## Main results

* `literalAt_eq`, `exists_openLiteral`: the shape of a literal.
* `isPlaced_of_boundLiteral?`: one literal.
* `isPlaced_of_mem_literals`, `pairwise_literals`: the literals of a text.
-/

namespace ElementModules.Script

open Text

/-! ### The shape of a literal -/

theorem exists_openLines {c : Char} (hc : c ≠ '\n') (t : Text) :
    ∃ u, openLines (c :: t) = c :: u ∧ u <+: t := by
  obtain ⟨u, hu⟩ : ∃ u, openLines (c :: t) = c :: u := by
    rw [openLines, lines, if_neg hc]
    cases lines t with
    | nil => exact ⟨_, rfl⟩
    | cons l ls => exact ⟨_, rfl⟩
  refine ⟨u, hu, ?_⟩
  have hpre := prefix_openLines (c :: t)
  rwa [hu, List.prefix_cons_inj] at hpre

theorem trimEnd_cons {c : Char} (hc : isBlank c = false) (t : Text) :
    trimEnd (c :: t) = c :: trimEnd t := by
  rw [trimEnd, List.reverse_cons, List.dropWhile_append]
  split
  next h =>
    rw [List.isEmpty_iff] at h
    rw [trimEnd, h, List.dropWhile_cons_of_neg (by simp [hc])]
    rfl
  next => rw [List.reverse_append]; rfl

/-- **What is cut off the end** of a text does not reach its first character. -/
theorem exists_withoutSemicolon {c : Char} (hb : isBlank c = false) (hc : c ≠ ';') (t : Text) :
    ∃ u, withoutSemicolon (c :: t) = c :: u ∧ u <+: t := by
  obtain ⟨u, hu⟩ : ∃ u, withoutSemicolon (c :: t) = c :: u := by
    rw [withoutSemicolon, trimEnd_cons hb]
    split
    next r hr =>
      rw [dropTrailing?] at hr
      split at hr
      next hs =>
        obtain ⟨v, hv⟩ := List.isSuffixOf_iff_suffix.1 hs
        cases v with
        | nil => exact absurd (List.cons.inj hv).1.symm hc
        | cons d v =>
          obtain rfl : d = c := (List.cons.inj hv).1
          obtain rfl : d :: v = r := by simpa [← hv] using hr
          exact ⟨_, trimEnd_cons hb v⟩
      next => cases hr
    next => exact ⟨_, rfl⟩
  refine ⟨u, hu, ?_⟩
  have hpre := prefix_withoutSemicolon (c :: t)
  rwa [hu, List.prefix_cons_inj] at hpre

theorem dropTrailing_cases (w t : Text) : t = dropTrailing w t ∨ t = dropTrailing w t ++ w := by
  rw [dropTrailing]
  cases h : dropTrailing? w t with
  | none => exact .inl rfl
  | some u =>
    rw [dropTrailing?] at h
    split at h
    next hs =>
      obtain ⟨v, rfl⟩ := List.isSuffixOf_iff_suffix.1 hs
      obtain rfl : v = u := by simpa using h
      exact .inr rfl
    next => cases h

/-- **An open literal** is its brace and what stands behind it. -/
theorem exists_openLiteral (t : Text) :
    ∃ u, openLiteral ('\x7b' :: t) = ('\x7b' :: u, dropTrailing ['\x7d'] u) ∧ u <+: t := by
  obtain ⟨v, hv, hvt⟩ := exists_openLines (c := '\x7b') (by decide) t
  obtain ⟨u, hu, huv⟩ := exists_withoutSemicolon (c := '\x7b') (by decide) (by decide) v
  exact ⟨u, by rw [openLiteral_eq, hv, hu]; rfl, huv.trans hvt⟩

/-- **A literal** is a body between braces, or it is open. -/
theorem literalAt_eq (s : State) (t : Text) :
    literalAt (marksFrom s ('\x7b' :: t))
      = match bodyAt? (marksFrom s ('\x7b' :: t)) with
        | some w => ('\x7b' :: (w ++ ['\x7d']), w, .balanced)
        | none => ((openLiteral ('\x7b' :: t)).1, (openLiteral ('\x7b' :: t)).2, .heuristic) := by
  rw [literalAt, bodyAt?, chars_marksFrom]
  cases closeAfter? (marksFrom s ('\x7b' :: t)) with
  | none => rfl
  | some k =>
    rw [Option.bind_some]
    dsimp only
    by_cases hk : ('\x7b' :: t)[k]? = some '\x7d'
    · cases k with
      | zero => simp at hk
      | succ i =>
        rw [List.getElem?_cons_succ] at hk
        rw [List.getElem?_cons_succ, if_pos hk, if_pos hk, List.take_succ_cons, List.take_succ_cons,
          List.drop_one, List.tail_cons, List.take_add_one, hk]
        rfl
    · rw [if_neg hk, if_neg hk]

/-- The literal in front of a text is its beginning. -/
theorem exists_literalAt_fst (s : State) (t : Text) :
    ∃ u, (literalAt (marksFrom s ('\x7b' :: t))).1 = '\x7b' :: u ∧ u <+: t := by
  rw [literalAt_eq]
  cases hb : bodyAt? (marksFrom s ('\x7b' :: t)) with
  | some w =>
    obtain ⟨-, -, rest, rfl⟩ := isBody_of_bodyAt? hb
    exact ⟨w ++ ['\x7d'], rfl, rest, by simp⟩
  | none =>
    obtain ⟨u, hu, hut⟩ := exists_openLiteral t
    exact ⟨u, by rw [hu], hut⟩

/-- **How a literal ends** tells what it is made of. -/
theorem literalAt_shape (s : State) (t : Text) {text body : Text} {closing : Closing}
    (h : literalAt (marksFrom s ('\x7b' :: t)) = (text, body, closing)) :
    (closing = .balanced → text = '\x7b' :: (body ++ ['\x7d']) ∧ IsBody body)
      ∧ (closing = .heuristic → text = '\x7b' :: body ∨ text = '\x7b' :: (body ++ ['\x7d'])) := by
  rw [literalAt_eq] at h
  cases hb : bodyAt? (marksFrom s ('\x7b' :: t)) with
  | some w =>
    simp only [hb, Prod.mk.injEq] at h
    obtain ⟨rfl, rfl, rfl⟩ := h
    exact ⟨fun _ => ⟨rfl, (isBody_of_bodyAt? hb).1⟩, nofun⟩
  | none =>
    obtain ⟨u, hu, -⟩ := exists_openLiteral t
    simp only [hb, hu, Prod.mk.injEq] at h
    obtain ⟨rfl, rfl, rfl⟩ := h
    refine ⟨nofun, fun _ => ?_⟩
    exact (dropTrailing_cases ['\x7d'] u).imp (congrArg _) (congrArg _)

/-! ### One literal -/

/-- Plain text outside all brackets is code there, and so is the brace behind it. -/
theorem placeAt_plain {a v r : Text} (ha : endState a = .start) (hv : ∀ d ∈ v, isPlain d = true)
    {i : Nat} (hle : size a ≤ i) (hlt : i ≤ size (a ++ v)) :
    placeAt (a ++ (v ++ '\x7b' :: r)) i = (some .code, 0) := by
  induction v generalizing a with
  | nil =>
    rw [List.append_nil] at hlt
    have hbrace : ('\x7b' : Char).utf8Size = 1 := rfl
    rw [List.nil_append, placeAt_at hle (by omega), ha]
    rfl
  | cons d v ih =>
    obtain ⟨hd, hv⟩ := List.forall_mem_cons.1 hv
    have hscan := Scans.plain (w := [d]) (by simpa using hd) []
    rw [List.cons_append]
    by_cases hi : i < size a + d.utf8Size
    · have hmarks := hscan.marks (v ++ '\x7b' :: r)
      simp only [List.singleton_append, marksFrom, codeMarks, List.map_cons, List.map_nil,
        List.cons.injEq, Mark.mk.injEq] at hmarks
      rw [placeAt_at hle hi, ha]
      exact Prod.ext (congrArg some hmarks.1.2.1) rfl
    · have hstart : endState (a ++ [d]) = .start := by
        rw [endState_append, ha]
        exact hscan.run
      have hrest := ih hstart hv (by simpa using hi) (by simpa using hlt)
      rwa [List.append_assoc, List.singleton_append] at hrest

/-- **A head is code outside all brackets**, and so is its brace. -/
theorem placeAt_head {a v r : Text} {c : Char} (hl : (endState a).layer c (v ++ '\x7b' :: r).head? = .code)
    (hst : (endState a).stack = []) (hstep : (endState a).step c = .start)
    (hv : ∀ d ∈ v, isPlain d = true) {i : Nat} (hle : size a ≤ i) (hlt : i ≤ size (a ++ c :: v)) :
    placeAt (a ++ c :: (v ++ '\x7b' :: r)) i = (some .code, 0) := by
  by_cases hi : i < size a + c.utf8Size
  · rw [placeAt_at hle hi, hl, State.depth, hst]
    rfl
  · have hstart : endState (a ++ [c]) = .start := by
      rw [endState_append]
      exact hstep
    have hrest := placeAt_plain (r := r) hstart hv (by simpa using hi) (by simpa using hlt)
    rwa [List.append_assoc, List.singleton_append] at hrest

/-- Where a literal of a text stands, and what it is made of. -/
structure IsPlaced (t : Text) (l : ObjectLiteral) : Prop where
  /-- The statement begins in front of the literal. -/
  start_lt : l.statement.start < l.span.start
  /-- The literal is not empty. -/
  lt_stop : l.span.start < l.span.stop
  /-- The statement ends with the literal or behind it. -/
  stop_le : l.span.stop ≤ l.statement.stop
  /-- The statement lies within the text. -/
  stop_le_size : l.statement.stop ≤ size t
  /-- No offset lies inside a character. -/
  boundary : ∀ n ∈ [l.statement.start, l.span.start, l.span.stop, l.statement.stop], IsBoundary t n
  /-- The text of the literal stands where the literal stands. -/
  slice : slice? t l.span = some l.text
  /-- It begins with a brace. -/
  brace : l.text.head? = some '\x7b'
  /-- The head of the statement, with the brace, is code outside all brackets. -/
  head : ∀ i, l.statement.start ≤ i → i ≤ l.span.start → placeAt t i = (some .code, 0)
  /-- A literal that ends at its closing brace is a body between braces. -/
  balanced : l.closing = .balanced → l.text = '\x7b' :: (l.body ++ ['\x7d'])
  /-- Such a body leaves nothing open. -/
  body_balanced : l.closing = .balanced → isBalanced l.body = true
  /-- It has no bracket that closes one around it. -/
  body_strayless : l.closing = .balanced → IsStrayless (marks l.body)
  /-- Between other braces of code it ends at the second one again. -/
  body_embeds : l.closing = .balanced → ∀ p r, (endState p).layer '\x7b' none = .code →
    closeOffset? (marks (p ++ '\x7b' :: (l.body ++ '\x7d' :: r))) (size p)
      = some (size (p ++ '\x7b' :: l.body))
  /-- Any other literal is a body behind a brace, with another brace behind it or without one. -/
  heuristic : l.closing = .heuristic →
    l.text = '\x7b' :: l.body ∨ l.text = '\x7b' :: (l.body ++ ['\x7d'])

/-- **A body may stand between other braces.** -/
theorem IsBody.closeOffset?_eq {w : Text} (h : IsBody w) {p : Text}
    (hp : (endState p).layer '\x7b' none = .code) (r : Text) :
    closeOffset? (marks (p ++ '\x7b' :: (w ++ '\x7d' :: r))) (size p)
      = some (size (p ++ '\x7b' :: w)) := by
  have hnone : ∀ next, (endState p).layer '\x7b' next = .code := fun next => by
    rw [State.layer_of_ne_slash (by decide) _ _ none]
    exact hp
  have hbrace : (endState p).step '\x7b' = ⟨.code, .bracket :: (endState p).stack⟩ :=
    State.step_brace (hnone none)
  have hidx : closeIndex? ((endState p).depth + 1)
      (marksFrom ⟨.code, .bracket :: (endState p).stack⟩ (w ++ '\x7d' :: r)) = some w.length :=
    h.closeIndex?_eq (endState p).stack r
  rw [Script.closeOffset?_eq rfl (hnone _), hbrace, hidx]
  simp

section

variable {a r : Text} {c : Char} {before : Option Char} {l : ObjectLiteral} {n : Nat}

/-- **What stands where a literal is bound**: a wordy head, the literal, perhaps a semicolon, and the
rest. -/
theorem exists_eq_of_boundLiteral? {whole : Text} {s : State} {offset : Nat}
    (hl : boundLiteral? whole offset (marksFrom s (c :: r)) = some (l, n)) :
    ∃ v u q z, r = v ++ '\x7b' :: (u ++ (q ++ z)) ∧ (∀ d ∈ c :: v, isWordy d = true)
      ∧ l.text = '\x7b' :: u
      ∧ literalAt (marksFrom (s.run (c :: v)) ('\x7b' :: (u ++ (q ++ z)))) = (l.text, l.body, l.closing)
      ∧ l.statement = ⟨offset, offset + size (c :: v) + size ('\x7b' :: u) + size q⟩
      ∧ l.span = ⟨offset + size (c :: v), offset + size (c :: v) + size ('\x7b' :: u)⟩
      ∧ n = (c :: v ++ '\x7b' :: u).length := by
  have hsome := boundLiteral?_isSome whole offset (marksFrom s (c :: r))
  rw [hl, chars_marksFrom] at hsome
  obtain ⟨b, hb⟩ := Option.isSome_iff_exists.1 hsome.symm
  obtain ⟨w, hw, hne, hwordy⟩ := BindingStart.exists_wordy_of_parse? hb
  obtain ⟨-, hbrace, -⟩ := BindingStart.parse?_eq_some hb
  obtain ⟨o, ho⟩ := List.head?_eq_some_iff.1 hbrace
  obtain ⟨d, v, rfl⟩ := List.exists_cons_of_ne_nil hne
  rw [ho, List.cons_append, List.cons.injEq] at hw
  obtain ⟨rfl, rfl⟩ := hw
  rw [← List.cons_append] at hb hl
  obtain ⟨u, hu, z, rfl⟩ := exists_literalAt_fst (s.run (c :: v)) o
  have hdrop : ('\x7b' :: (u ++ z)).drop ('\x7b' :: u).length = z := by
    rw [← List.cons_append, List.drop_left]
  obtain ⟨q, z', rfl, hq⟩ : ∃ q z', z = q ++ z' ∧ size q = if z.head? = some ';' then 1 else 0 := by
    split
    next h =>
      obtain ⟨z', rfl⟩ := List.head?_eq_some_iff.1 h
      exact ⟨[';'], z', rfl, rfl⟩
    next => exact ⟨[], z, rfl, rfl⟩
  rw [boundLiteral?_eq hb ho] at hl
  simp only [hu, hdrop, ← hq, Option.some.injEq, Prod.mk.injEq] at hl
  obtain ⟨rfl, rfl⟩ := hl
  exact ⟨v, u, q, z', rfl, hwordy, rfl, by rw [← hu], rfl, rfl, List.length_append.symm⟩

/-- **A literal stands where it is bound.** The characters that belong to its statement end where it
ends. -/
theorem isPlaced_of_boundLiteral?
    (hmay : mayStartBinding before ⟨c, (endState a).layer c r.head?, (endState a).depth⟩ = true)
    (hl : boundLiteral? (a ++ c :: r) (size a) (marksFrom (endState a) (c :: r)) = some (l, n)) :
    IsPlaced (a ++ c :: r) l ∧ l.statement.start = size a
      ∧ l.span.stop = size (a ++ (c :: r).take n) ∧ 0 < n ∧ n ≤ (c :: r).length := by
  obtain ⟨v, u, q, z, rfl, hwordy, htext, hx, hstatement, hspan, rfl⟩ := exists_eq_of_boundLiteral? hl
  obtain ⟨hbal, hheur⟩ := literalAt_shape _ _ hx
  obtain ⟨hlayer, hstack, hstep, hsize⟩ := State.step_of_mayStartBinding hmay
  have hplain : ∀ x ∈ v, isPlain x = true := fun x hx =>
    isPlain_of_isWordy (hwordy x (List.mem_cons_of_mem c hx))
  have hcv : 0 < size (c :: v) := by rw [size_cons, hsize]; omega
  have hbu : 0 < size ('\x7b' :: u) := by rw [size_cons]; exact Nat.add_pos_left (by decide) _
  have ht : a ++ c :: (v ++ '\x7b' :: (u ++ (q ++ z)))
      = a ++ (c :: v ++ ('\x7b' :: u ++ (q ++ z))) := by simp
  refine ⟨{
    start_lt := by rw [hstatement, hspan]; exact Nat.lt_add_of_pos_right hcv
    lt_stop := by rw [hspan]; exact Nat.lt_add_of_pos_right hbu
    stop_le := by rw [hstatement, hspan]; exact Nat.le_add_right _ _
    stop_le_size := ?_
    boundary := ?_
    slice := ?_
    brace := by rw [htext]; rfl
    head := ?_
    balanced := fun hc => (hbal hc).1
    body_balanced := fun hc => (hbal hc).2.isBalanced
    body_strayless := fun hc => (hbal hc).2.strayless
    body_embeds := fun hc p r hp => (hbal hc).2.closeOffset?_eq hp r
    heuristic := hheur }, by rw [hstatement], ?_, by simp, ?_⟩
  · rw [hstatement, ht]
    simp only [size_append]
    omega
  · rw [hstatement, hspan, ht]
    simp only [List.forall_mem_cons, List.not_mem_nil, false_implies, implies_true, and_true]
    refine ⟨⟨a, _, rfl, rfl⟩, ⟨a ++ c :: v, _, (List.append_assoc _ _ _).symm, size_append a _⟩,
      ⟨a ++ c :: v ++ '\x7b' :: u, q ++ z, by simp only [List.append_assoc], ?_⟩,
      ⟨a ++ c :: v ++ '\x7b' :: u ++ q, z, by simp only [List.append_assoc], ?_⟩⟩ <;>
    simp only [size_append]
  · rw [hspan, ht, slice?_eq_some_iff, htext]
    exact ⟨a ++ c :: v, q ++ z, (List.append_assoc _ _ _).symm, size_append a _,
      by simp only [size_append]⟩
  · intro i hle hlt
    rw [hstatement] at hle
    rw [hspan] at hlt
    exact placeAt_head hlayer hstack hstep hplain hle (by rwa [size_append])
  · have htake : (c :: (v ++ '\x7b' :: (u ++ (q ++ z)))).take (c :: v ++ '\x7b' :: u).length
        = c :: v ++ '\x7b' :: u := by
      rw [show c :: (v ++ '\x7b' :: (u ++ (q ++ z))) = (c :: v ++ '\x7b' :: u) ++ (q ++ z) by simp,
        List.take_left]
    rw [hspan, htake]
    simp only [size_append]
    omega
  · simp only [List.length_cons, List.length_append]
    omega

end

/-! ### The literals of a text -/

/-- **Every literal of a stretch** stands behind what still belongs to the last one, and so do the
literals among each other. -/
theorem isPlaced_literalsFrom (a r : Text) (before : Option Char) {k : Nat} (hk : k ≤ r.length) :
    (∀ l ∈ literalsFrom (a ++ r) before (size a) k (marksFrom (endState a) r),
        IsPlaced (a ++ r) l ∧ size (a ++ r.take k) ≤ l.statement.start)
      ∧ (literalsFrom (a ++ r) before (size a) k (marksFrom (endState a) r)).Pairwise
          fun l m => l.span.stop ≤ m.statement.start := by
  induction r generalizing a before k with
  | nil => simp [marksFrom, literalsFrom]
  | cons c r ih =>
    have ht : a ++ c :: r = a ++ [c] ++ r := by simp
    have hs : size a + c.utf8Size = size (a ++ [c]) := by simp
    have hstate : (endState a).step c = endState (a ++ [c]) := (endState_append a [c]).symm
    have hsize : size a ≤ size (a ++ [c]) := by rw [size_append]; omega
    have hnext := fun {k : Nat} (hk : k ≤ r.length) => ih (a ++ [c]) (some c) hk
    rw [← ht] at hnext
    rw [marksFrom]
    cases k with
    | succ k =>
      have htake : a ++ (c :: r).take (k + 1) = a ++ [c] ++ r.take k := by simp
      rw [literalsFrom, Mark.size, hs, hstate, htake]
      exact hnext (by simpa using hk)
    | zero =>
      rw [literalsFrom, Mark.size, hs, hstate, List.take_zero, List.append_nil]
      obtain ⟨hplaced, hpairs⟩ := hnext (Nat.zero_le _)
      rw [List.take_zero, List.append_nil] at hplaced
      split
      next l n hl =>
        split at hl
        next hmay =>
          rw [← hstate, ← marksFrom] at hl
          obtain ⟨hp, hstart, hstop, hpos, hn⟩ := isPlaced_of_boundLiteral? hmay hl
          obtain ⟨hplaced, hpairs⟩ := hnext (k := n - 1) (by rw [List.length_cons] at hn; omega)
          have htake : size (a ++ [c] ++ r.take (n - 1)) = l.span.stop := by
            rw [hstop]
            obtain ⟨n, rfl⟩ := Nat.exists_eq_add_of_lt hpos
            simp
          rw [htake] at hplaced
          refine ⟨List.forall_mem_cons.2 ⟨⟨hp, hstart.ge⟩, fun m hm => ?_⟩,
            List.pairwise_cons.2 ⟨fun m hm => (hplaced m hm).2, hpairs⟩⟩
          obtain ⟨hm, hle⟩ := hplaced m hm
          have hlt := hp.start_lt
          have hlt' := hp.lt_stop
          exact ⟨hm, by omega⟩
        next => cases hl
      next => exact ⟨fun m hm => ⟨(hplaced m hm).1, hsize.trans (hplaced m hm).2⟩, hpairs⟩

theorem isPlaced_of_mem_literals {t : Text} {l : ObjectLiteral} (h : l ∈ literals t) : IsPlaced t l :=
  ((isPlaced_literalsFrom [] t none (Nat.zero_le _)).1 l h).1

/-- No literal begins in front of the end of one before it. -/
theorem pairwise_literals (t : Text) :
    (literals t).Pairwise fun l m => l.span.stop ≤ m.statement.start :=
  (isPlaced_literalsFrom [] t none (Nat.zero_le _)).2

end ElementModules.Script
