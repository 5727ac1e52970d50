import ElementModules.Proofs.Script.Blanks
import ElementModules.Proofs.Script.Declaring

/-!
# Texts inside a bracket

A text that is scanned on its own and the same text inside a bracket are scanned alike, up to the
enclosures below (`State.enclosed`), as long as it closes no bracket that it has not opened. A closing
bracket without a bracket to close is **stray**: on its own it is passed over, inside a bracket it
closes that one, and then both scans agree altogether (`run_enclosed_cases`).

A text **can be a body** if it has no stray bracket and leaves the scan in code outside all its
brackets. These are the texts that stand between the braces of a closed literal (`isBody_of_bodyAt?`),
and such a text is found again as the body wherever it is put between braces (`IsBody.bodyAt?_eq`).

What follows an opening brace decides how the literal ends: it is closed if the first stray bracket
is a brace (`isSome_bodyAt?_iff`).

## Main results

* `State.run_enclosed_cases`: a text inside a bracket.
* `isBody_of_bodyAt?`, `IsBody.bodyAt?_eq`: the bodies of closed literals.
* `isSome_bodyAt?_iff`: which literals are closed.
-/

namespace ElementModules.Script

open Text

namespace State

/-- The scan with more enclosures below those that are open. -/
def enclosed (s : State) (base : List Enclosure) : State := ⟨s.mode, s.stack ++ base⟩

/-- An enclosing bracket does not change what a character belongs to. -/
theorem layer_enclosed (s : State) (base : List Enclosure) (c : Char) (next : Option Char) :
    (s.enclosed (.bracket :: base)).layer c next = s.layer c next := by
  obtain ⟨mode, stack⟩ := s
  have he : endsSubstitution ⟨mode, stack ++ .bracket :: base⟩ c
      = endsSubstitution ⟨mode, stack⟩ c := by
    cases stack <;> simp [endsSubstitution]
  cases mode <;> simp only [enclosed, layer, layerInCode, he]

/-- Whether a character closes a bracket that is not open. -/
def isStray (s : State) (c : Char) (next : Option Char) : Bool :=
  closes 0 ⟨c, s.layer c next, s.depth⟩

theorem stepCode_enclosed {s : State} {c : Char} (h : isCloser c = true → s.stack ≠ [])
    (base : List Enclosure) :
    (s.enclosed (.bracket :: base)).stepCode c = (s.stepCode c).enclosed (.bracket :: base) := by
  obtain ⟨mode, stack⟩ := s
  simp only [enclosed, stepCode] at h ⊢
  split_ifs with h₁ h₂ h₃ h₄ h₅ h₆
  all_goals try rfl
  all_goals
    rcases stack with _ | ⟨_ | _, rest⟩
    · exact absurd rfl (h h₅)
    all_goals rfl

/-- A character that is no stray bracket has the same effect inside a bracket. -/
theorem step_enclosed {s : State} {c : Char} {next : Option Char} (h : s.isStray c next = false)
    (base : List Enclosure) :
    (s.enclosed (.bracket :: base)).step c = (s.step c).enclosed (.bracket :: base) := by
  obtain ⟨mode, stack⟩ := s
  have hcode : layerInCode ⟨mode, stack⟩ c next = layer ⟨mode, stack⟩ c next →
      ∀ m, (enclosed ⟨m, stack⟩ (.bracket :: base)).stepCode c
        = (stepCode ⟨m, stack⟩ c).enclosed (.bracket :: base) := by
    intro hl m
    refine stepCode_enclosed (fun hc hn => ?_) base
    simp only at hn
    subst hn
    have hcode : layerInCode ⟨mode, []⟩ c next = .code := by
      simp only [isCloser, Bool.or_eq_true, decide_eq_true_eq] at hc
      rcases hc with (rfl | rfl) | rfl <;> rfl
    rw [hl] at hcode
    simp [isStray, closes, hc, hcode, Mark.isCode, depth] at h
  cases mode with
  | code => exact hcode rfl .code
  | slash =>
    by_cases h₁ : c = '/' ∨ c = '*'
    · rcases h₁ with rfl | rfl <;> rfl
    · have h₂ := not_or.1 h₁
      have hl : layerInCode ⟨.slash, stack⟩ c next = layer ⟨.slash, stack⟩ c next := by
        simp [layer, h₂]
      simpa [step, enclosed, h₂] using hcode hl .slash
  | quotedEscape | templateEscape => rfl
  | lineComment | blockComment | blockStar | quoted =>
    simp only [enclosed, step]
    split_ifs <;> rfl
  | template | templateDollar =>
    simp only [enclosed, step, stepTemplate]
    split_ifs <;> rfl

/-- A stray bracket closes the bracket around it, and is passed over outside. -/
theorem step_enclosed_of_isStray {s : State} {c : Char} {next : Option Char}
    (h : s.isStray c next = true) (base : List Enclosure) :
    (s.enclosed (.bracket :: base)).step c = ⟨.code, base⟩ ∧ s.step c = start := by
  obtain ⟨mode, stack⟩ := s
  simp only [isStray, closes, Mark.isCode, depth, Bool.and_eq_true, decide_eq_true_eq,
    List.length_eq_zero_iff] at h
  obtain ⟨⟨hc, hl⟩, rfl⟩ := h
  simp only [isCloser, Bool.or_eq_true, decide_eq_true_eq] at hc
  rcases hc with (rfl | rfl) | rfl <;> cases mode <;> first | exact ⟨rfl, rfl⟩ | cases hl

end State

/-- A mark inside further enclosures. -/
def Mark.deeper (n : Nat) (m : Mark) : Mark := { m with depth := m.depth + n }

/-- No bracket is closed that is not open. -/
def IsStrayless (ms : List Mark) : Prop := ∀ m ∈ ms, closes 0 m = false

theorem closes_deeper (n d : Nat) (m : Mark) : closes (d + n) (m.deeper n) = closes d m := by
  have hd : decide (m.depth + n = d + n) = decide (m.depth = d) :=
    decide_eq_decide.2 Nat.add_right_cancel_iff
  exact congrArg (isCloser m.char && m.isCode && ·) hd

namespace State

variable {s : State} (base : List Enclosure)

theorem depth_enclosed (s : State) : (s.enclosed (.bracket :: base)).depth = s.depth + (base.length + 1) := by
  simp [enclosed, depth]

/-- **Inside a bracket** a text without stray brackets is scanned as on its own. -/
theorem run_enclosed {t : Text} (h : IsStrayless (marksFrom s t)) :
    (s.enclosed (.bracket :: base)).run t = (s.run t).enclosed (.bracket :: base) ∧
      marksFrom (s.enclosed (.bracket :: base)) t
        = (marksFrom s t).map (Mark.deeper (base.length + 1)) := by
  induction t generalizing s with
  | nil => exact ⟨rfl, rfl⟩
  | cons c t ih =>
    have hc : s.isStray c t.head? = false := h _ List.mem_cons_self
    obtain ⟨hr, hm⟩ := ih fun m hm => h m (List.mem_cons_of_mem _ hm)
    rw [run_cons, run_cons, marksFrom, marksFrom, step_enclosed hc, hr, hm, layer_enclosed, depth_enclosed]
    exact ⟨rfl, rfl⟩

/-- A text that does not close the bracket around it has no stray bracket. -/
theorem isStrayless_of_enclosed {t : Text}
    (h : ∀ m ∈ marksFrom (s.enclosed (.bracket :: base)) t, closes (base.length + 1) m = false) :
    IsStrayless (marksFrom s t) := by
  induction t generalizing s with
  | nil => exact fun m hm => absurd hm List.not_mem_nil
  | cons c t ih =>
    rw [marksFrom, layer_enclosed, depth_enclosed] at h
    have hc : s.isStray c t.head? = false := by
      rw [isStray, ← closes_deeper (base.length + 1), Nat.zero_add]
      exact h _ List.mem_cons_self
    intro m hm
    rw [marksFrom] at hm
    rcases List.mem_cons.1 hm with rfl | hm
    · exact hc
    · refine ih (fun x hx => h x (List.mem_cons_of_mem _ ?_)) m hm
      rwa [step_enclosed hc]

/-- **A text inside a bracket** leaves the bracket open, or the scan ends as it does outside. -/
theorem run_enclosed_cases (s : State) (t : Text) :
    (s.enclosed [.bracket]).run t = (s.run t).enclosed [.bracket]
      ∨ (s.enclosed [.bracket]).run t = s.run t := by
  induction t generalizing s with
  | nil => exact .inl rfl
  | cons c t ih =>
    rw [run_cons, run_cons]
    cases h : s.isStray c none with
    | false =>
      rw [step_enclosed h]
      exact ih _
    | true =>
      obtain ⟨h₁, h₂⟩ := step_enclosed_of_isStray h []
      rw [h₁, h₂]
      exact .inr rfl

/-- Quoted strings do not depend on what is open around them. -/
theorem closesQuotes_enclosed (s : State) (t : Text) :
    (s.enclosed [.bracket]).closesQuotes t = s.closesQuotes t := by
  induction t generalizing s with
  | nil => rfl
  | cons c t ih =>
    have hq : (s.enclosed [.bracket]).isQuoted = s.isQuoted := rfl
    rw [closesQuotes, closesQuotes, hq]
    cases h : s.isStray c none with
    | false => rw [step_enclosed h, ih]
    | true =>
      obtain ⟨h₁, h₂⟩ := step_enclosed_of_isStray h []
      rw [h₁, h₂]
      rfl

/-- Code other than a line feed is read in code. -/
theorem eq_of_isTopLevelAt {c : Char} (hc : c ≠ '\n') (h : s.IsTopLevelAt c) :
    s = ⟨.code, []⟩ ∨ s = ⟨.slash, []⟩ := by
  obtain ⟨mode, stack⟩ := s
  obtain ⟨hl, rfl⟩ := h
  cases mode <;> simp_all [layer]

/-- A brace in code opens a bracket. -/
theorem step_brace {next : Option Char} (h : s.layer '\x7b' next = .code) :
    s.step '\x7b' = start.enclosed (.bracket :: s.stack) := by
  obtain ⟨mode, stack⟩ := s
  cases mode <;> first | rfl | cases h

end State

/-! ### Bodies of closed literals -/

/-- A text that can stand between the braces of a literal. -/
structure IsBody (w : Text) : Prop where
  strayless : IsStrayless (marks w)
  topLevel : (endState w).IsTopLevelAt '\x7d'

theorem isBody_nil : IsBody [] := ⟨fun _ hm => absurd hm List.not_mem_nil, rfl, rfl⟩

namespace IsBody

variable {w : Text} (h : IsBody w)
include h

theorem isBalanced : isBalanced w = true := by
  rcases State.eq_of_isTopLevelAt (by decide) h.topLevel with he | he <;>
    rw [Script.isBalanced, he] <;> rfl

/-- The brace behind a body closes the bracket around it. -/
theorem step_close (st : List Enclosure) :
    ((endState w).enclosed (.bracket :: st)).step '\x7d' = ⟨.code, st⟩ := by
  rcases State.eq_of_isTopLevelAt (by decide) h.topLevel with he | he <;> rw [he] <;> rfl

/-- The marks of a body and of the brace that closes it. -/
theorem marks_close (st : List Enclosure) (rest : Text) :
    marksFrom ⟨.code, .bracket :: st⟩ (w ++ '\x7d' :: rest)
      = (marks w).map (Mark.deeper (st.length + 1))
        ++ ⟨'\x7d', .code, st.length + 1⟩ :: marksFrom ⟨.code, st⟩ rest := by
  have hstart : (⟨.code, .bracket :: st⟩ : State) = State.start.enclosed (.bracket :: st) := rfl
  obtain ⟨hr, hm⟩ := State.run_enclosed st h.strayless
  have hl : ((endState w).enclosed (.bracket :: st)).layer '\x7d' rest.head? = .code := by
    rw [State.layer_enclosed, State.layer_of_ne_slash (by decide) _ _ none]
    exact h.topLevel.1
  have hd : (endState w).depth = 0 := by rw [State.depth, h.topLevel.2]; rfl
  rw [hstart, marksFrom_append_eq (by simp), hr, hm, marksFrom]
  show _ ++ (⟨_, ((endState w).enclosed _).layer _ _, ((endState w).enclosed _).depth⟩ : Mark)
    :: marksFrom (((endState w).enclosed _).step _) rest = _
  rw [hl, State.depth_enclosed, hd, h.step_close, Nat.zero_add]
  rfl

/-- The brace behind a body is the first bracket that closes the one in front of it. -/
theorem closeIndex?_eq (st : List Enclosure) (rest : Text) :
    closeIndex? (st.length + 1) (marksFrom ⟨.code, .bracket :: st⟩ (w ++ '\x7d' :: rest))
      = some w.length := by
  have hnone : ((marks w).map (Mark.deeper (st.length + 1))).findIdx? (closes (st.length + 1))
      = none := by
    rw [List.findIdx?_eq_none_iff]
    intro m hm
    obtain ⟨x, hx, rfl⟩ := List.mem_map.1 hm
    have := closes_deeper (st.length + 1) 0 x
    rw [Nat.zero_add] at this
    rw [this, h.strayless x hx]
  have hyes : closes (st.length + 1) ⟨'\x7d', .code, st.length + 1⟩ = true := by
    simp [closes, isCloser, Mark.isCode]
  rw [h.marks_close, Script.closeIndex?_eq, List.findIdx?_append, hnone, List.findIdx?_cons, hyes]
  simp [marks]

/-- **A body between braces is found again.** -/
theorem bodyAt?_eq (st : List Enclosure) (rest : Text) :
    bodyAt? (marksFrom ⟨.code, st⟩ ('\x7b' :: (w ++ '\x7d' :: rest))) = some w := by
  have hk : closeAfter? (marksFrom ⟨.code, st⟩ ('\x7b' :: (w ++ '\x7d' :: rest)))
      = some (w.length + 1) := by
    have hstep : closeAfter? (marksFrom ⟨.code, st⟩ ('\x7b' :: (w ++ '\x7d' :: rest)))
        = (closeIndex? (st.length + 1)
            (marksFrom ⟨.code, .bracket :: st⟩ (w ++ '\x7d' :: rest))).map (· + 1) := rfl
    rw [hstep, h.closeIndex?_eq, Option.map_some]
  rw [bodyAt?, hk, Option.bind_some, chars_marksFrom]
  simp

end IsBody

/-- What stands in front of the first brace that closes a bracket is a body. -/
theorem isBody_of_closes {base : List Enclosure} {w : Text} {next : Option Char}
    (hw : ∀ m ∈ marksFrom (State.start.enclosed (.bracket :: base)) w, closes (base.length + 1) m = false)
    (hc : closes (base.length + 1)
      ⟨'\x7d', ((State.start.enclosed (.bracket :: base)).run w).layer '\x7d' next,
        ((State.start.enclosed (.bracket :: base)).run w).depth⟩ = true) : IsBody w := by
  have hstray := State.isStrayless_of_enclosed base hw
  rw [(State.run_enclosed base hstray).1, State.layer_enclosed, State.depth_enclosed,
    State.layer_of_ne_slash (by decide) _ _ none] at hc
  simp only [closes, Mark.isCode, Bool.and_eq_true, decide_eq_true_eq] at hc
  have hd : (endState w).stack.length + (base.length + 1) = base.length + 1 := hc.2
  exact ⟨hstray, hc.1.2, List.length_eq_zero_iff.1 (by omega)⟩

/-- **What stands between the braces of a closed literal** is a body. -/
theorem isBody_of_bodyAt? {s : State} {t w : Text}
    (h : bodyAt? (marksFrom s ('\x7b' :: t)) = some w) :
    IsBody w ∧ s.layer '\x7b' t.head? = .code ∧ ∃ rest, t = w ++ '\x7d' :: rest := by
  rw [bodyAt?] at h
  obtain ⟨k, hk, hw⟩ := Option.bind_eq_some_iff.1 h
  rw [marksFrom, closeAfter?] at hk
  split at hk
  · rename_i ho
    have hl : s.layer '\x7b' t.head? = .code := by simpa [isOpener, Mark.isCode] using ho
    obtain ⟨i, hi, rfl⟩ := Option.map_eq_some_iff.1 hk
    split at hw
    · rename_i hbrace
      rw [chars_marksFrom, List.getElem?_cons_succ] at hbrace
      obtain ⟨hlt, hget⟩ := List.getElem?_eq_some_iff.1 hbrace
      have ht : t = t.take i ++ '\x7d' :: t.drop (i + 1) := by
        rw [← hget, List.getElem_cons_drop, List.take_append_drop]
      obtain rfl : t.take i = w := by simpa [chars_marksFrom] using hw
      refine ⟨?_, hl, _, ht⟩
      rw [closeIndex?_eq, State.step_brace hl, ht, marksFrom_append_eq (by simp),
        List.findIdx?_eq_some_iff_getElem] at hi
      obtain ⟨_, hclose, hbefore⟩ := hi
      have hlen : (marksFrom (State.start.enclosed (.bracket :: s.stack)) (t.take i)).length = i := by
        rw [length_marksFrom, List.length_take]
        omega
      have hw : ∀ m ∈ marksFrom (State.start.enclosed (.bracket :: s.stack)) (t.take i),
          closes (s.stack.length + 1) m = false := by
        intro m hm
        obtain ⟨j, hj, rfl⟩ := List.mem_iff_getElem.1 hm
        have hcl := hbefore j (by omega)
        rwa [List.getElem_append_left hj, Bool.not_eq_true] at hcl
      rw [List.getElem_append_right (by omega)] at hclose
      simp only [hlen, Nat.sub_self] at hclose
      exact isBody_of_closes hw hclose
    · cases hw
  · cases hk

/-! ### The first stray bracket -/

/-- The first bracket of a text that closes no bracket of the text. -/
def strayBracket? (t : Text) : Option Char :=
  ((marks t).find? (closes 0)).map Mark.char

theorem strayBracket?_eq_none_iff {t : Text} : strayBracket? t = none ↔ IsStrayless (marks t) := by
  rw [strayBracket?, Option.map_eq_none_iff, List.find?_eq_none]
  exact forall₂_congr fun _ _ => Bool.not_eq_true _ |>.to_iff

namespace State

/-- **The bracket that closes the one around a text** is the first stray bracket of the text. -/
theorem findIdx?_enclosed (s : State) (base : List Enclosure) (t : Text) :
    (marksFrom (s.enclosed (.bracket :: base)) t).findIdx? (closes (base.length + 1))
      = (marksFrom s t).findIdx? (closes 0) := by
  induction t generalizing s with
  | nil => rfl
  | cons c t ih =>
    have hc : closes (base.length + 1)
        ⟨c, (s.enclosed (.bracket :: base)).layer c t.head?, (s.enclosed (.bracket :: base)).depth⟩
        = s.isStray c t.head? := by
      have hd := closes_deeper (base.length + 1) 0 ⟨c, s.layer c t.head?, s.depth⟩
      rw [Nat.zero_add] at hd
      rw [layer_enclosed, depth_enclosed]
      exact hd
    rw [marksFrom, marksFrom, List.findIdx?_cons, List.findIdx?_cons, hc]
    cases h : s.isStray c t.head? with
    | false =>
      rw [isStray] at h
      rw [h, step_enclosed h, ih]
    | true =>
      rw [isStray] at h
      rw [h]
      rfl

end State

/-- The first stray bracket of joined texts, where the scan starts anew in between. -/
theorem strayBracket?_append {a b : Text} (he : endState a = .start)
    (h : a.getLast? = some '/' → ∀ d ∈ b.head?, d ≠ '/' ∧ d ≠ '*') :
    strayBracket? (a ++ b) = (strayBracket? a).or (strayBracket? b) := by
  have hmarks : marks (a ++ b) = marks a ++ marks b := by
    rw [marks, marksFrom_append_eq h]
    exact congrArg (fun s => marksFrom .start a ++ marksFrom s b) he
  rw [strayBracket?, hmarks, List.find?_append]
  cases hf : (marks a).find? (closes 0) with
  | none => simp [strayBracket?, hf]
  | some m => simp [strayBracket?, hf]

/-- The first stray bracket of a text and of the brace behind it. -/
theorem strayBracket?_append_close {w : Text} (h : endState w = .start) (r : Text) :
    strayBracket? (w ++ '\x7d' :: r) = (strayBracket? w).or (some '\x7d') := by
  rw [strayBracket?_append h fun _ d hd => ?_]
  · rfl
  · obtain rfl : '\x7d' = d := Option.some.inj hd
    exact ⟨by decide, by decide⟩

/-- **A literal is closed** if and only if the first stray bracket behind its opening brace is a
brace. -/
theorem isSome_bodyAt?_iff (st : List Enclosure) (t : Text) :
    (bodyAt? (marksFrom ⟨.code, st⟩ ('\x7b' :: t))).isSome = true
      ↔ strayBracket? t = some '\x7d' := by
  have hk : closeAfter? (marksFrom ⟨.code, st⟩ ('\x7b' :: t))
      = ((marks t).findIdx? (closes 0)).map (· + 1) := by
    have ho : marksFrom ⟨.code, st⟩ ('\x7b' :: t)
        = ⟨'\x7b', .code, st.length⟩ :: marksFrom (State.start.enclosed (.bracket :: st)) t := rfl
    rw [ho, closeAfter?, if_pos (by simp [isOpener, Mark.isCode]), closeIndex?_eq,
      State.findIdx?_enclosed]
    rfl
  rw [bodyAt?, hk, strayBracket?]
  cases hi : (marks t).findIdx? (closes 0) with
  | none =>
    rw [List.findIdx?_eq_none_iff] at hi
    rw [List.find?_eq_none.2 fun m hm => by simp [hi m hm]]
    simp
  | some i =>
    obtain ⟨hlt, hcl, hfirst⟩ := List.findIdx?_eq_some_iff_getElem.1 hi
    have hf : (marks t).find? (closes 0) = some (marks t)[i] := by
      refine List.find?_eq_some_iff_getElem.2 ⟨hcl, i, hlt, rfl, fun j hj => ?_⟩
      simpa using hfirst j hj
    have hchar : (chars (marks t))[i]? = some (marks t)[i].char := by
      rw [chars, List.getElem?_map, List.getElem?_eq_getElem hlt]
      rfl
    rw [chars_marks] at hchar
    rw [hf, Option.map_some, Option.bind_some, chars_marksFrom, List.getElem?_cons_succ, hchar,
      Option.map_some]
    split_ifs with h <;> simp [h]

end ElementModules.Script
