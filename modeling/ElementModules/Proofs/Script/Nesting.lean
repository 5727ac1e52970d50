import ElementModules.Proofs.Script.Joining
import ElementModules.Script.Bracket
import Mathlib.Data.List.TakeWhile
import Mathlib.Tactic.ByContra
import Mathlib.Tactic.SplitIfs

/-!
# What brackets enclose

The scan keeps one entry for each open enclosure, so a bracket stays on the stack until a closing
bracket in code takes it off. The search for the closing bracket of a literal looks at depths only;
here it is tied to the stack: everything in front of the closing bracket lies inside
(`depth_of_mem_takeWhile`), and a bracket without a closing one is still open at the end of the text
(`exists_stack_of_not_closes`).

## Main results

* `State.step_opener`, `State.step_inside`: one step of the scan at and inside a bracket.
* `depth_of_mem_takeWhile`: the marks in front of the closing bracket lie inside.
* `closeAfter?_isSome`: in a text that ends outside all brackets every bracket is closed.
-/

namespace ElementModules.Script

open Text

namespace State

/-- An opening bracket in code is put on the stack. -/
theorem step_opener {s : State} {c : Char} {next : Option Char} (hc : isOpener c = true)
    (hl : s.layer c next = .code) : (s.step c).stack = .bracket :: s.stack := by
  obtain ⟨mode, stack⟩ := s
  simp only [isOpener, Bool.or_eq_true, decide_eq_true_eq] at hc
  rcases hc with (rfl | rfl) | rfl <;> cases mode <;>
    simp_all [layer, layerInCode, step, stepCode, isOpener]

/-- What one step does to the stack: nothing, or it opens an enclosure, or it closes one, which for
a bracket takes a closing bracket in code. -/
theorem step_stack (s : State) (c : Char) (next : Option Char) :
    (s.step c).stack = s.stack ∨ (∃ x, (s.step c).stack = x :: s.stack)
      ∨ ∃ x, s.stack = x :: (s.step c).stack
          ∧ (x = .bracket → isCloser c = true ∧ s.layer c next = .code) := by
  obtain ⟨mode, stack⟩ := s
  have hcode : ∀ mode, (stepCode ⟨mode, stack⟩ c).stack = stack
      ∨ (∃ x, (stepCode ⟨mode, stack⟩ c).stack = x :: stack)
      ∨ ∃ x, stack = x :: (stepCode ⟨mode, stack⟩ c).stack
          ∧ (x = .bracket → isCloser c = true ∧ layerInCode ⟨mode, stack⟩ c next = .code) := by
    intro mode
    by_cases hcl : isCloser c = true
    · simp only [isCloser, Bool.or_eq_true, decide_eq_true_eq] at hcl
      rcases stack with _ | ⟨_ | _, rest⟩ <;> rcases hcl with (rfl | rfl) | rfl <;>
        simp [stepCode, layerInCode, endsSubstitution, isOpener, isCloser]
    · simp only [Bool.not_eq_true] at hcl
      simp only [stepCode, hcl, Bool.false_eq_true, if_false]
      split_ifs <;> simp
  cases mode
  case code => exact hcode _
  case slash =>
    by_cases h₁ : c = '/'
    · simp [step, h₁]
    · by_cases h₂ : c = '*'
      · simp [step, h₂]
      · simpa [step, layer, h₁, h₂] using hcode .slash
  case quotedEscape | templateEscape => exact .inl rfl
  all_goals
    simp only [step, stepTemplate]
    split_ifs <;> simp

end State

/-- Whether a mark is the bracket that closes an enclosure whose inside has depth `inner`. -/
def closes (inner : Nat) (m : Mark) : Bool :=
  isCloser m.char && m.isCode && m.depth = inner

/-- A bracket stays open over a character that does not close it. -/
theorem State.step_inside {s : State} {e base : List Enclosure} (hs : s.stack = e ++ .bracket :: base)
    {c : Char} {next : Option Char}
    (hc : closes (base.length + 1) ⟨c, s.layer c next, s.depth⟩ = false) :
    ∃ e', (s.step c).stack = e' ++ .bracket :: base := by
  rcases s.step_stack c next with h | ⟨x, h⟩ | ⟨x, h, hx⟩
  · exact ⟨e, h.trans hs⟩
  · exact ⟨x :: e, by rw [h, hs]; rfl⟩
  · cases e with
    | nil =>
      obtain ⟨rfl, -⟩ := List.cons.inj (h.symm.trans hs)
      obtain ⟨hcl, hl⟩ := hx rfl
      simp [closes, hcl, hl, Mark.isCode, State.depth, hs] at hc
    | cons y e => exact ⟨e, (List.cons.inj (h.symm.trans hs)).2⟩

/-- **The marks in front of the closing bracket lie inside the bracket.** -/
theorem depth_of_mem_takeWhile {s : State} {e base : List Enclosure}
    (hs : s.stack = e ++ .bracket :: base) (t : Text) :
    ∀ m ∈ (marksFrom s t).takeWhile fun m => !closes (base.length + 1) m,
      base.length + 1 ≤ m.depth := by
  induction t generalizing s e with
  | nil => intro m hm; cases hm
  | cons c t ih =>
    intro m hm
    rw [marksFrom, List.takeWhile_cons] at hm
    split at hm
    · rename_i hc
      simp only [Bool.not_eq_true'] at hc
      rcases List.mem_cons.1 hm with rfl | hm
      · simp [State.depth, hs]
      · obtain ⟨e', he⟩ := State.step_inside hs hc
        exact ih he m hm
    · cases hm

/-- A bracket without a closing one is still open at the end. -/
theorem exists_stack_of_not_closes {s : State} {e base : List Enclosure}
    (hs : s.stack = e ++ .bracket :: base) (t : Text)
    (ht : ∀ m ∈ marksFrom s t, closes (base.length + 1) m = false) :
    ∃ e', (s.run t).stack = e' ++ .bracket :: base := by
  induction t generalizing s e with
  | nil => exact ⟨e, hs⟩
  | cons c t ih =>
    obtain ⟨e', he⟩ := State.step_inside hs (ht _ (by rw [marksFrom]; exact List.mem_cons_self))
    exact ih he fun m hm => ht m (by rw [marksFrom]; exact List.mem_cons_of_mem _ hm)

/-- Marks at the end of a scan are a scan from some state on. -/
theorem exists_scan_of_suffix {u : List Mark} {s : State} {t : Text} (h : u <:+ marksFrom s t) :
    ∃ s' t', u = marksFrom s' t' ∧ s'.run t' = s.run t := by
  induction t generalizing s with
  | nil =>
    obtain rfl := List.suffix_nil.1 h
    exact ⟨s, [], rfl, rfl⟩
  | cons c t ih =>
    rw [marksFrom] at h
    rcases List.suffix_cons_iff.1 h with rfl | h
    · exact ⟨s, c :: t, rfl, rfl⟩
    · exact ih h

/-- An opening bracket in code and what follows it. -/
theorem exists_scan_after_opener {o : Mark} {r : List Mark} {s : State} {t : Text}
    (h : o :: r = marksFrom s t) (ho : isOpener o.char = true) (hc : o.isCode = true) :
    ∃ s' t', r = marksFrom s' t' ∧ s'.stack = .bracket :: s.stack ∧ o.depth = s.stack.length
      ∧ s.run t = s'.run t' := by
  cases t with
  | nil => cases h
  | cons c t =>
    obtain ⟨rfl, rfl⟩ := List.cons.inj h
    have hl : s.layer c t.head? = .code := by simpa [Mark.isCode] using hc
    exact ⟨s.step c, t, rfl, State.step_opener ho hl, rfl, rfl⟩

theorem closeIndex?_eq (inner : Nat) (ms : List Mark) :
    closeIndex? inner ms = ms.findIdx? (closes inner) := rfl

/-- **In a text that ends outside all brackets every bracket is closed.** -/
theorem closeAfter?_isSome {o : Mark} {r : List Mark} {s : State} {t : Text}
    (h : o :: r = marksFrom s t) (ho : isOpener o.char = true) (hc : o.isCode = true)
    (he : (s.run t).stack = []) : (closeAfter? (o :: r)).isSome = true := by
  obtain ⟨s', t', rfl, hs, hd, hrun⟩ := exists_scan_after_opener h ho hc
  rw [closeAfter?, if_pos (by simp [ho, hc]), Option.isSome_map, closeIndex?_eq, hd]
  by_contra hn
  rw [Bool.not_eq_true, Option.isSome_eq_false_iff, Option.isNone_iff_eq_none,
    List.findIdx?_eq_none_iff] at hn
  obtain ⟨e', hst⟩ := exists_stack_of_not_closes (e := []) hs t' hn
  rw [← hrun, he] at hst
  simp at hst

/-- What lies between an opening bracket and the one that closes it is inside the bracket. -/
theorem depth_of_closeAfter? {o : Mark} {r : List Mark} {s : State} {t : Text}
    (h : o :: r = marksFrom s t) (ho : isOpener o.char = true) (hc : o.isCode = true) :
    ∀ m ∈ r.takeWhile fun m => !closes (o.depth + 1) m, 0 < m.depth := by
  obtain ⟨s', t', rfl, hs, hd, -⟩ := exists_scan_after_opener h ho hc
  intro m hm
  rw [hd] at hm
  have := depth_of_mem_takeWhile (e := []) hs t' m hm
  omega

end ElementModules.Script
