import ElementModules.Proofs.Script.Enclosed
import ElementModules.Script.Field

/-!
# Bodies and their commas

A body is cut at its commas in code outside all brackets. Behind such a comma the scan starts anew
(`State.step_comma`), so the pieces of a body are scanned as if they stood alone (`marks_comma`), and
a body is built up from its last piece (`comma_induction`).

## Main results

* `comma_induction`: induction along the commas of a body.
* `commaPieces_comma`, `commaPieces_last`: the pieces of a body.
* `marks_comma`, `endState_comma`, `closesQuotes_comma`: scanning a body piece by piece.
-/

namespace ElementModules.Script

open Text

/-- Whether a mark is a comma between the fields of a body. -/
def isComma (m : Mark) : Bool := m.char = ',' && m.isTopLevel

/-- Whether a text holds no comma between fields. -/
def IsCommaFree (p : Text) : Prop := ∀ m ∈ marks p, isComma m = false

/-- Behind a comma between fields the scan starts anew. -/
theorem State.step_comma {s : State} (h : s.IsTopLevelAt ',') : s.step ',' = .start := by
  rcases State.eq_of_isTopLevelAt (by decide) h with rfl | rfl <;> rfl

section Comma

variable {p : Text} (h : (endState p).IsTopLevelAt ',') (b : Text)
include h

/-- The marks of a piece, of the comma behind it and of what follows. -/
theorem marks_comma : marks (p ++ ',' :: b) = marks p ++ ⟨',', .code, 0⟩ :: marks b := by
  have hsplit : marks (p ++ ',' :: b) = marks (p ++ [',']) ++ marksFrom .start b := by
    have hrun : State.start.run (p ++ [',']) = .start := by
      rw [State.run_append]
      exact State.step_comma h
    rw [List.append_cons, marks, marksFrom_append_eq (by simp), hrun]
    rfl
  rw [hsplit, marks_concat h (by decide), List.append_assoc]
  rfl

theorem endState_comma : endState (p ++ ',' :: b) = endState b := by
  rw [endState_append, State.run_cons, State.step_comma h]
  rfl

theorem closesQuotes_comma :
    closesQuotes (p ++ ',' :: b) = (closesQuotes p && closesQuotes b) := by
  rw [closesQuotes_append, State.closesQuotes, State.step_comma h]
  rfl

theorem mem_marks_comma {m : Mark} :
    m ∈ marks (p ++ ',' :: b) ↔ m ∈ marks p ∨ m = ⟨',', .code, 0⟩ ∨ m ∈ marks b := by
  rw [marks_comma h, List.mem_append, List.mem_cons]

end Comma

/-- A body with a comma between fields, cut at the first one. -/
theorem exists_comma {t : Text} (h : ¬ IsCommaFree t) :
    ∃ p b, t = p ++ ',' :: b ∧ IsCommaFree p ∧ (endState p).IsTopLevelAt ',' := by
  obtain ⟨q, m, r, hq, hm, hfree⟩ : ∃ q m r, marks t = q ++ m :: r ∧ isComma m = true
      ∧ ∀ y ∈ q, isComma y = false := by
    have hd := List.takeWhile_append_dropWhile (p := fun m => !isComma m) (l := marks t)
    cases hr : (marks t).dropWhile fun m => !isComma m with
    | nil =>
      rw [List.dropWhile_eq_nil_iff] at hr
      exact absurd (fun m hm => by simpa using hr m hm) h
    | cons m r =>
      have hm := List.head?_dropWhile_not (fun m => !isComma m) (marks t)
      rw [hr] at hm hd
      exact ⟨_, m, r, hd.symm, by simpa using hm, fun y hy => by
        simpa using List.mem_takeWhile_imp hy⟩
  obtain ⟨p, c, b, rfl, hp⟩ : ∃ p c b, t = p ++ c :: b ∧ p.length = q.length := by
    have hc := congrArg chars hq
    rw [chars_marks, chars_append] at hc
    exact ⟨chars q, m.char, chars r, by simpa [chars] using hc, by simp [chars]⟩
  obtain ⟨q', hq', hmarks⟩ := marks_append_cons p c b
  obtain ⟨rfl, hrest⟩ := List.append_inj (hq.symm.trans hmarks) (by omega)
  obtain ⟨rfl, -⟩ := List.cons.inj hrest
  simp only [isComma, Mark.isTopLevel, Mark.isCode, Bool.and_eq_true, decide_eq_true_eq] at hm
  obtain ⟨rfl, hl, hd⟩ := hm
  have htop : (endState p).IsTopLevelAt ',' :=
    ⟨(State.layer_of_ne_slash (by decide) _ _ _).trans hl, List.length_eq_zero_iff.1 hd⟩
  rw [marks_comma htop] at hmarks
  obtain ⟨hpq, -⟩ := List.append_inj hmarks (by rw [hq', marks, length_marksFrom])
  exact ⟨p, b, rfl, fun y hy => hfree y (hpq ▸ hy), htop⟩

/-- **Induction along the commas** of a body. -/
@[elab_as_elim]
theorem comma_induction {motive : Text → Prop} (last : ∀ p, IsCommaFree p → motive p)
    (comma : ∀ p b, IsCommaFree p → (endState p).IsTopLevelAt ',' → motive b →
      motive (p ++ ',' :: b)) (t : Text) : motive t := by
  induction hn : t.length using Nat.strongRecOn generalizing t with
  | ind n ih =>
    by_cases h : IsCommaFree t
    · exact last t h
    · obtain ⟨p, b, rfl, hp, htop⟩ := exists_comma h
      exact comma p b hp htop (ih b.length (by simp at hn; omega) b rfl)

/-- Marks without a comma are one piece. -/
theorem commaPieces_last {ms : List Mark} (h : ∀ m ∈ ms, isComma m = false) :
    commaPieces ms = [(ms, false)] := by
  induction ms with
  | nil => rfl
  | cons m ms ih =>
    have hm : ¬(decide (m.char = ',') && m.isTopLevel) = true := by
      have := h m List.mem_cons_self
      rwa [isComma, ← Bool.not_eq_true] at this
    rw [commaPieces, if_neg hm, ih fun x hx => h x (List.mem_cons_of_mem m hx)]

/-- The first comma ends the first piece. -/
theorem commaPieces_comma {ms : List Mark} (h : ∀ m ∈ ms, isComma m = false) {x : Mark}
    (hx : isComma x = true) (rest : List Mark) :
    commaPieces (ms ++ x :: rest) = (ms, true) :: commaPieces rest := by
  induction ms with
  | nil => exact if_pos hx
  | cons m ms ih =>
    have hm : ¬(decide (m.char = ',') && m.isTopLevel) = true := by
      have := h m List.mem_cons_self
      rwa [isComma, ← Bool.not_eq_true] at this
    rw [List.cons_append, commaPieces, if_neg hm, ih fun y hy => h y (List.mem_cons_of_mem m hy)]

end ElementModules.Script
