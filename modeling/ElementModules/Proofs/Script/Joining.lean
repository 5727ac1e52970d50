import ElementModules.Script.Scanner

/-!
# Scanning joined texts

The state after a joined text is a fold, so only the layer of a character can depend on what stands
behind it, and of all characters only a slash looks ahead. This module turns that into equations on
marks: a text whose last character is no slash, or that is followed by neither a slash nor a star,
is scanned alike wherever it stands (`marksFrom_append_eq`).

A text is **closed by** a character if that character is its last and stands in code outside all
brackets. A text closed by a line feed or by a semicolon leaves the scan where it began, so whatever
follows it is scanned as if it stood alone (`Closed.marks_append`).

## Main results

* `marksFrom_append_eq`: the marks of a joined text, part by part.
* `Closed.endState`: behind a closed text the scan starts anew.
* `Closed.marks_append`: the marks of a closed text and of what follows it.
* `closedBy_newline`: a line feed behind a settled text closes it.
-/

namespace ElementModules.Script

open Text

namespace State

/-- Only the layer of a slash depends on the next character. -/
theorem layer_of_ne_slash {c : Char} (h : c ≠ '/') (s : State) (next next' : Option Char) :
    s.layer c next = s.layer c next' := by
  unfold layer layerInCode
  cases s.mode <;> simp [h]

/-- A next character that opens no comment is as good as none. -/
theorem layer_of_plain {d : Char} (h : d ≠ '/' ∧ d ≠ '*') (s : State) (c : Char) :
    s.layer c (some d) = s.layer c none := by
  unfold layer layerInCode
  cases s.mode <;> simp [h.1, h.2]

/-- The scan is outside all brackets and `c` is read as code. -/
def IsTopLevelAt (s : State) (c : Char) : Prop :=
  s.layer c none = .code ∧ s.stack = []

/-- Code outside all brackets is left where it is by a line feed. -/
theorem step_newline {s : State} (h : s.IsTopLevelAt '\n') : s.step '\n' = start := by
  obtain ⟨mode, stack⟩ := s
  obtain ⟨hl, rfl⟩ := h
  cases mode <;> simp_all [layer, step, stepCode, start, isOpener, isCloser]

/-- Code outside all brackets is left where it is by a semicolon. -/
theorem step_semicolon {s : State} (h : s.IsTopLevelAt ';') : s.step ';' = start := by
  obtain ⟨mode, stack⟩ := s
  obtain ⟨hl, rfl⟩ := h
  cases mode <;>
    simp_all [layer, layerInCode, step, stepCode, start, isOpener, isCloser]

/-- A line feed behind a settled text is code outside all brackets. -/
theorem isTopLevelAt_newline {s : State} (h : s.isSettled = true) : s.IsTopLevelAt '\n' := by
  obtain ⟨mode, stack⟩ := s
  simp only [isSettled, Bool.and_eq_true, Bool.or_eq_true, List.isEmpty_iff,
    decide_eq_true_eq] at h
  obtain ⟨rfl, hm⟩ := h
  rcases hm with (rfl | rfl) | rfl <;>
    simp [IsTopLevelAt, layer, layerInCode, endsSubstitution]

end State

@[simp] theorem length_marksFrom (s : State) (t : Text) : (marksFrom s t).length = t.length := by
  induction t generalizing s with
  | nil => rfl
  | cons c t ih => simp [marksFrom, ih]

theorem char_mem_of_mem_marksFrom {s : State} {t : Text} {m : Mark} (h : m ∈ marksFrom s t) :
    m.char ∈ t := by
  rw [← chars_marksFrom s t]
  exact List.mem_map_of_mem h

@[simp] theorem chars_marks (t : Text) : chars (marks t) = t :=
  chars_marksFrom .start t

@[simp] theorem chars_append (a b : List Mark) : chars (a ++ b) = chars a ++ chars b := by
  simp [chars]

@[simp] theorem marks_nil : marks [] = [] := rfl

@[simp] theorem endState_nil : endState [] = .start := rfl

theorem endState_append (a b : Text) : endState (a ++ b) = (endState a).run b :=
  State.run_append .start a b

/-- **Scanning joined texts.** Unless a slash at the end of the first part meets a slash or a star,
both parts keep their marks. -/
theorem marksFrom_append_eq {a b : Text}
    (h : a.getLast? = some '/' → ∀ d ∈ b.head?, d ≠ '/' ∧ d ≠ '*') (s : State) :
    marksFrom s (a ++ b) = marksFrom s a ++ marksFrom (s.run a) b := by
  induction a generalizing s with
  | nil => rfl
  | cons c a ih =>
    cases a with
    | nil =>
      have hl : s.layer c b.head? = s.layer c none := by
        by_cases hc : c = '/'
        · cases hb : b.head? with
          | none => rfl
          | some d => exact State.layer_of_plain (h (by simp [hc]) d (by simp [hb])) s c
        · exact State.layer_of_ne_slash hc s _ _
      simp [marksFrom, hl]
    | cons c' a =>
      have hi := ih (fun hs => h (by simpa using hs)) (s.step c)
      simp only [List.cons_append, marksFrom, List.head?_cons, State.run_cons] at hi ⊢
      rw [hi]

/-- The last character of a text closes it: it is code outside all brackets. -/
def ClosedBy (c : Char) (a : Text) : Prop :=
  ∃ q, a = q ++ [c] ∧ (endState q).IsTopLevelAt c

/-- A statement may end behind the text. -/
def Closed (a : Text) : Prop :=
  ClosedBy '\n' a ∨ ClosedBy ';' a

theorem ClosedBy.getLast? {c : Char} {a : Text} (h : ClosedBy c a) : a.getLast? = some c := by
  obtain ⟨q, rfl, -⟩ := h
  simp

theorem ClosedBy.ne_nil {c : Char} {a : Text} (h : ClosedBy c a) : a ≠ [] := by
  obtain ⟨q, rfl, -⟩ := h
  simp

theorem Closed.ne_nil {a : Text} (h : Closed a) : a ≠ [] :=
  h.elim ClosedBy.ne_nil ClosedBy.ne_nil

/-- The marks of a text and of the character that closes it. -/
theorem marks_concat {q : Text} {c : Char} (h : (endState q).IsTopLevelAt c)
    (hc : c ≠ '/' ∧ c ≠ '*') : marks (q ++ [c]) = marks q ++ [⟨c, .code, 0⟩] := by
  have hd : (State.start.run q).depth = 0 := by
    show (endState q).stack.length = 0
    simp [h.2]
  have hl : (State.start.run q).layer c none = .code := h.1
  unfold marks
  rw [marksFrom_append_eq (by simpa using fun _ => hc)]
  simp [marksFrom, hd, hl]

/-- Behind a closed text the scan starts anew. -/
theorem Closed.endState {a : Text} (h : Closed a) : endState a = .start := by
  rcases h with ⟨q, rfl, hq⟩ | ⟨q, rfl, hq⟩
  · rw [endState_append]
    exact State.step_newline hq
  · rw [endState_append]
    exact State.step_semicolon hq

/-- A closed text does not end with a slash. -/
theorem Closed.getLast?_ne {a : Text} (h : Closed a) : a.getLast? ≠ some '/' := by
  rcases h with h | h <;> simp [h.getLast?]

/-- What follows a closed text is scanned as if it stood alone. -/
theorem Closed.marks_append {a : Text} (h : Closed a) (b : Text) :
    marks (a ++ b) = marks a ++ marks b := by
  have hs : State.start.run a = .start := h.endState
  unfold marks
  rw [marksFrom_append_eq (fun hl => absurd hl h.getLast?_ne), hs]

/-- A text closed behind a closed text is closed as a whole. -/
theorem ClosedBy.append {c : Char} {a b : Text} (ha : endState a = .start) (hb : ClosedBy c b) :
    ClosedBy c (a ++ b) := by
  obtain ⟨q, rfl, hq⟩ := hb
  refine ⟨a ++ q, by simp, ?_⟩
  rw [endState_append, ha]
  exact hq

/-- A line feed behind a settled text closes it. -/
theorem closedBy_newline {a : Text} (h : isBalanced a = true) : ClosedBy '\n' (a ++ ['\n']) :=
  ⟨a, rfl, State.isTopLevelAt_newline h⟩

/-- A line feed that leaves the scan settled is code outside all brackets. -/
theorem State.isTopLevelAt_of_isSettled {s : State} (h : (s.step '\n').isSettled = true) :
    s.IsTopLevelAt '\n' := by
  obtain ⟨mode, stack⟩ := s
  cases mode <;>
    simp_all [isSettled, step, stepCode, stepTemplate, isOpener, isCloser, IsTopLevelAt, layer,
      layerInCode, endsSubstitution]

/-- A balanced text that ends with a line feed is closed by it. -/
theorem closedBy_of_isBalanced {a : Text} (h : isBalanced a = true)
    (hl : a.getLast? = some '\n') : ClosedBy '\n' a := by
  obtain ⟨q, c, rfl⟩ := (List.eq_nil_or_concat a).resolve_left (by rintro rfl; cases hl)
  rw [List.concat_eq_append] at *
  obtain rfl : c = '\n' := by simpa using hl
  refine ⟨q, rfl, State.isTopLevelAt_of_isSettled ?_⟩
  rwa [isBalanced, endState_append] at h

/-- A line feed behind a text is one more mark. -/
theorem marks_append_newline_eq (t : Text) :
    ∃ x : Mark, x.char = '\n' ∧ marks (t ++ ['\n']) = marks t ++ [x] := by
  refine ⟨⟨'\n', (endState t).layer '\n' none, (endState t).depth⟩, rfl, ?_⟩
  rw [marks, marksFrom_append_eq (by simp)]
  rfl

/-- A closed text is balanced. -/
theorem Closed.isBalanced {a : Text} (h : Closed a) : isBalanced a = true := by
  rw [Script.isBalanced, h.endState]
  decide

end ElementModules.Script
