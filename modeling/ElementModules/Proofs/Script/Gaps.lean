import ElementModules.Proofs.Script.Blanks

/-!
# Gaps

A **gap** is a blank outside of strings and templates. Condensing a scanned text puts one space for
each run of gaps, so texts that are condensed alike differ in the length of their gaps only, and have
the same **solid** marks: all characters but the gaps, each with its layer and its depth.

Condensing goes from left to right. All it has to know of what stands in front is whether that ends
with a gap, and behind a line feed the state of the scan tells (`condense_line`).

## Main results

* `solid_condense`: texts that are condensed alike have the same solid marks.
* `condense_gaps_append`, `condense_append_gaps`: gaps at both ends.
* `condense_line`: condensing line by line.
-/

namespace ElementModules.Script

open Text

/-- A blank outside of strings and templates. -/
def isGap (m : Mark) : Bool := !m.isLiteral && isBlank m.char

/-- The marks that are no gaps. -/
def solid (ms : List Mark) : List Mark := ms.filter fun m => !isGap m

/-- The mark that stands for a run of gaps. -/
def gapMark : Mark := ⟨' ', .code, 0⟩

/-- The marks with a space for each run of gaps; `behindGap` tells whether a gap stands in front. -/
def condense (behindGap : Bool) : List Mark → List Mark
  | [] => []
  | m :: ms =>
    if isGap m then if behindGap then condense true ms else gapMark :: condense true ms
    else m :: condense false ms

theorem isGap_gapMark : isGap gapMark = true := rfl

theorem solid_append (a b : List Mark) : solid (a ++ b) = solid a ++ solid b :=
  List.filter_append ..

/-- Texts that are condensed alike have the same solid marks. -/
theorem solid_condense (g : Bool) (ms : List Mark) : solid (condense g ms) = solid ms := by
  induction ms generalizing g with
  | nil => rfl
  | cons m ms ih =>
    have hcons : ∀ x xs, solid (x :: xs) = if isGap x then solid xs else x :: solid xs := by
      intro x xs
      rw [solid, List.filter_cons]
      cases isGap x <;> rfl
    rw [condense, hcons m]
    split_ifs with hm hg
    · exact ih true
    · rw [hcons, isGap_gapMark, if_pos rfl, ih]
    · rw [hcons, if_neg hm, ih]

theorem solid_of_gaps {b : List Mark} (hb : ∀ m ∈ b, isGap m = true) : solid b = [] := by
  rw [solid, List.filter_eq_nil_iff]
  intro m hm
  simp [hb m hm]

/-- Condensing goes part by part. -/
theorem condense_append (g : Bool) (a : List Mark) (m : Mark) (b : List Mark) :
    condense g (a ++ m :: b) = condense g (a ++ [m]) ++ condense (isGap m) b := by
  induction a generalizing g with
  | nil =>
    rw [List.nil_append, List.nil_append, condense, condense]
    split_ifs with hm hg <;> simp [hm, condense]
  | cons x a ih =>
    rw [List.cons_append, List.cons_append, condense, condense]
    split_ifs
    · exact ih true
    · rw [ih true]
      rfl
    · rw [ih false]
      rfl

/-- Gaps behind a gap vanish. -/
theorem condense_gaps_append {b : List Mark} (hb : ∀ m ∈ b, isGap m = true) (ms : List Mark) :
    condense true (b ++ ms) = condense true ms := by
  induction b with
  | nil => rfl
  | cons m b ih =>
    rw [List.cons_append, condense, if_pos (hb m List.mem_cons_self), if_pos rfl]
    exact ih fun x hx => hb x (List.mem_cons_of_mem m hx)

theorem condense_gaps {b : List Mark} (hb : ∀ m ∈ b, isGap m = true) : condense true b = [] := by
  have := condense_gaps_append hb []
  rwa [List.append_nil] at this

/-- At the end it does not matter how many gaps there are. -/
theorem condense_append_gaps {b b' : List Mark} (hb : ∀ m ∈ b, isGap m = true)
    (hb' : ∀ m ∈ b', isGap m = true) (hne : b ≠ []) (hne' : b' ≠ []) (g : Bool) (a : List Mark) :
    condense g (a ++ b) = condense g (a ++ b') := by
  induction a generalizing g with
  | nil =>
    obtain ⟨m, b, rfl⟩ := List.exists_cons_of_ne_nil hne
    obtain ⟨m', b', rfl⟩ := List.exists_cons_of_ne_nil hne'
    have hr := condense_gaps fun x hx => hb x (List.mem_cons_of_mem m hx)
    have hr' := condense_gaps fun x hx => hb' x (List.mem_cons_of_mem m' hx)
    rw [List.nil_append, List.nil_append, condense, condense, if_pos (hb m List.mem_cons_self),
      if_pos (hb' m' List.mem_cons_self), hr, hr']
  | cons x a ih =>
    rw [List.cons_append, List.cons_append, condense, condense, ih true, ih false]

/-- Blanks outside of strings and templates are gaps. -/
theorem isGap_of_blanks {s : State} (hs : s.isInLiteral = false) {b : Text}
    (hb : ∀ c ∈ b, isBlank c = true) : ∀ m ∈ marksFrom s b, isGap m = true := by
  intro m hm
  simp [isGap, (State.run_blanks hs hb).2.2 m hm, hb _ (char_mem_of_mem_marksFrom hm)]

/-! ### Lines -/

/-- Behind a line feed the state of the scan tells whether the line feed was a gap. -/
theorem isGap_newline (s : State) (next : Option Char) (d : Nat) :
    isGap ⟨'\n', s.layer '\n' next, d⟩ = !(s.step '\n').isInLiteral := by
  have hb : isBlank '\n' = true := rfl
  obtain ⟨mode, stack⟩ := s
  simp only [isGap, Mark.isLiteral, hb, Bool.and_true]
  cases mode <;> rfl

/-- **Condensing line by line.** -/
theorem condense_line (g : Bool) (s : State) (a b : Text) :
    condense g (marksFrom s (a ++ ['\n'] ++ b))
      = condense g (marksFrom s (a ++ ['\n']))
        ++ condense (!(s.run (a ++ ['\n'])).isInLiteral) (marksFrom (s.run (a ++ ['\n'])) b) := by
  have hsplit : ∀ t : Text, marksFrom s (a ++ '\n' :: t) = marksFrom s a
      ++ ⟨'\n', (s.run a).layer '\n' none, (s.run a).depth⟩
        :: marksFrom ((s.run a).step '\n') t := by
    intro t
    rw [marksFrom_append_eq (by simp), marksFrom, State.layer_of_ne_slash (by decide) _ _ none]
  rw [List.append_assoc, List.singleton_append, hsplit, hsplit, condense_append, isGap_newline,
    State.run_append]
  rfl

end ElementModules.Script
