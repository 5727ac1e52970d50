import ElementModules.Proofs.Script.Names

/-!
# Blanks around statements

A text that is cut out of a script may lose the blanks at its ends. The scan does not see this as
long as the blanks are not part of a string or a template. A quoted string that is still open at a
line feed ends there, so the blanks in front of the line feed belong to the string; where no quoted
string is open at a line feed (`closesQuotes`), the blanks at the end of a balanced text lie outside
of strings and templates (`State.not_isInLiteral_of_run`). So a balanced text is balanced without
them (`isBalanced_of_blanks`), and a statement stays one statement (`IsPiece.of_blanks`).

## Main results

* `State.not_isInLiteral_of_run`, `State.run_blanks`: blanks behind which no string is open.
* `isBalanced_of_blanks`: a balanced text without the blanks around it.
* `IsPiece.of_blanks`: a statement without the blanks around it.
-/

namespace ElementModules.Script

open Text

namespace State

/-- Whether the scan is inside a quoted string, and not behind a backslash. -/
def isQuoted (s : State) : Bool :=
  match s.mode with
  | .quoted _ => true
  | _ => false

/-- Whether the scan is inside a string or a template. -/
def isInLiteral (s : State) : Bool :=
  match s.mode with
  | .quoted _ | .quotedEscape _ | .template | .templateDollar | .templateEscape => true
  | _ => false

/-- Whether no quoted string is still open at a line feed of a text. -/
def closesQuotes (s : State) : Text → Bool
  | [] => true
  | c :: t => !(c = '\n' && s.isQuoted) && (s.step c).closesQuotes t

/-- Quoted strings stand between quotes. -/
def IsProper (s : State) : Prop :=
  ∀ q, s.mode = .quoted q ∨ s.mode = .quotedEscape q → q = '\'' ∨ q = '"'

theorem isProper_start : start.IsProper := by
  simp [IsProper, start]

theorem isProper_of_mode {s : State} (h : ∀ q, s.mode ≠ .quoted q ∧ s.mode ≠ .quotedEscape q) :
    s.IsProper := by
  rintro q (hq | hq)
  · exact absurd hq (h q).1
  · exact absurd hq (h q).2

theorem isProper_stepCode (s : State) (c : Char) : (s.stepCode c).IsProper := by
  rw [stepCode]
  split_ifs with h₁ h₂
  · exact isProper_of_mode (by simp)
  · rintro q (hq | hq)
    · cases hq
      simpa using h₂
    · cases hq
  · exact isProper_of_mode (by simp)
  · exact isProper_of_mode (by simp)
  · split <;> exact isProper_of_mode (by simp)
  · split <;> exact isProper_of_mode (by simp)
  · exact isProper_of_mode (by simp)

theorem isProper_stepTemplate (s : State) (c : Char) : (s.stepTemplate c).IsProper := by
  rw [stepTemplate]
  split_ifs <;> exact isProper_of_mode (by simp)

theorem IsProper.step {s : State} (h : s.IsProper) (c : Char) : (s.step c).IsProper := by
  obtain ⟨mode, stack⟩ := s
  cases mode with
  | code => exact isProper_stepCode _ c
  | template => exact isProper_stepTemplate _ c
  | slash =>
    simp only [State.step]
    split_ifs <;> first | exact isProper_stepCode _ c | exact isProper_of_mode (by simp)
  | templateDollar =>
    simp only [State.step]
    split_ifs <;> first | exact isProper_stepTemplate _ c | exact isProper_of_mode (by simp)
  | lineComment | blockComment | blockStar =>
    simp only [State.step]
    split_ifs <;> exact isProper_of_mode (by simp)
  | templateEscape => exact isProper_of_mode (by simp [State.step])
  | quoted q =>
    have hq := h q (.inl rfl)
    simp only [State.step]
    split_ifs <;> simp [IsProper, hq]
  | quotedEscape q =>
    have hq := h q (.inr rfl)
    simpa [IsProper, State.step] using hq

theorem IsProper.run {s : State} (h : s.IsProper) (t : Text) : (s.run t).IsProper := by
  induction t generalizing s with
  | nil => exact h
  | cons c t ih => exact ih (h.step c)

theorem closesQuotes_append (s : State) (a b : Text) :
    s.closesQuotes (a ++ b) = (s.closesQuotes a && (s.run a).closesQuotes b) := by
  induction a generalizing s with
  | nil => rfl
  | cons c a ih => rw [List.cons_append, closesQuotes, closesQuotes, ih, run_cons, Bool.and_assoc]

/-! ### Blanks -/

/-- A blank is none of the characters that a scan looks for, but for the line feed. -/
theorem ne_of_isBlank {c : Char} (h : isBlank c = true) :
    c ≠ '/' ∧ c ≠ '*' ∧ c ≠ '\\' ∧ c ≠ '\x60' ∧ c ≠ '$' ∧ c ≠ '\'' ∧ c ≠ '"' ∧ c ≠ '\x7b'
      ∧ isOpener c = false ∧ isCloser c = false := by
  refine ⟨ne_of_class h rfl, ne_of_class h rfl, ne_of_class h rfl, ne_of_class h rfl,
    ne_of_class h rfl, ne_of_class h rfl, ne_of_class h rfl, ne_of_class h rfl, ?_, ?_⟩
  · simp only [isOpener, Bool.or_eq_false_iff, decide_eq_false_iff_not]
    exact ⟨⟨ne_of_class h rfl, ne_of_class h rfl⟩, ne_of_class h rfl⟩
  · simp only [isCloser, Bool.or_eq_false_iff, decide_eq_false_iff_not]
    exact ⟨⟨ne_of_class h rfl, ne_of_class h rfl⟩, ne_of_class h rfl⟩

theorem stepCode_blank (s : State) {c : Char} (hc : isBlank c = true) :
    s.stepCode c = ⟨.code, s.stack⟩ := by
  obtain ⟨h₁, -, -, h₄, -, h₆, h₇, -, h₉, h₁₀⟩ := ne_of_isBlank hc
  simp [stepCode, h₁, h₄, h₆, h₇, h₉, h₁₀]

theorem layerInCode_blank (s : State) {c : Char} (hc : isBlank c = true) (next : Option Char) :
    s.layerInCode c next = .code := by
  obtain ⟨h₁, -, -, h₄, -, h₆, h₇, -, -, -⟩ := ne_of_isBlank hc
  have hb : c ≠ '\x7d' := by rintro rfl; cases hc
  simp [layerInCode, endsSubstitution, h₁, h₄, h₆, h₇, hb]

/-- A blank outside of strings and templates does not count. -/
theorem step_blank {s : State} (hs : s.isInLiteral = false) {c : Char} (hc : isBlank c = true)
    (next : Option Char) :
    (s.step c).isInLiteral = false ∧ (s.step c).step '\n' = s.step '\n'
      ∧ s.layer c next ≠ .literal := by
  obtain ⟨mode, stack⟩ := s
  obtain ⟨h₁, h₂, -⟩ := ne_of_isBlank hc
  have hline (st : State) : st.stepCode '\n' = ⟨.code, st.stack⟩ := st.stepCode_blank rfl
  cases mode with
  | code => simp [isInLiteral, step, layer, stepCode_blank _ hc, layerInCode_blank _ hc]
  | slash => simp [isInLiteral, step, layer, stepCode_blank _ hc, layerInCode_blank _ hc, hline, h₁, h₂]
  | lineComment =>
    by_cases h : c = '\n'
    · simp [isInLiteral, step, layer, hline, h]
    · simp [isInLiteral, step, layer, h]
  | blockComment => simp [isInLiteral, step, layer, h₂]
  | blockStar => simp [isInLiteral, step, layer, h₁, h₂]
  | quoted | quotedEscape | template | templateDollar | templateEscape => cases hs

/-- If a string or template is open in front of a blank, it is open behind it, unless the blank is a
line feed in a quoted string. -/
theorem not_isInLiteral_of_step {s : State} (hp : s.IsProper) {c : Char} (hc : isBlank c = true)
    (hq : (c = '\n' && s.isQuoted) = false) (h : (s.step c).isInLiteral = false) :
    s.isInLiteral = false := by
  obtain ⟨mode, stack⟩ := s
  obtain ⟨-, -, h₃, h₄, h₅, h₆, h₇, h₈, -, -⟩ := ne_of_isBlank hc
  cases mode with
  | quoted q =>
    have hquote : c ≠ q := by
      rcases hp q (.inl rfl) with rfl | rfl
      · exact h₆
      · exact h₇
    have hn : c ≠ '\n' := by simpa [isQuoted] using hq
    simp [isInLiteral, step, h₃, hquote, hn] at h
  | quotedEscape | templateEscape => simp [isInLiteral, step] at h
  | template | templateDollar => simp [isInLiteral, step, stepTemplate, h₃, h₄, h₅, h₈] at h
  | code | slash | lineComment | blockComment | blockStar => rfl

/-- **Behind blanks** no string or template is open unless one was open in front of them. -/
theorem not_isInLiteral_of_run {s : State} (hp : s.IsProper) {b : Text}
    (hb : ∀ c ∈ b, isBlank c = true) (hq : s.closesQuotes b = true)
    (h : (s.run b).isInLiteral = false) : s.isInLiteral = false := by
  induction b generalizing s with
  | nil => exact h
  | cons c b ih =>
    simp only [closesQuotes, Bool.and_eq_true, Bool.not_eq_true'] at hq
    refine not_isInLiteral_of_step hp (hb c List.mem_cons_self) hq.1 ?_
    exact ih (hp.step c) (fun d hd => hb d (List.mem_cons_of_mem c hd)) hq.2 h

/-- **Blanks outside of strings and templates** do not count at the end of a line. -/
theorem run_blanks {s : State} (hs : s.isInLiteral = false) {b : Text}
    (hb : ∀ c ∈ b, isBlank c = true) :
    (s.run b).isInLiteral = false ∧ (s.run b).step '\n' = s.step '\n'
      ∧ ∀ m ∈ marksFrom s b, m.isLiteral = false := by
  induction b generalizing s with
  | nil => exact ⟨hs, rfl, fun m hm => absurd hm List.not_mem_nil⟩
  | cons c b ih =>
    obtain ⟨h₁, h₂, h₃⟩ := step_blank hs (hb c List.mem_cons_self) b.head?
    obtain ⟨i₁, i₂, i₃⟩ := ih h₁ fun d hd => hb d (List.mem_cons_of_mem c hd)
    refine ⟨i₁, i₂.trans h₂, fun m hm => ?_⟩
    rw [marksFrom] at hm
    rcases List.mem_cons.1 hm with rfl | hm
    · simpa [Mark.isLiteral] using h₃
    · exact i₃ m hm

/-- Outside of strings and templates a text may end where a line feed leaves nothing open. -/
theorem isSettled_iff {s : State} (hs : s.isInLiteral = false) :
    s.isSettled = true ↔ s.step '\n' = start := by
  obtain ⟨mode, stack⟩ := s
  cases mode <;>
    simp_all [isInLiteral, isSettled, step, stepCode, start, isOpener, isCloser]

theorem isInLiteral_of_isSettled {s : State} (h : s.isSettled = true) : s.isInLiteral = false := by
  obtain ⟨mode, stack⟩ := s
  cases mode <;> simp_all [isInLiteral, isSettled]

/-- A text may end in front of the blanks at its end. -/
theorem isSettled_of_run {s : State} (hp : s.IsProper) {b : Text}
    (hb : ∀ c ∈ b, isBlank c = true) (hq : s.closesQuotes b = true)
    (h : (s.run b).isSettled = true) : s.isSettled = true := by
  have hl := isInLiteral_of_isSettled h
  have hs := not_isInLiteral_of_run hp hb hq hl
  obtain ⟨-, hn, -⟩ := run_blanks hs hb
  rwa [isSettled_iff hl, hn, ← isSettled_iff hs] at h

end State

/-- Whether no quoted string is still open at a line feed of a text. -/
def closesQuotes (t : Text) : Bool := State.start.closesQuotes t

theorem closesQuotes_append (a b : Text) :
    closesQuotes (a ++ b) = (closesQuotes a && (endState a).closesQuotes b) :=
  State.closesQuotes_append _ _ _

theorem isProper_endState (t : Text) : (endState t).IsProper :=
  State.isProper_start.run t

/-- Blanks at the start of a text leave the scan where it is. -/
theorem endState_blanks {b : Text} (hb : ∀ c ∈ b, isBlank c = true) : endState b = .start :=
  (Scans.plain (fun c hc => isPlain_of_isBlank (hb c hc)) []).run

/-- The segments of a text in which quoted strings are closed. -/
theorem closesQuotes_of_mem_segments {t : Text} (hq : closesQuotes t = true) {s : Segment}
    (h : s ∈ segments t) : closesQuotes s.text = true := by
  refine forall_segments_of_seams (P := fun t => closesQuotes t = true) (fun a b hs hab => ?_) hq s h
  rwa [closesQuotes_append, hs.closed.endState, Bool.and_eq_true] at hab

/-! ### Trimmed texts -/

/-- Blanks behind a text do not change what it is. -/
theorem marksFrom_append_blanks {b : Text} (hb : ∀ c ∈ b, isBlank c = true) (s : State) (a : Text) :
    marksFrom s (a ++ b) = marksFrom s a ++ marksFrom (s.run a) b :=
  marksFrom_append_eq (fun _ d hd =>
    have hne := State.ne_of_isBlank (hb d (List.mem_of_mem_head? hd))
    ⟨hne.1, hne.2.1⟩) s

/-- What stands behind blanks does not change what they are. -/
theorem marksFrom_blanks_append {b : Text} (hb : ∀ c ∈ b, isBlank c = true) (s : State) (t : Text) :
    marksFrom s (b ++ t) = marksFrom s b ++ marksFrom (s.run b) t :=
  marksFrom_append_eq (fun hl =>
    absurd rfl (State.ne_of_isBlank (hb _ (List.mem_of_getLast? hl))).1) s

section Blanks

variable {b p b' : Text} (hb : ∀ c ∈ b, isBlank c = true) (hb' : ∀ c ∈ b', isBlank c = true)

include hb in
theorem endState_blanks_append (p : Text) : endState (b ++ p) = endState p := by
  rw [endState_append, endState_blanks hb]
  rfl

include hb hb' in
/-- **A balanced text is balanced without the blanks at its ends.** -/
theorem isBalanced_of_blanks (h : isBalanced (b ++ p ++ b') = true)
    (hq : closesQuotes (b ++ p ++ b') = true) : isBalanced p = true := by
  rw [closesQuotes_append, endState_blanks_append hb, Bool.and_eq_true] at hq
  rw [isBalanced, endState_append, endState_blanks_append hb] at h
  exact State.isSettled_of_run (isProper_endState p) hb' hq.2 h

include hb hb' in
/-- The marks of a text between blanks. -/
theorem marks_of_blanks :
    marks (b ++ p ++ b') = codeMarks 0 b ++ (marks p ++ marksFrom (endState p) b') := by
  have hplain := (Scans.plain (fun c hc => isPlain_of_isBlank (hb c hc)) []).marks (p ++ b')
  rw [List.append_assoc]
  refine hplain.trans ?_
  rw [marksFrom_append_blanks hb']
  rfl

end Blanks

/-- What stands at the end of a stretch without cuts has no cuts. -/
theorem stretches_of_append_left {a ms : List Mark} (h : stretches (a ++ ms) = [a ++ ms])
    (hne : ms ≠ []) : stretches ms = [ms] := by
  induction a with
  | nil => exact h
  | cons m a ih =>
    refine ih ?_
    have hrest : a ++ ms ≠ [] := List.append_ne_nil_of_right_ne_nil a hne
    obtain ⟨q, qs, hq⟩ := List.exists_cons_of_ne_nil (mt stretches_eq_nil.1 hrest)
    by_cases hm : endsSegment m (a ++ ms) = true
    · rw [List.cons_append, stretches_cons_of_ends hm, hq] at h
      exact absurd (congrArg List.length h) (by simp)
    · rw [List.cons_append, stretches_cons_of_not_ends (by simpa using hm) hq] at h
      obtain ⟨hqs, rfl⟩ := List.cons.inj h
      rw [hq, (List.cons.inj hqs).2]

/-- The line goes on if it holds something that is not blank, and something that is neither an ASCII
blank nor a comment. -/
theorem continues_iff {ms : List Mark} :
    continues ms = true ↔ (∃ m ∈ restOfLine ms, isBlank m.char = false)
      ∧ ∃ m ∈ restOfLine ms, isAsciiBlank m.char = false ∧ m.layer ≠ .comment := by
  have hblank : isBlankText (chars (restOfLine ms)) = false
      ↔ ∃ m ∈ restOfLine ms, isBlank m.char = false := by
    simp [isBlankText, chars]
  rw [continues, Bool.and_eq_true, Bool.not_eq_true', Bool.not_eq_true', hblank]
  refine and_congr_right fun hrest => ?_
  obtain ⟨m, hm, hb⟩ := hrest
  have ha : isAsciiBlank m.char = false := by
    cases h : isAsciiBlank m.char
    · rfl
    · rw [isBlank_of_isAsciiBlank h] at hb
      cases hb
  have hne : ((restOfLine ms).filter fun m => !isAsciiBlank m.char) ≠ [] :=
    List.ne_nil_of_mem (List.mem_filter.2 ⟨hm, by simp [ha]⟩)
  simp only [holdsOnlyComments, Bool.and_eq_false_iff, Bool.not_eq_false', List.isEmpty_iff, hne,
    false_or, List.all_eq_false, List.mem_filter, Bool.not_eq_true', decide_eq_true_eq, and_assoc]

/-- Where the line goes on, it goes on with more behind it. -/
theorem continues_append_left {ms : List Mark} (h : continues ms = true) (b : List Mark) :
    continues (ms ++ b) = true := by
  have hpre : restOfLine ms <+: restOfLine (ms ++ b) := by
    rw [restOfLine, restOfLine, List.takeWhile_append]
    split
    · rename_i hl
      rw [(List.takeWhile_prefix _).eq_of_length hl]
      exact List.prefix_append _ _
    · exact List.prefix_rfl
  obtain ⟨⟨m, hm, hb⟩, x, hx, hc⟩ := continues_iff.1 h
  exact continues_iff.2 ⟨⟨m, hpre.subset hm, hb⟩, x, hpre.subset hx, hc⟩

/-- What stands at the start of a stretch without cuts has no cuts. -/
theorem stretches_of_append_right {ms b : List Mark} (h : stretches (ms ++ b) = [ms ++ b])
    (hne : ms ≠ []) : stretches ms = [ms] := by
  induction ms with
  | nil => exact absurd rfl hne
  | cons m ms ih =>
    by_cases hms : ms = []
    · rw [hms]
      exact stretches_singleton m
    · have hrest : ms ++ b ≠ [] := List.append_ne_nil_of_left_ne_nil hms b
      have hcut : stretches (ms ++ b) = [ms ++ b] := stretches_of_append_left (a := [m]) h hrest
      have hm : endsSegment m (ms ++ b) = false := by
        by_contra hm
        rw [List.cons_append, stretches_cons_of_ends (by simpa using hm), hcut] at h
        exact absurd (congrArg List.length h) (by simp)
      refine stretches_cons_of_not_ends ?_ (ih hcut hms)
      by_contra hends
      rw [Bool.not_eq_false, endsSegment_eq, Bool.and_eq_true, Bool.or_eq_true,
        Bool.and_eq_true] at hends
      refine absurd hm ?_
      rw [Bool.not_eq_false, endsSegment_eq, Bool.and_eq_true, Bool.or_eq_true, Bool.and_eq_true]
      exact ⟨hends.1, hends.2.imp id fun hc => ⟨hc.1, continues_append_left hc.2 b⟩⟩

section Blanks

variable {b p b' : Text} (hb : ∀ c ∈ b, isBlank c = true) (hb' : ∀ c ∈ b', isBlank c = true)

include hb hb' in
/-- **A statement is one statement without the blanks at its ends.** -/
theorem IsPiece.of_blanks (h : IsPiece (b ++ p ++ b')) (hne : p ≠ []) : IsPiece p := by
  rw [IsPiece, marks_of_blanks hb hb'] at h
  have hm : marks p ≠ [] := fun he => hne (by rw [← chars_marks p, he]; rfl)
  exact stretches_of_append_right
    (stretches_of_append_left h (List.append_ne_nil_of_left_ne_nil hm _)) hm

include hb hb' in
/-- A statement without the blanks at its ends keeps its shape, or it turns out to be a comment: the
blanks may be others than those of ASCII. -/
theorem shape_of_blanks (hp : trim (b ++ p ++ b') = trim p) (hne : trim p ≠ []) :
    shape p = shape (b ++ p ++ b') ∨ shape p = .comment := by
  have hcomment : holdsOnlyComments (marks (b ++ p ++ b')) = true →
      holdsOnlyComments (marks p) = true := by
    rw [marks_of_blanks hb hb']
    simp only [holdsOnlyComments, Bool.and_eq_true, Bool.not_eq_true', List.all_eq_true,
      List.mem_filter, List.mem_append, decide_eq_true_eq, and_imp]
    refine fun _ h => ⟨?_, fun m hm hs => h m (.inr (.inl hm)) hs⟩
    rw [Ne, trim_eq_nil] at hne
    push Not at hne
    obtain ⟨c, hc, hcb⟩ := hne
    rw [← chars_marks p] at hc
    obtain ⟨m, hm, rfl⟩ := List.mem_map.1 hc
    have ha : isAsciiBlank m.char = false := by
      cases h : isAsciiBlank m.char
      · rfl
      · exact absurd (isBlank_of_isAsciiBlank h) hcb
    exact List.isEmpty_eq_false_iff.2
      (List.ne_nil_of_mem (List.mem_filter.2 ⟨hm, by simp [ha]⟩))
  have he : (trim p).isEmpty = false := List.isEmpty_eq_false_iff.2 hne
  cases ho : holdsOnlyComments (marks p) with
  | true => exact .inr (by simp [shape, kindOf, ho, he])
  | false =>
    have hw : holdsOnlyComments (marks (b ++ p ++ b')) = false := by
      cases h : holdsOnlyComments (marks (b ++ p ++ b'))
      · rfl
      · rw [hcomment h] at ho
        cases ho
    exact .inl (by simp only [shape, kindOf, chars_marks, ho, hw, hp, he])

end Blanks

end ElementModules.Script
