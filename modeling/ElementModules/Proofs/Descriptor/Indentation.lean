import ElementModules.Descriptor.Indentation
import ElementModules.Proofs.Script.Gaps

/-!
# What indentation changes

The lines of a body are scanned one after the other: each begins in the state that the line feed in
front leaves (`Scanned`). A line that begins outside of strings and templates begins in code or in a
block comment, where spaces do not matter; and the blanks that a line loses at its end are no part of
a string or a template unless a quoted string is open at the line feed. So each line is written such
that the scan ends in the same state and only gaps differ (`Scanned.render`), and indentation changes
nothing but the length of gaps (`respaces_indentBody`).

## Main results

* `scanned_linesOf`: the lines of a balanced text.
* `respaces_indentBody`: what is indented, is scanned as before.
-/

namespace ElementModules.Descriptor

open Text Script

/-- Induction along the lines of a text. -/
@[elab_as_elim]
theorem line_induction {motive : Text → Prop} (last : ∀ a, '\n' ∉ a → motive a)
    (line : ∀ a b, '\n' ∉ a → motive b → motive (a ++ '\n' :: b)) (t : Text) : motive t := by
  induction hn : t.length using Nat.strongRecOn generalizing t with
  | ind n ih =>
    by_cases h : '\n' ∈ t
    · obtain ⟨a, b, rfl, ha⟩ := List.eq_append_cons_of_mem h
      exact line a b ha (ih b.length (by simp at hn; omega) b rfl)
    · exact last t h

/-- Consecutive lines of a scan that starts in `s` and ends in `s'`; a line feed follows each. -/
inductive Scanned : State → List BodyLine → State → Prop
  | nil (s : State) : Scanned s [] s
  | cons {s s' : State} {l : BodyLine} {ls : List BodyLine} (one : '\n' ∉ l.text)
      (verbatim : l.verbatim = s.isInLiteral)
      (openEnd : l.openEnd = ((s.run l.text).step '\n').isInLiteral)
      (closed : (s.run l.text).isQuoted = false)
      (rest : Scanned ((s.run l.text).step '\n') ls s') : Scanned s (l :: ls) s'

/-- The lines as they were. -/
def unlined (ls : List BodyLine) : Text := ls.flatMap fun l => l.text ++ ['\n']

theorem linesOf_last (v : Bool) (s : State) {a : Text} (ha : '\n' ∉ a) :
    linesOf v (marksFrom s a) = [⟨a, v, false⟩] := by
  induction a generalizing s with
  | nil => rfl
  | cons c a ih =>
    rw [List.mem_cons, not_or] at ha
    rw [marksFrom, linesOf, if_neg (Ne.symm ha.1), ih _ ha.2]

theorem linesOf_line (v : Bool) (s : State) {a : Text} (ha : '\n' ∉ a) (b : Text) :
    linesOf v (marksFrom s (a ++ '\n' :: b))
      = ⟨a, v, ((s.run a).step '\n').isInLiteral⟩
        :: linesOf ((s.run a).step '\n').isInLiteral (marksFrom ((s.run a).step '\n') b) := by
  induction a generalizing s with
  | nil =>
    have hl : Mark.isLiteral ⟨'\n', s.layer '\n' b.head?, s.depth⟩ = (s.step '\n').isInLiteral := by
      have := isGap_newline s b.head? s.depth
      simpa [isGap, show isBlank '\n' = true from rfl] using this
    rw [List.nil_append, marksFrom, linesOf, if_pos rfl, hl]
    rfl
  | cons c a ih =>
    rw [List.mem_cons, not_or] at ha
    rw [List.cons_append, marksFrom, linesOf, if_neg (Ne.symm ha.1), ih _ ha.2]
    rfl

theorem unlined_linesOf (v : Bool) (s : State) (t : Text) :
    unlined (linesOf v (marksFrom s t)) = t ++ ['\n'] := by
  induction t using line_induction generalizing v s with
  | last a ha => simp [linesOf_last v s ha, unlined]
  | line a b ha ih =>
    have hb := ih ((s.run a).step '\n').isInLiteral ((s.run a).step '\n')
    rw [linesOf_line v s ha, unlined, List.flatMap_cons, ← unlined, hb]
    simp

/-- **The lines of a balanced text** in which quoted strings are closed. -/
theorem scanned_linesOf {s : State} {t : Text} (hb : (s.run t).isSettled = true)
    (hq : s.closesQuotes t = true) :
    Scanned s (linesOf s.isInLiteral (marksFrom s t)) .start := by
  induction t using line_induction generalizing s with
  | last a ha =>
    have hl := State.isInLiteral_of_isSettled hb
    have hn := (State.isSettled_iff hl).1 hb
    rw [linesOf_last _ s ha]
    refine .cons ha rfl ?_ ?_ (hn ▸ .nil _)
    · rw [hn]
      rfl
    · cases hm : (s.run a).mode <;> simp_all [State.isQuoted, State.isInLiteral]
  | line a b ha ih =>
    have hsplit : s.run (a ++ '\n' :: b) = ((s.run a).step '\n').run b := by
      rw [State.run_append, State.run_cons]
    rw [hsplit] at hb
    rw [State.closesQuotes_append, State.closesQuotes, Bool.and_eq_true, Bool.and_eq_true] at hq
    rw [linesOf_line _ s ha]
    exact .cons ha rfl rfl (by simpa using hq.2.1) (ih hb hq.2.2)

/-! ### Rewriting a line -/

/-- Outside of strings and templates a line begins in code or in a block comment. -/
def IsLineStart (s : State) : Prop := s.isInLiteral = false → s.mode = .code ∨ s.mode = .blockComment

theorem isLineStart_step (s : State) : IsLineStart (s.step '\n') := by
  obtain ⟨mode, stack⟩ := s
  cases mode <;> simp [IsLineStart, State.isInLiteral, State.step, State.stepCode,
    State.stepTemplate, isOpener, isCloser]

/-- A text `u` that is written for a text `t` read in the state `s`: it leads to the same state, only
gaps differ, of which ASCII blanks may be new, and quoted strings are closed in it. -/
structure Respaces (s : State) (t u : Text) : Prop where
  run_eq : s.run u = s.run t
  condense_eq : condense (!s.isInLiteral) (marksFrom s u) = condense (!s.isInLiteral) (marksFrom s t)
  mem : ∀ m ∈ marksFrom s u, isAsciiBlank m.char = true ∨ m ∈ marksFrom s t
  quotes : s.closesQuotes u = true

theorem Respaces.refl {s : State} {t : Text} (h : s.closesQuotes t = true) : Respaces s t t :=
  ⟨rfl, rfl, fun _ hm => .inr hm, h⟩

theorem Respaces.line {s : State} {a a' b b' : Text} (h : Respaces s (a ++ ['\n']) (a' ++ ['\n']))
    (h' : Respaces (s.run (a ++ ['\n'])) b b') :
    Respaces s (a ++ ['\n'] ++ b) (a' ++ ['\n'] ++ b') where
  run_eq := by rw [State.run_append, h.run_eq, h'.run_eq, ← State.run_append]
  condense_eq := by
    rw [condense_line, condense_line, h.condense_eq, h.run_eq, h'.condense_eq]
  mem := by
    intro m hm
    rw [marksFrom_append_eq (by simp), h.run_eq, List.mem_append] at hm
    rw [marksFrom_append_eq (by simp), List.mem_append]
    rcases hm with hm | hm
    · exact (h.mem m hm).imp id .inl
    · exact (h'.mem m hm).imp id .inr
  quotes := by rw [State.closesQuotes_append, h.quotes, h.run_eq, h'.quotes]; rfl

theorem closesQuotes_of_not_mem {s : State} {a : Text} (ha : '\n' ∉ a) :
    s.closesQuotes a = true := by
  induction a generalizing s with
  | nil => rfl
  | cons c a ih =>
    rw [List.mem_cons, not_or] at ha
    simp [State.closesQuotes, Ne.symm ha.1, ih ha.2]

theorem closesQuotes_line {s : State} {a : Text} (ha : '\n' ∉ a) (h : (s.run a).isQuoted = false) :
    s.closesQuotes (a ++ ['\n']) = true := by
  simp [State.closesQuotes_append, closesQuotes_of_not_mem ha, State.closesQuotes, h]

theorem not_isQuoted {s : State} (h : s.isInLiteral = false) : s.isQuoted = false := by
  cases hm : s.mode <;> simp_all [State.isQuoted, State.isInLiteral]

section Line

variable {s : State}

/-- Blanks at the end of a line may go. -/
theorem Respaces.trimmed {a b : Text} (ha : '\n' ∉ a) (hl : (s.run a).isInLiteral = false)
    (hb : ∀ c ∈ b, isBlank c = true) : Respaces s (a ++ b ++ ['\n']) (a ++ ['\n']) where
  run_eq := by
    rw [State.run_append, State.run_append, State.run_append]
    exact (State.run_blanks hl hb).2.1.symm
  condense_eq := by
    have hn : ∀ c ∈ ['\n'], isBlank c = true := by simp only [List.mem_singleton, forall_eq]; rfl
    have hbn : ∀ c ∈ b ++ ['\n'], isBlank c = true := fun c hc =>
      (List.mem_append.1 hc).elim (hb c) (hn c)
    rw [List.append_assoc, marksFrom_append_blanks hn, marksFrom_append_blanks hbn]
    exact condense_append_gaps (isGap_of_blanks hl hn) (isGap_of_blanks hl hbn)
      (by simp [marksFrom]) (by cases b <;> simp [marksFrom]) _ _
  mem := by
    intro m hm
    rw [marksFrom_append_eq (by simp), List.mem_append] at hm
    rcases hm with hm | hm
    · rw [marksFrom_append_eq (by simp), marksFrom_append_blanks hb]
      exact .inr (List.mem_append_left _ (List.mem_append_left _ hm))
    · obtain rfl := List.mem_singleton.1 hm
      exact .inl rfl
  quotes := closesQuotes_line ha (not_isQuoted hl)

variable (hs : s.isInLiteral = false)
include hs

/-- The blanks at the start of a line may be replaced by others. -/
theorem Respaces.indented {w w' t u : Text} (hw : ∀ c ∈ w, isBlank c = true)
    (hw' : ∀ c ∈ w', isAsciiBlank c = true) (hr : s.run w = s) (hr' : s.run w' = s)
    (hn : '\n' ∉ w') (h : Respaces s t u) : Respaces s (w ++ t) (w' ++ u) := by
  have hb' : ∀ c ∈ w', isBlank c = true := fun c hc => isBlank_of_isAsciiBlank (hw' c hc)
  have hsplit : ∀ {w : Text}, (∀ c ∈ w, isBlank c = true) → s.run w = s → ∀ t,
      condense (!s.isInLiteral) (marksFrom s (w ++ t))
        = condense (!s.isInLiteral) (marksFrom s t) := by
    intro w hw hr t
    rw [marksFrom_blanks_append hw, hr, hs]
    exact condense_gaps_append (isGap_of_blanks hs hw) _
  refine ⟨?_, ?_, fun m hm => ?_, ?_⟩
  · rw [State.run_append, State.run_append, hr, hr', h.run_eq]
  · rw [hsplit hw hr, hsplit hb' hr', h.condense_eq]
  · rw [marksFrom_blanks_append hb', hr', List.mem_append] at hm
    rw [marksFrom_blanks_append hw, hr]
    rcases hm with hm | hm
    · exact .inl (hw' _ (char_mem_of_mem_marksFrom hm))
    · exact (h.mem m hm).imp id (List.mem_append_right _)
  · rw [State.closesQuotes_append, closesQuotes_of_not_mem hn, hr', h.quotes]
    rfl

/-- Spaces do not matter at the start of a line. -/
theorem run_indent (h : IsLineStart s) {w : Text} (hw : ∀ c ∈ w, c = ' ' ∨ c = '\t') :
    s.run w = s := by
  obtain ⟨mode, stack⟩ := s
  induction w with
  | nil => rfl
  | cons c w ih =>
    have hstep : State.step ⟨mode, stack⟩ c = ⟨mode, stack⟩ := by
      rcases h hs with rfl | rfl <;> rcases hw c List.mem_cons_self with rfl | rfl <;> rfl
    rw [State.run_cons, hstep]
    exact ih fun d hd => hw d (List.mem_cons_of_mem c hd)

end Line

theorem isAsciiBlank_of_indent {w : Text} (hw : ∀ c ∈ w, c = ' ' ∨ c = '\t') :
    ∀ c ∈ w, isAsciiBlank c = true := by
  intro c hc
  rcases hw c hc with rfl | rfl <;> rfl

/-- What is taken off the start of a line is indentation. -/
theorem BodyLine.exists_indent {l : BodyLine} {common : Nat} (h : common ≤ l.indent) :
    ∃ w, l.text = w ++ l.text.drop common ∧ ∀ c ∈ w, c = ' ' ∨ c = '\t' := by
  refine ⟨l.text.take common, (List.take_append_drop _ _).symm, fun c hc => ?_⟩
  have hpre : l.text.take common <+: l.text.takeWhile fun c => c = ' ' || c = '\t' := by
    refine List.prefix_of_prefix_length_le (List.take_prefix _ _) (List.takeWhile_prefix _) ?_
    rw [List.length_take]
    exact Nat.le_trans (Nat.min_le_left _ _) h
  simpa using List.mem_takeWhile_imp (hpre.subset hc)

/-- **A line as it is written** for what it was. -/
theorem Scanned.line {s s' : State} {l : BodyLine} {ls : List BodyLine} {common : Nat}
    (h : Scanned s (l :: ls) s') (hp : s.IsProper) (hs : IsLineStart s)
    (hc : l.verbatim = false → l.isBlank = false → common ≤ l.indent) :
    ∃ a, l.render common = a ++ ['\n'] ∧ Respaces s (l.text ++ ['\n']) (a ++ ['\n']) := by
  cases h with
  | cons one verbatim openEnd closed rest =>
    cases hv : l.verbatim with
    | true => exact ⟨l.text, by simp [BodyLine.render, hv], .refl (closesQuotes_line one closed)⟩
    | false =>
      have hlit : s.isInLiteral = false := verbatim.symm.trans hv
      cases hblank : l.isBlank with
      | true =>
        refine ⟨[], by simp [BodyLine.render, hv, hblank], ?_⟩
        rw [BodyLine.isBlank, hv, isBlankText, Bool.not_false, Bool.true_and,
          List.all_eq_true] at hblank
        exact Respaces.trimmed (a := []) (by simp) hlit hblank
      | false =>
        obtain ⟨w, htext, hw⟩ := BodyLine.exists_indent (hc hv hblank)
        have hspaces : ∀ c ∈ [' ', ' '], c = ' ' ∨ c = '\t' := by simp
        have hr := run_indent hlit hs hw
        have hindent : ∀ u : Text, Respaces s (l.text.drop common ++ ['\n']) u →
            Respaces s (l.text ++ ['\n']) ([' ', ' '] ++ u) := by
          intro u hu
          rw [htext, List.append_assoc]
          exact hu.indented hlit (fun c hc => isBlank_of_isAsciiBlank (isAsciiBlank_of_indent hw c hc))
            (isAsciiBlank_of_indent hspaces) hr (run_indent hlit hs hspaces) (by simp)
        rw [htext, List.mem_append, not_or] at one
        rw [htext, State.run_append, hr] at closed openEnd
        cases ho : l.openEnd with
        | true =>
          refine ⟨' ' :: ' ' :: l.text.drop common, by simp [BodyLine.render, hv, hblank, ho], ?_⟩
          exact hindent _ (.refl (closesQuotes_line one.2 closed))
        | false =>
          obtain ⟨b, hrest, hb⟩ := exists_eq_trimEnd_blanks (l.text.drop common)
          refine ⟨' ' :: ' ' :: trimEnd (l.text.drop common),
            by simp [BodyLine.render, hv, hblank, ho], hindent _ ?_⟩
          rw [ho] at openEnd
          generalize trimEnd (l.text.drop common) = a at hrest
          rw [hrest] at one openEnd closed ⊢
          rw [List.mem_append, not_or] at one
          have hopen := State.not_isInLiteral_of_step (hp.run _) (c := '\n') rfl (by simp [closed])
            openEnd.symm
          rw [State.run_append] at hopen
          exact Respaces.trimmed one.2.1
            (State.not_isInLiteral_of_run (hp.run a) hb (closesQuotes_of_not_mem one.2.2) hopen) hb

/-! ### Bodies -/

theorem Scanned.run_unlined {s s' : State} {ls : List BodyLine} (h : Scanned s ls s') :
    s.run (unlined ls) = s' := by
  induction h with
  | nil => rfl
  | cons _ _ _ _ _ ih => rw [unlined, List.flatMap_cons, State.run_append, State.run_append]; exact ih

theorem Scanned.of_append {a b : List BodyLine} {s s' : State} (h : Scanned s (a ++ b) s') :
    ∃ m, Scanned s a m ∧ Scanned m b s' := by
  induction a generalizing s with
  | nil => exact ⟨s, .nil s, h⟩
  | cons l a ih =>
    cases h with
    | cons one verbatim openEnd closed rest =>
      obtain ⟨m, hm, hb⟩ := ih rest
      exact ⟨m, .cons one verbatim openEnd closed hm, hb⟩

theorem IsLineStart.scanned {s s' : State} {ls : List BodyLine} (h : Scanned s ls s')
    (hs : IsLineStart s) : IsLineStart s' := by
  induction h with
  | nil => exact hs
  | cons _ _ _ _ _ ih => exact ih (isLineStart_step _)

/-- **Lines as they are written** for what they were. -/
theorem Scanned.render {s s' : State} {ls : List BodyLine} {common : Nat} (h : Scanned s ls s')
    (hp : s.IsProper) (hs : IsLineStart s)
    (hc : ∀ l ∈ ls, l.verbatim = false → l.isBlank = false → common ≤ l.indent) :
    Respaces s (unlined ls) (ls.flatMap (BodyLine.render common)) := by
  induction ls generalizing s with
  | nil => exact .refl rfl
  | cons l ls ih =>
    obtain ⟨a, ha, hl⟩ := h.line hp hs (hc l List.mem_cons_self)
    cases h with
    | cons one verbatim openEnd closed rest =>
      have hrest := ih rest ((hp.run _).step _) (isLineStart_step _)
        fun x hx => hc x (List.mem_cons_of_mem l hx)
      rw [unlined, List.flatMap_cons, List.flatMap_cons, ha]
      refine hl.line ?_
      rw [State.run_append]
      exact hrest

/-- Blank lines leave the scan where it is. -/
theorem Scanned.blank {s s' : State} {ls : List BodyLine} (h : Scanned s ls s')
    (hs : IsLineStart s) (hb : ∀ l ∈ ls, l.isBlank = true) :
    s' = s ∧ ∀ m ∈ marksFrom s (unlined ls), isGap m = true := by
  induction h with
  | nil s => exact ⟨rfl, fun m hm => absurd hm List.not_mem_nil⟩
  | @cons s s' l ls one verbatim openEnd closed rest ih =>
    have hl := hb l List.mem_cons_self
    rw [BodyLine.isBlank, Bool.and_eq_true, Bool.not_eq_true', isBlankText, List.all_eq_true] at hl
    have hlit : s.isInLiteral = false := verbatim.symm.trans hl.1
    have hline : ∀ c ∈ l.text ++ ['\n'], isBlank c = true := fun c hc =>
      (List.mem_append.1 hc).elim (hl.2 c) fun hn => by rw [List.mem_singleton.1 hn]; rfl
    have hstep : (s.run l.text).step '\n' = s := by
      rw [(State.run_blanks hlit hl.2).2.1]
      obtain ⟨mode, stack⟩ := s
      rcases hs hlit with rfl | rfl <;> rfl
    rw [hstep] at ih
    obtain ⟨he, hgap⟩ := ih hs fun x hx => hb x (List.mem_cons_of_mem l hx)
    refine ⟨he, fun m hm => ?_⟩
    rw [unlined, List.flatMap_cons, marksFrom_append_eq (by simp), State.run_append, State.run_cons,
      hstep] at hm
    rcases List.mem_append.1 hm with hm | hm
    · exact isGap_of_blanks hlit hline m hm
    · exact hgap m hm

theorem exists_trimLines (ls : List BodyLine) :
    ∃ a b, ls = a ++ (trimLines ls ++ b) ∧ (∀ l ∈ a, l.isBlank = true)
      ∧ ∀ l ∈ b, l.isBlank = true := by
  have hs : ls = ls.takeWhile BodyLine.isBlank ++ ls.dropWhile BodyLine.isBlank :=
    (List.takeWhile_append_dropWhile).symm
  have he : ls.dropWhile BodyLine.isBlank = trimLines ls
      ++ ((ls.dropWhile BodyLine.isBlank).reverse.takeWhile BodyLine.isBlank).reverse := by
    rw [trimLines, ← List.reverse_append, List.takeWhile_append_dropWhile, List.reverse_reverse]
  refine ⟨ls.takeWhile BodyLine.isBlank,
    ((ls.dropWhile BodyLine.isBlank).reverse.takeWhile BodyLine.isBlank).reverse, ?_,
    fun l hl => List.mem_takeWhile_imp hl,
    fun l hl => List.mem_takeWhile_imp (List.mem_reverse.1 hl)⟩
  rw [← he]
  exact hs

theorem commonIndent_le {ls : List BodyLine} {l : BodyLine} (hl : l ∈ ls)
    (hv : l.verbatim = false) (hb : l.isBlank = false) : commonIndent ls ≤ l.indent := by
  have hm : l.indent ∈ (ls.filter fun l => !l.verbatim && !l.isBlank).map BodyLine.indent :=
    List.mem_map_of_mem (List.mem_filter.2 ⟨hl, by simp [hv, hb]⟩)
  rw [commonIndent]
  cases h : ((ls.filter fun l => !l.verbatim && !l.isBlank).map BodyLine.indent).min? with
  | none => exact Nat.zero_le _
  | some n => exact (List.min?_eq_some_iff.1 h).2 _ hm

theorem unlined_append (a b : List BodyLine) : unlined (a ++ b) = unlined a ++ unlined b :=
  List.flatMap_append

theorem unlined_cases (ls : List BodyLine) : unlined ls = [] ∨ ∃ x, unlined ls = x ++ ['\n'] := by
  rcases List.eq_nil_or_concat ls with rfl | ⟨ls, l, rfl⟩
  · exact .inl rfl
  · refine .inr ⟨unlined ls ++ l.text, ?_⟩
    rw [List.concat_eq_append, unlined_append, List.append_assoc]
    simp [unlined]

theorem marks_unlined_append {s : State} (ls : List BodyLine) (t : Text) :
    marksFrom s (unlined ls ++ t)
      = marksFrom s (unlined ls) ++ marksFrom (s.run (unlined ls)) t := by
  refine marksFrom_append_eq (fun h => ?_) s
  rcases unlined_cases ls with he | ⟨x, he⟩ <;> rw [he] at h <;> simp at h

/-- **What indentation changes**: nothing but the length of gaps. -/
theorem respaces_indentBody {w : Text} (hb : isBalanced w = true) (hq : closesQuotes w = true) :
    Respaces .start (w ++ ['\n']) (indentBody w) := by
  have h : Scanned .start (linesOf false (marksFrom .start w)) .start := scanned_linesOf hb hq
  have hs : IsLineStart .start := fun _ => .inl rfl
  rw [indentBody, marks, ← unlined_linesOf false .start w]
  generalize linesOf false (marksFrom .start w) = ls at h
  have hrun := h.run_unlined
  obtain ⟨a, b, hls, ha, hb'⟩ := exists_trimLines ls
  generalize trimLines ls = mid at hls ⊢
  subst hls
  obtain ⟨m, h₁, h⟩ := h.of_append
  obtain ⟨m', h₂, h₃⟩ := h.of_append
  obtain ⟨rfl, hgap₁⟩ := h₁.blank hs ha
  obtain ⟨rfl, hgap₃⟩ := h₃.blank (hs.scanned h₂) hb'
  have hr := h₂.render State.isProper_start hs fun l hl => commonIndent_le hl
  have hsplit : marksFrom .start (unlined (a ++ (mid ++ b))) = marksFrom .start (unlined a)
      ++ marksFrom .start (unlined mid ++ unlined b) := by
    rw [unlined_append, unlined_append, marks_unlined_append, h₁.run_unlined]
  refine ⟨?_, ?_, fun m hm => ?_, hr.quotes⟩
  · rw [hrun, hr.run_eq, h₂.run_unlined]
  · have hmid : condense true (marksFrom .start (unlined mid ++ unlined b))
        = condense true (marksFrom .start (unlined mid)) := by
      rcases unlined_cases mid with he | ⟨x, he⟩
      · rw [he]
        exact condense_gaps hgap₃
      · have hx := h₂.run_unlined
        rw [he] at hx ⊢
        rw [condense_line, hx]
        exact (congrArg (_ ++ ·) (condense_gaps hgap₃)).trans (List.append_nil _)
    rw [hr.condense_eq, hsplit]
    exact ((condense_gaps_append hgap₁ _).trans hmid).symm
  · rw [hsplit, marks_unlined_append]
    exact (hr.mem m hm).imp id fun hm => List.mem_append_right _ (List.mem_append_left _ hm)

end ElementModules.Descriptor
