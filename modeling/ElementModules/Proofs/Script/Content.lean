import ElementModules.Proofs.Script.Fields
import ElementModules.Proofs.Script.Keys

/-!
# Fields and their gaps

What a field says does not depend on the length of its gaps. Its key and its kind are read off its
content: a name is read off a view, which shows one space for each run of blanks
(`headView_condense`), and a quoted key is a literal, in which nothing is a gap. So the cores of a
body are read off its condensed marks (`cores_eq_condense`), and bodies that are condensed alike hold
the same fields.

Blanks are told apart twice: every blank outside of strings and templates is a gap, and the tokens of
a field are parted by ASCII blanks. Both readings agree where the blanks in code are ASCII blanks
(`HasPlainBlanks`).

## Main results

* `keyOf_condense`: the key and the kind of a field.
* `cores_eq_condense`: the fields of a body.
* `cores_append_newline`, `cores_congr`: bodies that hold the same fields.
-/

namespace ElementModules.Script

open Text

/-- The blanks in code are ASCII blanks. -/
def HasPlainBlanks (ms : List Mark) : Prop :=
  ∀ m ∈ ms, m.layer = .code → isBlank m.char = true → isAsciiBlank m.char = true

instance (ms : List Mark) : Decidable (HasPlainBlanks ms) :=
  inferInstanceAs (Decidable (∀ m ∈ ms, _))

/-! ### Views -/

/-- The gaps that a view shows are ASCII blanks. -/
def IsLegible : List Mark → Prop
  | [] => True
  | m :: ms =>
    (isGap m = true → isAsciiBlank m.char = true) ∧ (endsHead m.char = true ∨ IsLegible ms)

/-- **A view does not show how long a gap is.** -/
theorem headView_condense {ms : List Mark} (h : IsLegible ms) {behindGap afterBlank : Bool}
    (hb : behindGap = true → afterBlank = true) :
    headView afterBlank (chars (condense behindGap ms)) = headView afterBlank (chars ms) := by
  induction ms generalizing behindGap afterBlank with
  | nil => rfl
  | cons m ms ih =>
    obtain ⟨hgap, hrest⟩ := h
    rw [condense]
    cases hm : isGap m with
    | true =>
      have ha := hgap hm
      have hms := hrest.resolve_left fun he => by
        rw [isAsciiBlank_of_endsHead he] at ha
        cases ha
      have hnext : headView true (chars (condense true ms)) = headView true (chars ms) :=
        ih hms fun _ => rfl
      cases behindGap with
      | true =>
        rw [if_pos rfl, if_pos rfl, hb rfl, hnext, chars_cons, headView_true_blank ha]
      | false =>
        have hspace : isAsciiBlank gapMark.char = true := rfl
        rw [if_pos rfl, if_neg (by simp), chars_cons, chars_cons]
        cases afterBlank with
        | true => rw [headView_true_blank hspace, headView_true_blank ha, hnext]
        | false => rw [headView_blank hspace, headView_blank ha, hnext]
    | false =>
      rw [if_neg (by simp), chars_cons, chars_cons]
      rcases headChar_cases m.char with hc | hc | hc
      · have hms := hrest.resolve_left fun he => by
          rw [isAsciiBlank_of_endsHead he] at hc
          cases hc
        have hnext : headView true (chars (condense false ms)) = headView true (chars ms) :=
          ih hms fun hf => by cases hf
        cases afterBlank with
        | true => rw [headView_true_blank hc, headView_true_blank hc, hnext]
        | false => rw [headView_blank hc, headView_blank hc, hnext]
      · rw [headView_ends hc, headView_ends hc]
      · have hms := hrest.resolve_left fun he => by
          rw [hc.2] at he
          cases he
        rw [headView_cons hc, headView_cons hc, ih hms fun hf => hf]

namespace State

/-- Whether the scan is neither in a comment nor behind a slash that may open one. -/
def isClear (s : State) : Bool :=
  match s.mode with
  | .slash | .lineComment | .blockComment | .blockStar => false
  | _ => true

theorem isClear_step {s : State} (h : s.isClear = true) {c : Char} (hc : c ≠ '/') :
    (s.step c).isClear = true := by
  obtain ⟨mode, stack⟩ := s
  cases mode with
  | slash | lineComment | blockComment | blockStar => cases h
  | quotedEscape | templateEscape => rfl
  | code =>
    show (stepCode ⟨.code, stack⟩ c).isClear = true
    rw [stepCode, if_neg hc]
    split_ifs <;> first | rfl | (split <;> rfl)
  | quoted | template | templateDollar =>
    simp only [step, stepTemplate]
    split_ifs <;> rfl

theorem layer_ne_comment {s : State} (h : s.isClear = true) {c : Char} (hc : c ≠ '/')
    (next : Option Char) : s.layer c next ≠ .comment := by
  obtain ⟨mode, stack⟩ := s
  cases mode with
  | slash | lineComment | blockComment | blockStar => cases h
  | quotedEscape | template | templateDollar | templateEscape => simp [layer]
  | code =>
    simp only [layer, layerInCode, hc, decide_false, Bool.false_and, Bool.false_eq_true, if_false]
    split_ifs <;> simp
  | quoted =>
    simp only [layer]
    split_ifs <;> simp

end State

/-- Up to the first slash there is no comment, so what a view shows is code or literal. -/
theorem isLegible_marksFrom {s : State} (hs : s.isClear = true) {t : Text}
    (h : HasPlainBlanks (marksFrom s t)) : IsLegible (marksFrom s t) := by
  induction t generalizing s with
  | nil => trivial
  | cons c t ih =>
    rw [marksFrom] at h ⊢
    by_cases hc : c = '/'
    · subst hc
      refine ⟨fun hg => ?_, .inl rfl⟩
      have hb : isBlank '/' = false := rfl
      simp [isGap, hb] at hg
    · refine ⟨fun hg => ?_, .inr (ih (State.isClear_step hs hc) fun m hm =>
        h m (List.mem_cons_of_mem _ hm))⟩
      have hl := State.layer_ne_comment hs hc t.head?
      simp only [isGap, Mark.isLiteral, Bool.and_eq_true, Bool.not_eq_true',
        decide_eq_false_iff_not] at hg
      refine h _ List.mem_cons_self ?_ hg.2
      revert hl hg
      cases s.layer c t.head? <;> simp

/-! ### Contents -/

/-- A condensed stretch begins where the stretch does, if gaps are ASCII blanks or in a comment. -/
theorem contentOf_condense {ms : List Mark}
    (h : ∀ m ∈ ms, isGap m = true → isAsciiBlank m.char = true ∨ m.layer = .comment) (g : Bool) :
    contentOf (condense g ms) = condense false (contentOf ms) := by
  induction ms generalizing g with
  | nil => rfl
  | cons m ms ih =>
    have hms := fun x hx => h x (List.mem_cons_of_mem m hx)
    have hdrop : ∀ x xs, (isAsciiBlank x.char || decide (x.layer = .comment)) = true →
        contentOf (x :: xs) = contentOf xs := fun x xs hx => List.dropWhile_cons_of_pos hx
    rw [condense]
    cases hm : isGap m with
    | true =>
      have hd : (isAsciiBlank m.char || decide (m.layer = .comment)) = true := by
        simpa using h m List.mem_cons_self hm
      rw [if_pos rfl, hdrop m ms hd]
      cases g with
      | true => exact ih hms true
      | false => exact (hdrop gapMark _ rfl).trans (ih hms true)
    | false =>
      rw [if_neg (by simp)]
      cases hd : isAsciiBlank m.char || decide (m.layer = .comment) with
      | true => rw [hdrop m _ hd, hdrop m _ hd, ih hms]
      | false =>
        have hstop : ∀ xs, contentOf (m :: xs) = m :: xs := fun xs =>
          List.dropWhile_cons_of_neg (by simp [hd])
        rw [hstop, hstop, condense, hm]
        rfl

namespace State

/-- In front of a content the scan is in code or in a comment, or behind a slash that opens one. -/
def Precedes (s : State) (t : Text) : Prop :=
  s.mode = .code ∨ s.mode = .lineComment ∨ s.mode = .blockComment ∨ s.mode = .blockStar
    ∨ s.mode = .slash ∧ (t.head? = some '/' ∨ t.head? = some '*')

/-- A blank and a character of a comment stand in front of the content. -/
theorem Precedes.step {s : State} {c : Char} {t : Text} (h : s.Precedes (c :: t))
    (hc : isAsciiBlank c = true ∨ s.layer c t.head? = .comment) : (s.step c).Precedes t := by
  obtain ⟨mode, stack⟩ := s
  rcases h with rfl | rfl | rfl | rfl | ⟨rfl, h⟩
  · rcases hc with hb | hl
    · have hstep : State.step ⟨.code, stack⟩ c = ⟨.code, stack⟩ := by
        simp only [isAsciiBlank, Bool.or_eq_true, decide_eq_true_eq] at hb
        rcases hb with (((rfl | rfl) | rfl) | rfl) | rfl <;> rfl
      exact .inl (by rw [hstep])
    · have hopens : c = '/' ∧ (t.head? = some '/' ∨ t.head? = some '*') := by
        simp only [layer, layerInCode] at hl
        split_ifs at hl with hslash
        simpa using hslash
      refine .inr (.inr (.inr (.inr ⟨?_, hopens.2⟩)))
      rw [hopens.1]
      rfl
  · by_cases hn : c = '\n'
    · exact .inl (by simp [State.step, hn])
    · exact .inr (.inl (by simp [State.step, hn]))
  · simp only [Precedes, State.step]
    split_ifs <;> simp
  · simp only [Precedes, State.step]
    split_ifs <;> simp
  · rcases h with h | h <;> obtain rfl := Option.some.inj h
    · exact .inr (.inl rfl)
    · exact .inr (.inr (.inl rfl))

/-- What is neither a blank in front of the content nor in a comment stands in code. -/
theorem Precedes.mode_eq {s : State} {c : Char} {t : Text} (h : s.Precedes (c :: t))
    (hb : isAsciiBlank c = false) (hl : s.layer c t.head? ≠ .comment) : s.mode = .code := by
  obtain ⟨mode, stack⟩ := s
  rcases h with h | rfl | rfl | rfl | ⟨rfl, h⟩
  · exact h
  · refine absurd ?_ hl
    have hn : c ≠ '\n' := by
      rintro rfl
      cases hb
    simp [layer, hn]
  · exact absurd rfl hl
  · exact absurd rfl hl
  · rcases h with h | h <;> obtain rfl := Option.some.inj h <;> exact absurd rfl hl

end State

/-- **The content of a scan** begins in code, in front of a character that is neither an ASCII blank
nor the start of a comment. -/
theorem contentOf_marksFrom {s : State} {t : Text} (hs : s.Precedes t) :
    contentOf (marksFrom s t) = [] ∨ ∃ a c z, t = a ++ c :: z ∧ (s.run a).mode = .code
      ∧ isAsciiBlank c = false ∧ (s.run a).layer c z.head? ≠ .comment
      ∧ contentOf (marksFrom s t) = marksFrom (s.run a) (c :: z) := by
  induction t generalizing s with
  | nil => exact .inl rfl
  | cons c t ih =>
    by_cases hskip : isAsciiBlank c = true ∨ s.layer c t.head? = .comment
    · have hrest : contentOf (marksFrom s (c :: t)) = contentOf (marksFrom (s.step c) t) :=
        List.dropWhile_cons_of_pos (by simpa using hskip)
      rw [hrest]
      rcases ih (hs.step hskip) with h | ⟨a, d, z, rfl, hmode, hblank, hlayer, hcontent⟩
      · exact .inl h
      · exact .inr ⟨c :: a, d, z, rfl, hmode, hblank, hlayer, hcontent⟩
    · obtain ⟨hblank, hlayer⟩ := not_or.1 hskip
      rw [Bool.not_eq_true] at hblank
      exact .inr ⟨[], c, t, rfl, hs.mode_eq hblank hlayer, hblank, hlayer,
        List.dropWhile_cons_of_neg (by simp [hblank, hlayer])⟩

/-- **A quoted string** up to the next quote of its kind, which may stand behind a backslash: all of
it is literal. -/
theorem exists_quoted {q : Char} (hq : q = '\'' ∨ q = '"') {s : State} {z : Text}
    (hs : s.mode = .quoted q ∨ s.mode = .quotedEscape q) (hc : s.closesQuotes z = true)
    (he : (s.run z).isInLiteral = false) :
    ∃ k r ms s', z = k ++ q :: r ∧ q ∉ k ∧ marksFrom s z = ms ++ marksFrom s' r
      ∧ chars ms = k ++ [q] ∧ (∀ m ∈ ms, m.isLiteral = true) ∧ s'.isClear = true := by
  have hqn : q ≠ '\n' ∧ q ≠ '\\' := by rcases hq with rfl | rfl <;> decide
  induction z generalizing s with
  | nil =>
    obtain ⟨mode, stack⟩ := s
    rcases hs with rfl | rfl <;> cases he
  | cons c z ih =>
    rw [State.closesQuotes, Bool.and_eq_true] at hc
    have hlit : s.layer c z.head? = .literal := by
      obtain ⟨mode, stack⟩ := s
      rcases hs with rfl | rfl
      · have hn : c ≠ '\n' := by simpa [State.isQuoted] using hc.1
        simp [State.layer, hn]
      · rfl
    by_cases hcq : c = q
    · subst hcq
      refine ⟨[], z, [⟨c, s.layer c z.head?, s.depth⟩], s.step c, rfl, List.not_mem_nil, rfl, rfl,
        by simp [Mark.isLiteral, hlit], ?_⟩
      obtain ⟨mode, stack⟩ := s
      rcases hs with rfl | rfl <;> simp [State.step, State.isClear, hqn.2]
    · have hstep : (s.step c).mode = .quoted q ∨ (s.step c).mode = .quotedEscape q := by
        obtain ⟨mode, stack⟩ := s
        rcases hs with rfl | rfl
        · have hn : c ≠ '\n' := by simpa [State.isQuoted] using hc.1
          simp only [State.step, hn, hcq, decide_false, Bool.or_false, Bool.false_eq_true, if_false]
          split_ifs <;> simp
        · exact .inl rfl
      obtain ⟨k, r, ms, s', rfl, hk, hms, hch, hl, hclear⟩ := ih hstep hc.2 he
      refine ⟨c :: k, r, ⟨c, s.layer c (k ++ q :: r).head?, s.depth⟩ :: ms, s', rfl,
        by simp [Ne.symm hcq, hk], ?_, ?_, ?_, hclear⟩
      · rw [List.cons_append, ← hms]
        rfl
      · rw [chars_cons, hch]
        rfl
      · rintro m (_ | ⟨_, hm⟩)
        · simpa [Mark.isLiteral] using hlit
        · exact hl m hm

theorem condense_literals {a : List Mark} (ha : ∀ m ∈ a, m.isLiteral = true) (b : List Mark) :
    condense false (a ++ b) = a ++ condense false b := by
  induction a with
  | nil => rfl
  | cons m a ih =>
    have hm : isGap m = false := by simp [isGap, ha m List.mem_cons_self]
    rw [List.cons_append, condense, hm, ih fun x hx => ha x (List.mem_cons_of_mem m hx)]
    rfl

/-- A quoted key. -/
theorem keyOf_quoted {q : Char} (hq : q = '\'' ∨ q = '"') {k : Text} (hk : q ∉ k) (r : Text) :
    keyOf (q :: (k ++ q :: r)) = (some k, kindBehind (Token.blanks r).head?) := by
  have hquote : (decide (q = '\'') || decide (q = '"')) = true := by simpa using hq
  have hno : startsWith (q :: (k ++ q :: r)) "..." = false
      ∧ modifiedMethod? (q :: (k ++ q :: r)) = none
      ∧ Token.name? (q :: (k ++ q :: r)) = none := by
    rcases hq with rfl | rfl <;> exact ⟨rfl, rfl, rfl⟩
  rw [keyOf_eq, hno.1, hno.2.1, hno.2.2, Token.quoted?_eq_some hquote hk]
  rfl

/-- A text whose fields can be read whatever the length of its gaps. -/
structure IsReadable (t : Text) : Prop where
  blanks : HasPlainBlanks (marks t)
  quotes : closesQuotes t = true
  ended : (endState t).isInLiteral = false

/-- What is read from a content that begins in code. -/
theorem keyOf_condense_marksFrom {s : State} {c : Char} {z : Text} (hs : s.mode = .code)
    (hb : isAsciiBlank c = false) (hl : s.layer c z.head? ≠ .comment)
    (hp : HasPlainBlanks (marksFrom s (c :: z))) (hq : s.closesQuotes (c :: z) = true)
    (he : (s.run (c :: z)).isInLiteral = false) :
    keyOf (chars (condense false (marksFrom s (c :: z)))) = keyOf (c :: z) := by
  have hgap : isGap ⟨c, s.layer c z.head?, s.depth⟩ = false := by
    by_contra hg
    simp only [isGap, Mark.isLiteral, Bool.not_eq_false, Bool.and_eq_true, Bool.not_eq_true',
      decide_eq_false_iff_not] at hg
    have hcode : s.layer c z.head? = .code := by
      revert hl hg
      cases s.layer c z.head? <;> simp
    have := hp _ List.mem_cons_self hcode hg.2
    rw [hb] at this
    cases this
  have hhead : chars (condense false (marksFrom s (c :: z)))
      = c :: chars (condense false (marksFrom (s.step c) z)) := by
    rw [marksFrom, condense, hgap]
    rfl
  by_cases hc : c = '\'' ∨ c = '"'
  · -- a quoted key is a literal, and what stands behind it is read through a view
    have hstep : (s.step c).mode = .quoted c := by
      obtain ⟨mode, stack⟩ := s
      obtain rfl : mode = .code := hs
      rcases hc with rfl | rfl <;> rfl
    obtain ⟨k, r, ms, s', rfl, hk, hms, hch, hlit, hclear⟩ :=
      exists_quoted hc (.inl hstep) (Bool.and_eq_true _ _ ▸ hq).2 he
    have hr : IsLegible (marksFrom s' r) := by
      refine isLegible_marksFrom hclear fun m hm => hp m (List.mem_cons_of_mem _ ?_)
      rw [hms]
      exact List.mem_append_right ms hm
    have hview : headView false (chars (condense false (marksFrom s' r)))
        = headView false (chars (marksFrom s' r)) := headView_condense hr fun hf => hf
    have hnext : (Token.blanks (chars (condense false (marksFrom s' r)))).head?
        = (Token.blanks r).head? := by
      rw [← head?_blanks_headView _ false, hview, chars_marksFrom, head?_blanks_headView]
    rw [hhead, hms, condense_literals hlit, chars_append, hch, List.append_assoc,
      List.singleton_append, keyOf_quoted hc hk, keyOf_quoted hc hk, hnext]
  · have hn : ∀ t : Text, ∀ d ∈ (c :: t).head?, d ≠ '\'' ∧ d ≠ '"' := by
      intro t d hd
      obtain rfl := Option.some.inj hd
      exact not_or.1 hc
    have hclear : s.isClear = true := by rw [State.isClear, hs]
    have hview : headView false (chars (condense false (marksFrom s (c :: z))))
        = headView false (chars (marksFrom s (c :: z))) :=
      headView_condense (isLegible_marksFrom hclear hp) fun hf => hf
    rw [chars_marksFrom, hhead] at hview
    rw [hhead, ← keyOf_headView (hn _), hview, keyOf_headView (hn _)]

/-- **The key and the kind of a field** do not depend on the length of its gaps. -/
theorem keyOf_condense {p : Text} (h : IsReadable p) (g : Bool) :
    keyOf (chars (contentOf (condense g (marks p)))) = keyOf (chars (contentOf (marks p))) := by
  have hgaps : ∀ m ∈ marks p, isGap m = true →
      isAsciiBlank m.char = true ∨ m.layer = .comment := by
    intro m hm hg
    simp only [isGap, Mark.isLiteral, Bool.and_eq_true, Bool.not_eq_true',
      decide_eq_false_iff_not] at hg
    cases hl : m.layer with
    | code => exact .inl (h.blanks m hm hl hg.2)
    | comment => exact .inr rfl
    | literal => exact absurd hl hg.1
  rw [contentOf_condense hgaps]
  rcases contentOf_marksFrom (s := .start) (t := p) (.inl rfl) with
    hn | ⟨a, c, z, rfl, hmode, hblank, hlayer, hcontent⟩
  · rw [marks, hn]
    rfl
  · have hsuf : marksFrom (endState a) (c :: z) <:+ marks (a ++ c :: z) :=
      hcontent ▸ List.dropWhile_suffix _
    have hq := h.quotes
    rw [closesQuotes_append, Bool.and_eq_true] at hq
    have he := h.ended
    rw [endState_append] at he
    rw [marks, hcontent, chars_marksFrom]
    exact keyOf_condense_marksFrom hmode hblank hlayer (fun m hm => h.blanks m (hsuf.subset hm))
      hq.2 he

/-! ### Cores -/

/-- The core of the field that condensed marks hold, if they are no gap. -/
def condensedCore (ms : List Mark) : List (Option Text × FieldKind × List Mark) :=
  if solid ms = [] then []
  else [((keyOf (chars (contentOf ms))).1, (keyOf (chars (contentOf ms))).2, solid ms)]

theorem coresOf_eq (ms : List Mark) : coresOf ms = if isBlankText (chars ms) then [] else
    [((keyOf (chars (contentOf ms))).1, (keyOf (chars (contentOf ms))).2,
      solid (marks (trim (chars ms))))] := by
  rw [coresOf, gistsOf, fieldsOf]
  split
  · rfl
  · cases contentOf ms with
    | nil => rfl
    | cons m ms => rfl

section Readable

variable {p : Text} (h : IsReadable p)
include h

/-- The solid marks of a piece are those of its trimmed text. -/
theorem IsReadable.solid_trim : solid (marks (trim p)) = solid (marks p) := by
  obtain ⟨b, b', hp, hb, hb'⟩ := exists_eq_blanks_trim_blanks p
  have hq := h.quotes
  have he := h.ended
  rw [hp, closesQuotes_append, endState_blanks_append hb, Bool.and_eq_true] at hq
  rw [hp, endState_append, endState_blanks_append hb] at he
  have hl := State.not_isInLiteral_of_run (isProper_endState (trim p)) hb' hq.2 he
  have hmarks := marks_of_blanks hb hb' (p := trim p)
  rw [← hp] at hmarks
  have hfront : ∀ m ∈ codeMarks 0 b, isGap m = true := by
    intro m hm
    obtain ⟨c, hc, rfl⟩ := List.mem_map.1 hm
    simp [isGap, Mark.isLiteral, hb c hc]
  rw [hmarks, solid_append, solid_append, solid_of_gaps hfront, List.nil_append,
    solid_of_gaps (isGap_of_blanks hl hb'), List.append_nil]

/-- **The core of a piece** is read off its condensed marks. -/
theorem IsReadable.coresOf_eq (g : Bool) :
    coresOf (marks p) = condensedCore (condense g (marks p)) := by
  have hblank : isBlankText p = true ↔ solid (marks p) = [] := by
    rw [isBlankText, List.all_eq_true]
    constructor
    · intro hb
      exact solid_of_gaps (isGap_of_blanks rfl hb)
    · intro hs c hc
      rw [← chars_marks p] at hc
      obtain ⟨m, hm, rfl⟩ := List.mem_map.1 hc
      have hg := List.filter_eq_nil_iff.1 hs m hm
      simp only [Bool.not_eq_true', Bool.not_eq_false, isGap, Bool.and_eq_true] at hg
      exact hg.2
  rw [Script.coresOf_eq, condensedCore, solid_condense, keyOf_condense h, chars_marks, h.solid_trim]
  simp only [hblank]

end Readable

theorem mem_condense {m : Mark} {g : Bool} {ms : List Mark} (h : m ∈ condense g ms) :
    m = gapMark ∨ m ∈ ms := by
  induction ms generalizing g with
  | nil => cases h
  | cons x ms ih =>
    have hx : ∀ g, m ∈ condense g ms → m = gapMark ∨ m ∈ x :: ms := fun g hm =>
      (ih hm).imp id (List.mem_cons_of_mem x)
    rw [condense] at h
    split_ifs at h
    · exact hx _ h
    · rcases List.mem_cons.1 h with h | h
      · exact .inl h
      · exact hx _ h
    · rcases List.mem_cons.1 h with rfl | h
      · exact .inr List.mem_cons_self
      · exact hx _ h

theorem condense_concat {m : Mark} (hm : isGap m = false) (g : Bool) (a : List Mark) :
    condense g (a ++ [m]) = condense g a ++ [m] := by
  induction a generalizing g with
  | nil => simp [condense, hm]
  | cons x a ih =>
    rw [List.cons_append, condense, condense, ih, ih]
    split_ifs <;> rfl

section Comma

variable {p b : Text} (hp : IsCommaFree p) (htop : (endState p).IsTopLevelAt ',')

include htop in
theorem IsReadable.of_comma (h : IsReadable (p ++ ',' :: b)) : IsReadable p ∧ IsReadable b := by
  obtain ⟨hb, hq, he⟩ := h
  rw [closesQuotes_comma htop, Bool.and_eq_true] at hq
  rw [endState_comma htop] at he
  refine ⟨⟨fun m hm => hb m ((mem_marks_comma htop b).2 (.inl hm)), hq.1, ?_⟩,
    ⟨fun m hm => hb m ((mem_marks_comma htop b).2 (.inr (.inr hm))), hq.2, he⟩⟩
  rcases State.eq_of_isTopLevelAt (by decide) htop with hs | hs <;> rw [hs] <;> rfl

include hp in
/-- Condensing puts no comma between fields. -/
theorem IsCommaFree.condense (g : Bool) : ∀ m ∈ condense g (marks p), isComma m = false := by
  intro m hm
  rcases mem_condense hm with rfl | hm
  · rfl
  · exact hp m hm

end Comma

/-- **The fields of a body** are read off its condensed marks. -/
theorem cores_eq_condense {t : Text} (h : IsReadable t) (g : Bool) : cores t
    = (commaPieces (condense g (marks t))).flatMap fun p => condensedCore p.1 := by
  induction t using comma_induction generalizing g with
  | last p hp =>
    rw [cores_last hp, commaPieces_last (hp.condense g), List.flatMap_singleton, h.coresOf_eq g]
  | comma p b hp htop ih =>
    obtain ⟨hread, hrest⟩ := h.of_comma htop
    rw [cores_comma hp htop, hread.coresOf_eq g, ih hrest false, marks_comma htop, condense_append,
      condense_concat rfl, List.append_assoc, List.singleton_append,
      commaPieces_comma (hp.condense g) rfl, List.flatMap_cons]
    rfl

/-- **Bodies that are condensed alike** hold the same fields. -/
theorem cores_congr {t u : Text} (ht : IsReadable t) (hu : IsReadable u) {g : Bool}
    (h : condense g (marks t) = condense g (marks u)) : cores t = cores u := by
  rw [cores_eq_condense ht g, h, cores_eq_condense hu g]

theorem contentOf_append_newline (p : Text) : chars (contentOf (marks (p ++ ['\n'])))
    = if contentOf (marks p) = [] then [] else chars (contentOf (marks p)) ++ ['\n'] := by
  obtain ⟨x, hx, hm⟩ := marks_append_newline_eq p
  have hdrop : contentOf [x] = [] := List.dropWhile_cons_of_pos (by rw [hx]; rfl)
  rw [hm, contentOf, List.dropWhile_append, ← contentOf, ← contentOf, hdrop]
  simp only [List.isEmpty_iff]
  split
  · rfl
  · rw [chars_append, chars_cons, hx]
    rfl

/-- **A line feed at the end of a body** does not matter. -/
theorem cores_append_newline (t : Text) : cores (t ++ ['\n']) = cores t := by
  induction t using comma_induction with
  | last p hp =>
    have hfree : IsCommaFree (p ++ ['\n']) := by
      obtain ⟨x, hx, hmarks⟩ := marks_append_newline_eq p
      intro m hm
      rw [hmarks, List.mem_append, List.mem_singleton] at hm
      rcases hm with hm | rfl
      · exact hp m hm
      · rw [isComma, hx]
        rfl
    have hblank : isBlankText (p ++ ['\n']) = isBlankText p := by
      rw [isBlankText, isBlankText, List.all_append]
      exact Bool.and_true _
    have hkey : keyOf (chars (contentOf (marks (p ++ ['\n']))))
        = keyOf (chars (contentOf (marks p))) := by
      rw [contentOf_append_newline]
      split
      · rename_i hn
        rw [hn]
        rfl
      · exact keyOf_append_newline _
    rw [cores_last hfree, cores_last hp, coresOf_eq, coresOf_eq, hkey, chars_marks, chars_marks,
      hblank, trim_append_newline]
  | comma p b hp htop ih =>
    rw [List.append_assoc, List.cons_append, cores_comma hp htop, cores_comma hp htop, ih]

end ElementModules.Script
