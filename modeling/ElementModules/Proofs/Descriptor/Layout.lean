import ElementModules.Proofs.Descriptor.Converting

/-!
# The layout of an indented body

Each line between the blank ends of a body is written as one line (`BodyLine.relaid`). The scan
comes to the end of the written line in the state in which it came to the end of the line before, so
the written lines begin and end inside of literals where the lines did (`Scanned.relaid`), and they
are what the indented body is cut into (`trimLines_linesOf_indentBody`). Their common indentation is
two spaces. So indenting once more takes two spaces away from each and puts two in front
(`indentBody_indentBody`).

That no blank line is left at the end needs the scan as well: a line that is left as it is may hold
blanks alone, but then the literal in which it begins is still open behind it.

## Main results

* `linesOf_unlined`: the lines of a scan are found again.
* `isRelaid_relaid`: what is written for a line.
* `indentBody_layout`: the layout of an indented body.
-/

namespace ElementModules.Descriptor

open Text Script

/-! ### Indentation of a text -/

/-- The characters that indent a line. -/
def isIndent (c : Char) : Bool := c = ' ' || c = '\t'

/-- The number of spaces and tabs in front of a text. -/
def indentOf (t : Text) : Nat := (t.takeWhile isIndent).length

theorem indentOf_append {w : Text} (hw : ∀ c ∈ w, c = ' ' ∨ c = '\t') (t : Text) :
    indentOf (w ++ t) = w.length + indentOf t := by
  rw [indentOf, List.takeWhile_append_of_pos (by simpa [isIndent] using hw), List.length_append]
  rfl

theorem isBlank_of_indent {w : Text} (hw : ∀ c ∈ w, c = ' ' ∨ c = '\t') :
    ∀ c ∈ w, isBlank c = true :=
  fun c hc => isBlank_of_isAsciiBlank (isAsciiBlank_of_indent hw c hc)

theorem isBlankText_append {w : Text} (hw : ∀ c ∈ w, isBlank c = true) (t : Text) :
    isBlankText (w ++ t) = isBlankText t := by
  rw [isBlankText, List.all_append, List.all_eq_true.2 hw, Bool.true_and, isBlankText]

theorem isBlankText_trimEnd (t : Text) : isBlankText (trimEnd t) = isBlankText t := by
  obtain ⟨b, ht, hb⟩ := exists_eq_trimEnd_blanks t
  rw [isBlankText, isBlankText]
  conv_rhs => rw [ht, List.all_append, List.all_eq_true.2 hb, Bool.and_true]

/-- Blanks at the end are no indentation, unless all is blank. -/
theorem indentOf_trimEnd {t : Text} (h : isBlankText t = false) :
    indentOf (trimEnd t) = indentOf t := by
  rw [isBlankText, List.all_eq_false] at h
  obtain ⟨x, hx, hblank⟩ := h
  rw [Bool.not_eq_true] at hblank
  have hsolid : isIndent x = false := by
    by_contra hc
    rw [Bool.not_eq_false, isIndent, Bool.or_eq_true, decide_eq_true_eq, decide_eq_true_eq] at hc
    rcases hc with rfl | rfl <;> cases hblank
  obtain ⟨a, r, rfl⟩ := List.append_of_mem hx
  obtain ⟨r', hr⟩ := exists_trimEnd_append hblank a r
  rw [hr, indentOf, indentOf, takeWhile_append_cons hsolid, takeWhile_append_cons hsolid]

/-! ### Lines -/

namespace BodyLine

variable {l : BodyLine} {common : Nat}

/-- Whether a line is indented: it is neither blank nor left as it is. -/
def IsPlain (l : BodyLine) : Prop := l.verbatim = false ∧ l.isBlank = false

theorem verbatim_of_isBlank (h : l.isBlank = true) : l.verbatim = false := by
  rw [isBlank, Bool.and_eq_true, Bool.not_eq_true'] at h
  exact h.1

theorem IsPlain.isBlankText (h : l.IsPlain) : isBlankText l.text = false := by
  have hb := h.2
  rwa [isBlank, h.1, Bool.not_false, Bool.true_and] at hb

/-- The line that is written for a line when `common` characters of indentation are taken away. -/
def relaid (common : Nat) (l : BodyLine) : BodyLine := { l with text := (l.render common).dropLast }

theorem render_eq (l : BodyLine) (common : Nat) :
    l.render common = (l.relaid common).text ++ ['\n'] := by
  have hlast : ∃ a, l.render common = a ++ ['\n'] := by
    rw [render]
    split_ifs
    · exact ⟨_, rfl⟩
    · exact ⟨[], rfl⟩
    · exact ⟨' ' :: ' ' :: l.text.drop common, rfl⟩
    · exact ⟨' ' :: ' ' :: trimEnd (l.text.drop common), rfl⟩
  obtain ⟨a, ha⟩ := hlast
  rw [relaid, ha, List.dropLast_concat]

theorem relaid_of_verbatim (h : l.verbatim = true) : l.relaid common = l := by
  rw [relaid, render, if_pos h, List.dropLast_concat]

theorem relaid_of_isBlank (h : l.isBlank = true) : l.relaid common = { l with text := [] } := by
  simp [relaid, render, verbatim_of_isBlank h, h]

/-- What of a plain line stands behind `n` characters; blanks at the end go unless a literal is open
there. -/
def unindented (n : Nat) (l : BodyLine) : Text :=
  if l.openEnd then l.text.drop n else trimEnd (l.text.drop n)

theorem drop_unindented (l : BodyLine) (m n : Nat) :
    (l.unindented m).drop n = l.unindented (m + n) := by
  rw [unindented, unindented, ← List.drop_drop]
  split
  · rfl
  · exact drop_trimEnd n _

theorem relaid_of_isPlain (h : l.IsPlain) :
    l.relaid common = { l with text := [' ', ' '] ++ l.unindented common } := by
  rw [relaid, render, h.1, h.2, if_neg Bool.false_ne_true, if_neg Bool.false_ne_true,
    List.dropLast_concat]
  rfl

theorem drop_relaid (h : l.IsPlain) : (l.relaid common).text.drop 2 = l.unindented common := by
  rw [relaid_of_isPlain h]
  rfl

/-- Each line is copied, emptied or indented. -/
theorem isPlain_or (l : BodyLine) : l.verbatim = true ∨ l.isBlank = true ∨ l.IsPlain := by
  cases hv : l.verbatim
  · cases hb : l.isBlank
    · exact .inr (.inr ⟨hv, hb⟩)
    · exact .inr (.inl rfl)
  · exact .inl rfl

/-- What is left of a plain line when indentation is taken away. -/
theorem unindented_of_isPlain (h : l.IsPlain) (hc : common ≤ l.indent) :
    isBlankText (l.unindented common) = false
      ∧ l.indent = common + indentOf (l.unindented common) := by
  obtain ⟨w, htext, hw⟩ := exists_indent hc
  have hlength : l.indent ≤ l.text.length := (List.takeWhile_prefix _).length_le
  have hwidth : w.length = common := by
    have := congrArg List.length htext
    rw [List.length_append, List.length_drop] at this
    omega
  have hsolid := h.isBlankText
  rw [htext, isBlankText_append (isBlank_of_indent hw)] at hsolid
  have hindent : l.indent = common + indentOf (l.text.drop common) := by
    show indentOf l.text = _
    conv_lhs => rw [htext]
    rw [indentOf_append hw, hwidth]
  rw [unindented]
  split
  · exact ⟨hsolid, hindent⟩
  · rw [isBlankText_trimEnd, indentOf_trimEnd hsolid]
    exact ⟨hsolid, hindent⟩

theorem eq_of_mem_twoSpaces : ∀ c ∈ [' ', ' '], c = ' ' ∨ c = '\t' := by simp

theorem relaid_isPlain (h : l.IsPlain) (hc : common ≤ l.indent) : (l.relaid common).IsPlain
    ∧ (l.relaid common).indent = 2 + indentOf (l.unindented common) := by
  obtain ⟨hsolid, -⟩ := unindented_of_isPlain h hc
  rw [relaid_of_isPlain h]
  refine ⟨⟨h.1, ?_⟩, indentOf_append eq_of_mem_twoSpaces _⟩
  rw [isBlank, Bool.and_eq_false_iff]
  refine .inr ?_
  rwa [isBlankText_append (isBlank_of_indent eq_of_mem_twoSpaces)]

/-- A written line is written as it is. -/
theorem relaid_relaid (h : l.IsPlain → common ≤ l.indent) :
    (l.relaid common).relaid 2 = l.relaid common := by
  rcases l.isPlain_or with hv | hb | hp
  · rw [relaid_of_verbatim hv, relaid_of_verbatim hv]
  · rw [relaid_of_isBlank hb, relaid_of_isBlank]
    rw [isBlank, verbatim_of_isBlank hb]
    rfl
  · have hplain := (relaid_isPlain hp (h hp)).1
    have htwice : (l.relaid common).unindented 2 = l.unindented common := by
      show (if l.openEnd then (l.relaid common).text.drop 2
        else trimEnd ((l.relaid common).text.drop 2)) = _
      rw [drop_relaid hp, unindented]
      split
      · rfl
      · exact trimEnd_trimEnd _
    rw [relaid_of_isPlain hplain, htwice, relaid_of_isPlain hp]

end BodyLine

/-- A line `l'` that is written for a line `l`. -/
structure IsRelaid (common : Nat) (l l' : BodyLine) : Prop where
  /-- It begins and ends inside a literal if the line does. -/
  flags : l'.verbatim = l.verbatim ∧ l'.openEnd = l.openEnd
  /-- A line that begins inside a literal is copied. -/
  copied : l.verbatim = true → l'.text = l.text
  /-- Of a blank line nothing is left. -/
  emptied : l.isBlank = true → l'.text = []
  /-- The others stay plain, and their indentation changes by the same amount. -/
  indented : l.IsPlain → l'.IsPlain ∧ l'.indent + common = l.indent + 2
  /-- Behind the indentation only blanks at the end go, unless a literal is open there. -/
  rest : l.IsPlain → l'.text.drop l'.indent = l.unindented l.indent

theorem isRelaid_relaid {l : BodyLine} {common : Nat} (hc : l.IsPlain → common ≤ l.indent) :
    IsRelaid common l (l.relaid common) where
  flags := ⟨rfl, rfl⟩
  copied h := by rw [BodyLine.relaid_of_verbatim h]
  emptied h := by rw [BodyLine.relaid_of_isBlank h]
  indented h := by
    obtain ⟨hplain, hindent⟩ := BodyLine.relaid_isPlain h (hc h)
    have := (BodyLine.unindented_of_isPlain h (hc h)).2
    exact ⟨hplain, by omega⟩
  rest h := by
    obtain ⟨-, hindent⟩ := BodyLine.relaid_isPlain h (hc h)
    rw [hindent, ← List.drop_drop, BodyLine.drop_relaid h, BodyLine.drop_unindented,
      ← (BodyLine.unindented_of_isPlain h (hc h)).2]

theorem IsRelaid.isBlank_eq {l l' : BodyLine} {common : Nat} (h : IsRelaid common l l') :
    l'.isBlank = l.isBlank := by
  have hkept : ∀ l : BodyLine, l.verbatim = true → l.isBlank = false := fun l hv => by
    rw [BodyLine.isBlank, hv]
    rfl
  rcases l.isPlain_or with hv | hb | hp
  · rw [hkept l hv, hkept l' (h.flags.1.trans hv)]
  · rw [BodyLine.isBlank, h.flags.1, BodyLine.verbatim_of_isBlank hb, h.emptied hb, hb]
    rfl
  · rw [(h.indented hp).1.2, hp.2]

theorem IsRelaid.isPlain_iff {l l' : BodyLine} {common : Nat} (h : IsRelaid common l l') :
    l'.IsPlain ↔ l.IsPlain := by
  rw [BodyLine.IsPlain, BodyLine.IsPlain, h.flags.1, h.isBlank_eq]

/-! ### Scanned lines -/

theorem newline_not_mem_relaid {l : BodyLine} (h : '\n' ∉ l.text) (common : Nat) :
    '\n' ∉ (l.relaid common).text := by
  rcases l.isPlain_or with hv | hb | hp
  · rwa [BodyLine.relaid_of_verbatim hv]
  · rw [BodyLine.relaid_of_isBlank hb]
    exact List.not_mem_nil
  · have hdrop : '\n' ∉ l.text.drop common := fun hm => h (List.mem_of_mem_drop hm)
    have hrest : '\n' ∉ l.unindented common := by
      rw [BodyLine.unindented]
      split
      · exact hdrop
      · exact fun hm => hdrop ((prefix_trimEnd _).subset hm)
    rw [BodyLine.relaid_of_isPlain hp]
    simpa using hrest

/-- **Written lines** begin and end inside of literals where the lines did. -/
theorem Scanned.relaid {s s' : State} {ls : List BodyLine} {common : Nat} (h : Scanned s ls s')
    (hp : s.IsProper) (hs : IsLineStart s) (hc : ∀ l ∈ ls, l.IsPlain → common ≤ l.indent) :
    Scanned s (ls.map (BodyLine.relaid common)) s' := by
  induction ls generalizing s with
  | nil =>
    cases h
    exact .nil _
  | cons l ls ih =>
    obtain ⟨a, ha, hl⟩ := h.line hp hs fun hv hb => hc l List.mem_cons_self ⟨hv, hb⟩
    obtain rfl : a = (l.relaid common).text := by
      rw [BodyLine.render_eq] at ha
      exact (List.append_cancel_right ha).symm
    cases h with
    | cons one verbatim openEnd closed rest =>
      have hrun : (s.run (l.relaid common).text).step '\n' = (s.run l.text).step '\n' := by
        have := hl.run_eq
        rwa [State.run_append, State.run_append] at this
      have hquoted : (s.run (l.relaid common).text).isQuoted = false := by
        have := hl.quotes
        rw [State.closesQuotes_append, Bool.and_eq_true] at this
        simpa [State.closesQuotes] using this.2
      refine .cons (newline_not_mem_relaid one common) verbatim ?_ hquoted ?_
      · rw [hrun]
        exact openEnd
      · rw [hrun]
        exact ih rest ((hp.run _).step _) (isLineStart_step _)
          fun x hx => hc x (List.mem_cons_of_mem l hx)

/-- **The lines of a scan** are found again. -/
theorem linesOf_unlined {s s' : State} {ls : List BodyLine} (h : Scanned s ls s') :
    linesOf s.isInLiteral (marksFrom s (unlined ls)) = ls ++ [⟨[], s'.isInLiteral, false⟩] := by
  induction h with
  | nil s => rfl
  | @cons s s' l ls one verbatim openEnd closed rest ih =>
    have hsplit : unlined (l :: ls) = l.text ++ '\n' :: unlined ls := by
      rw [unlined, List.flatMap_cons, List.append_assoc]
      rfl
    rw [hsplit, linesOf_line _ s one, ih, ← verbatim, ← openEnd]
    rfl

/-- Outside of strings and templates the first line is plain if it is not blank. -/
theorem Scanned.isPlain_head? {s s' : State} {ls : List BodyLine} (h : Scanned s ls s')
    (hs : s.isInLiteral = false) (hhead : ∀ l ∈ ls.head?, l.isBlank = false) :
    ∀ l ∈ ls.head?, l.IsPlain := by
  intro l hl
  obtain ⟨ls, rfl⟩ := List.head?_eq_some_iff.1 hl
  cases h with
  | cons one verbatim openEnd closed rest => exact ⟨verbatim.trans hs, hhead l rfl⟩

/-- The last line is not blank, not even if it is left as it is: the literal would be open behind
it. -/
theorem Scanned.isBlankText_getLast? {s s' : State} {ls : List BodyLine} (h : Scanned s ls s')
    (hp : s.IsProper) (hs' : s'.isInLiteral = false)
    (hlast : ∀ l ∈ ls.getLast?, l.isBlank = false) :
    ∀ l ∈ ls.getLast?, isBlankText l.text = false := by
  intro l hl
  obtain ⟨init, rfl⟩ := List.getLast?_eq_some_iff.1 hl
  obtain ⟨m, hinit, hone⟩ := h.of_append
  have hm : m.IsProper := hinit.run_unlined ▸ hp.run _
  cases hone with
  | cons one verbatim openEnd closed rest =>
    cases rest
    by_contra hblank
    rw [Bool.not_eq_false] at hblank
    have hline : ∀ c ∈ l.text ++ ['\n'], isBlank c = true := by
      rw [isBlankText, List.all_eq_true] at hblank
      intro c hc
      rcases List.mem_append.1 hc with hc | hc
      · exact hblank c hc
      · rw [List.mem_singleton.1 hc]
        rfl
    have hcode := State.not_isInLiteral_of_run hm hline (closesQuotes_line one closed)
      (by rwa [State.run_append])
    have := hlast l hl
    rw [BodyLine.isBlank, verbatim, hcode, hblank] at this
    cases this

/-! ### Trimmed lines -/

/-- Blank lines at both ends are trimmed, and no more. -/
theorem trimLines_eq {a m b : List BodyLine} (ha : ∀ l ∈ a, l.isBlank = true)
    (hb : ∀ l ∈ b, l.isBlank = true) (hhead : ∀ l ∈ m.head?, l.isBlank = false)
    (hlast : ∀ l ∈ m.getLast?, l.isBlank = false) : trimLines (a ++ (m ++ b)) = m := by
  have hfront : (m ++ b).dropWhile BodyLine.isBlank = m ++ b ∨ m = [] := by
    cases m with
    | nil => exact .inr rfl
    | cons l m => exact .inl (List.dropWhile_cons_of_neg (by simp [hhead l rfl]))
  rw [trimLines, List.dropWhile_append_of_pos ha]
  rcases hfront with h | rfl
  · have hback : m.reverse.dropWhile BodyLine.isBlank = m.reverse := by
      cases hr : m.reverse with
      | nil => rfl
      | cons l r =>
        have hl := hlast l (by rw [← List.head?_reverse, hr]; rfl)
        exact List.dropWhile_cons_of_neg (by simp [hl])
    rw [h, List.reverse_append, List.dropWhile_append_of_pos (by simpa using hb), hback,
      List.reverse_reverse]
  · rw [List.nil_append, List.dropWhile_eq_nil_iff.2 hb]
    rfl

theorem isBlank_getLast?_trimLines (ls : List BodyLine) :
    ∀ l ∈ (trimLines ls).getLast?, l.isBlank = false := by
  intro l hl
  obtain ⟨hne, rfl⟩ := List.mem_getLast?_eq_getLast hl
  exact Bool.eq_false_iff.2 (List.rdropWhile_last_not BodyLine.isBlank _ hne)

theorem isBlank_head?_trimLines (ls : List BodyLine) :
    ∀ l ∈ (trimLines ls).head?, l.isBlank = false := by
  intro l hl
  have hpre : trimLines ls <+: ls.dropWhile BodyLine.isBlank := List.rdropWhile_prefix _ _
  obtain ⟨r, hr⟩ := hpre
  have := List.head?_dropWhile_not BodyLine.isBlank ls
  rw [← hr, List.head?_append, Option.mem_def.1 hl] at this
  simpa using this

theorem mem_plainIndents {ls : List BodyLine} {n : Nat} :
    n ∈ (ls.filter fun l => !l.verbatim && !l.isBlank).map BodyLine.indent
      ↔ ∃ l ∈ ls, l.IsPlain ∧ l.indent = n := by
  simp only [List.mem_map, List.mem_filter, Bool.and_eq_true, Bool.not_eq_true', BodyLine.IsPlain,
    and_assoc]

theorem commonIndent_eq {ls : List BodyLine} {n : Nat} (hle : ∀ l ∈ ls, l.IsPlain → n ≤ l.indent)
    (hn : ∃ l ∈ ls, l.IsPlain ∧ l.indent = n) : commonIndent ls = n := by
  have hmin : ((ls.filter fun l => !l.verbatim && !l.isBlank).map BodyLine.indent).min?
      = some n := by
    refine List.min?_eq_some_iff.2 ⟨mem_plainIndents.2 hn, fun k hk => ?_⟩
    obtain ⟨l, hl, hp, rfl⟩ := mem_plainIndents.1 hk
    exact hle l hl hp
  rw [commonIndent, hmin]
  rfl

/-- The common indentation is that of a line. -/
theorem exists_commonIndent {ls : List BodyLine} (h : ∃ l ∈ ls, l.IsPlain) :
    ∃ l ∈ ls, l.IsPlain ∧ l.indent = commonIndent ls := by
  obtain ⟨l, hl, hp⟩ := h
  rw [commonIndent]
  cases hmin : ((ls.filter fun l => !l.verbatim && !l.isBlank).map BodyLine.indent).min? with
  | none =>
    rw [List.min?_eq_none_iff] at hmin
    have hm := mem_plainIndents.2 ⟨l, hl, hp, rfl⟩
    rw [hmin] at hm
    cases hm
  | some n => exact mem_plainIndents.1 (List.min?_eq_some_iff.1 hmin).1

/-! ### Indented bodies -/

/-- The lines of an indented body. -/
def indentedLines (w : Text) : List BodyLine :=
  let ls := trimLines (linesOf false (marks w))
  ls.map (BodyLine.relaid (commonIndent ls))

theorem unlined_indentedLines (w : Text) : unlined (indentedLines w) = indentBody w := by
  rw [indentedLines, unlined, List.flatMap_map, indentBody]
  exact List.flatMap_congr fun l _ => (BodyLine.render_eq l _).symm

/-- A text `v` is laid out for a text `w`: the lines `mid` of `w` become the lines `written` of `v`,
and the indentation that they share becomes two. -/
structure IsLayout (w v : Text) (common : Nat) (front mid back written : List BodyLine) : Prop where
  /-- The lines of `w`, each with the literals that are open at its ends. -/
  scanned : Scanned .start (front ++ (mid ++ back)) .start
  unlined_eq : unlined (front ++ (mid ++ back)) = w ++ ['\n']
  /-- The lines of `v`. -/
  scanned_written : Scanned .start written .start
  unlined_written : unlined written = v
  /-- Blank lines at both ends go. -/
  isBlank : ∀ l ∈ front ++ back, l.isBlank = true
  /-- Each of the other lines becomes one line. -/
  relaid : List.Forall₂ (IsRelaid common) mid written
  /-- The smallest indentation is two. -/
  two_le : ∀ l ∈ written, l.IsPlain → 2 ≤ l.indent
  exists_two : written ≠ [] → ∃ l ∈ written, l.IsPlain ∧ l.indent = 2
  /-- Neither the first line nor the last holds blanks alone. -/
  head_solid : ∀ l ∈ written.head?, isBlankText l.text = false
  getLast_solid : ∀ l ∈ written.getLast?, isBlankText l.text = false

section Lines

variable {ls : List BodyLine}

theorem commonIndent_le_indent (ls : List BodyLine) :
    ∀ l ∈ ls, l.IsPlain → commonIndent ls ≤ l.indent :=
  fun _ hl hp => commonIndent_le hl hp.1 hp.2

theorem mem_map_relaid {l' : BodyLine} (h : l' ∈ ls.map (BodyLine.relaid (commonIndent ls))) :
    ∃ l ∈ ls, l.relaid (commonIndent ls) = l' ∧ IsRelaid (commonIndent ls) l l' := by
  obtain ⟨l, hl, rfl⟩ := List.mem_map.1 h
  exact ⟨l, hl, rfl, isRelaid_relaid (commonIndent_le_indent ls l hl)⟩

theorem forall₂_relaid (ls : List BodyLine) :
    List.Forall₂ (IsRelaid (commonIndent ls)) ls (ls.map (BodyLine.relaid (commonIndent ls))) := by
  rw [List.forall₂_map_right_iff, List.forall₂_same]
  exact fun l hl => isRelaid_relaid (commonIndent_le_indent ls l hl)

/-- Written lines are indented by two spaces at least. -/
theorem two_le_indent :
    ∀ l ∈ ls.map (BodyLine.relaid (commonIndent ls)), l.IsPlain → 2 ≤ l.indent := by
  intro l' hl' hp'
  obtain ⟨l, hl, -, hr⟩ := mem_map_relaid hl'
  have hp := hr.isPlain_iff.1 hp'
  have := (hr.indented hp).2
  have := commonIndent_le_indent ls l hl hp
  omega

/-- Some written line is indented by two spaces. -/
theorem exists_indent_eq_two (h : ∃ l ∈ ls, l.IsPlain) :
    ∃ l ∈ ls.map (BodyLine.relaid (commonIndent ls)), l.IsPlain ∧ l.indent = 2 := by
  obtain ⟨l, hl, hp, hindent⟩ := exists_commonIndent h
  have hr := isRelaid_relaid (commonIndent_le_indent ls l hl)
  have := (hr.indented hp).2
  exact ⟨_, List.mem_map_of_mem hl, hr.isPlain_iff.2 hp, by omega⟩

/-- What is not blank, is not blank when it is written. -/
theorem isBlank_map_relaid {o : Option BodyLine} (ho : ∀ l ∈ o, l ∈ ls)
    (h : ∀ l ∈ o, l.isBlank = false) :
    ∀ l ∈ o.map (BodyLine.relaid (commonIndent ls)), l.isBlank = false := by
  intro l' hl'
  obtain ⟨l, hl, rfl⟩ := Option.map_eq_some_iff.1 hl'
  rw [(isRelaid_relaid (commonIndent_le_indent ls l (ho l hl))).isBlank_eq]
  exact h l hl

end Lines

section Body

variable {w : Text} (hb : isBalanced w = true) (hq : closesQuotes w = true)
include hb hq

/-- **How an indented body is laid out.** -/
theorem exists_isLayout :
    ∃ common front mid back, IsLayout w (indentBody w) common front mid back (indentedLines w) := by
  have hs : IsLineStart .start := fun _ => .inl rfl
  have hscanned : Scanned .start (linesOf false (marks w)) .start := scanned_linesOf hb hq
  have hunlined : unlined (linesOf false (marks w)) = w ++ ['\n'] := unlined_linesOf _ _ _
  have hwritten := unlined_indentedLines w
  have hhead := isBlank_head?_trimLines (linesOf false (marks w))
  have hlast := isBlank_getLast?_trimLines (linesOf false (marks w))
  obtain ⟨front, back, hls, hfront, hback⟩ := exists_trimLines (linesOf false (marks w))
  rw [indentedLines] at hwritten ⊢
  generalize trimLines (linesOf false (marks w)) = mid at hls hwritten hhead hlast ⊢
  rw [hls] at hscanned hunlined
  obtain ⟨s, h₁, h⟩ := hscanned.of_append
  obtain ⟨s', h₂, h₃⟩ := h.of_append
  obtain ⟨rfl, -⟩ := h₁.blank hs hfront
  obtain ⟨rfl, -⟩ := h₃.blank (hs.scanned h₂) hback
  have hrelaid := h₂.relaid State.isProper_start hs (commonIndent_le_indent mid)
  have hplain : mid ≠ [] → ∃ l ∈ mid, l.IsPlain := by
    intro hne
    obtain ⟨l, ls, rfl⟩ := List.exists_cons_of_ne_nil hne
    exact ⟨l, List.mem_cons_self, h₂.isPlain_head? rfl hhead l rfl⟩
  have hhead' := isBlank_map_relaid (fun _ hl => List.mem_of_mem_head? hl) hhead
  have hlast' := isBlank_map_relaid (fun _ hl => List.mem_of_getLast? hl) hlast
  rw [← List.head?_map] at hhead'
  rw [← List.getLast?_map] at hlast'
  refine ⟨commonIndent mid, front, mid, back, hscanned, hunlined, hrelaid, hwritten,
    fun l hl => (List.mem_append.1 hl).elim (hfront l) (hback l), forall₂_relaid mid, two_le_indent,
    fun hne => exists_indent_eq_two (hplain fun h => hne (by rw [h]; rfl)),
    fun l hl => (hrelaid.isPlain_head? rfl hhead' l hl).isBlankText,
    hrelaid.isBlankText_getLast? State.isProper_start rfl hlast'⟩

/-- The lines of an indented body are found again. -/
theorem trimLines_linesOf_indentBody :
    trimLines (linesOf false (marks (indentBody w))) = indentedLines w := by
  obtain ⟨common, front, mid, back, h⟩ := exists_isLayout hb hq
  have hlines := linesOf_unlined h.scanned_written
  rw [h.unlined_written] at hlines
  have hsolid : ∀ l : BodyLine, isBlankText l.text = false → l.isBlank = false := fun l hl => by
    rw [BodyLine.isBlank, hl, Bool.and_false]
  have hend : ∀ l ∈ [(⟨[], false, false⟩ : BodyLine)], l.isBlank = true := by
    simp only [List.mem_singleton, forall_eq]
    rfl
  exact (congrArg trimLines hlines).trans (trimLines_eq (a := []) (List.forall_mem_nil _) hend
    (fun l hl => hsolid l (h.head_solid l hl)) fun l hl => hsolid l (h.getLast_solid l hl))

/-- **Indenting once more** changes nothing. -/
theorem indentBody_indentBody : indentBody (indentBody w) = indentBody w := by
  obtain ⟨common, front, mid, back, h⟩ := exists_isLayout hb hq
  rw [← unlined_indentedLines (indentBody w), indentedLines, trimLines_linesOf_indentBody hb hq]
  by_cases hne : indentedLines w = []
  · rw [hne, ← h.unlined_written, hne]
    rfl
  · have hcommon : commonIndent (indentedLines w) = 2 :=
      commonIndent_eq h.two_le (h.exists_two hne)
    have hsame : ∀ l ∈ indentedLines w, l.relaid 2 = l := by
      intro l' hl'
      obtain ⟨l, hl, rfl, -⟩ := mem_map_relaid hl'
      exact BodyLine.relaid_relaid (commonIndent_le_indent _ l hl)
    rw [hcommon, List.map_congr_left hsame, List.map_id', unlined_indentedLines]

/-- **Indentation touches the layout alone.** In a balanced body with no quoted string open at a
line feed, the characters of strings and templates and all that are no blanks stay as they are, with
their layers. Blank lines at both ends go; lines that begin inside a literal are copied, blank lines
are emptied, and the indentation of all others changes by one amount such that the smallest is two.
The result is empty or ends with a line feed, and indenting it once more changes nothing. -/
theorem indentBody_layout : solid (marks (indentBody w)) = solid (marks w)
    ∧ (∃ common front mid back written, IsLayout w (indentBody w) common front mid back written)
    ∧ (indentBody w = [] ∨ ∃ v, indentBody w = v ++ ['\n'])
    ∧ indentBody (indentBody w) = indentBody w := by
  obtain ⟨common, front, mid, back, h⟩ := exists_isLayout hb hq
  have hend := unlined_cases (indentedLines w)
  rw [unlined_indentedLines] at hend
  exact ⟨solid_indentBody hq hb, ⟨common, front, mid, back, _, h⟩, hend,
    indentBody_indentBody hb hq⟩

end Body

/-- Blank lines at both ends, a tab, a comment and a template over several lines, code in the
template, and a string that is continued on the next line. -/
def unevenBody : Text :=
  "\n \t \n\tdraw() \x7b /* a\n b */\n     return \x60<g>  \n\n $\x7bf( \n 1)\x7d </g>\x60; \n"
    ++ "\t \x7d,\n\n   d: 'x\\\n  y' // é\n \u00a0\n"

example : indentBody unevenBody =
    "  draw() \x7b /* a\n  b */\n      return \x60<g>  \n\n $\x7bf( \n  1)\x7d </g>\x60;\n"
      ++ "   \x7d,\n\n    d: 'x\\\n  y' // é\n" := by decide +kernel

theorem indentBody_layout_unevenBody :
    (isBalanced unevenBody = true ∧ closesQuotes unevenBody = true)
      ∧ solid (marks (indentBody unevenBody)) = solid (marks unevenBody)
      ∧ (∃ common front mid back written,
        IsLayout unevenBody (indentBody unevenBody) common front mid back written)
      ∧ (indentBody unevenBody = [] ∨ ∃ v, indentBody unevenBody = v ++ ['\n'])
      ∧ indentBody (indentBody unevenBody) = indentBody unevenBody := by
  have hb : isBalanced unevenBody = true := by decide +kernel
  have hq : closesQuotes unevenBody = true := by decide +kernel
  exact ⟨⟨hb, hq⟩, indentBody_layout hb hq⟩

end ElementModules.Descriptor
