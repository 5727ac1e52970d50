import ElementModules.Proofs.Prefixes
import ElementModules.Proofs.Script.Pieces
import ElementModules.Proofs.Text.Trim

/-!
# Statements of joined texts

The segments of a script without their places are its **contents**: a list of shapes and texts.
Contents are joined at seams (`Seam.contents_append`). A segment that is not blank is a
**statement**; readings of statements that do not see a line feed at the end of one do not see a
line feed at the end of a script either (`reading_append_newline`), whatever state the script leaves
the scan in.

## Main results

* `map_content_segments`: the contents of a script, from its pieces.
* `pieces_append_newline`: a line feed behind a script is a piece of its own or belongs to the last
  piece.
* `reading_append_newline`: readings of statements do not see a line feed behind a script.
* `IsPiece.append_newline`: a line feed at the end of a piece.
-/

namespace ElementModules.Script

open Text

/-! ### Contents -/

/-- The shape of a text that stands alone. -/
def shape (p : Text) : SegmentKind := kindOf (marks p)

/-- A segment without its place. -/
def Segment.content (s : Segment) : SegmentKind × Text := (s.kind, s.text)

/-- The segments of a text without their places. -/
def contents (t : Text) : List (SegmentKind × Text) :=
  (stretches (marks t)).map fun m => (kindOf m, chars m)

theorem map_content_segmentsOf (offset : Nat) (ms : List (List Mark)) :
    (segmentsOf offset ms).map Segment.content = ms.map fun m => (kindOf m, chars m) := by
  induction ms generalizing offset with
  | nil => rfl
  | cons m ms ih => rw [segmentsOf, List.map_cons, ih, List.map_cons]; rfl

theorem map_content_segments (t : Text) : (segments t).map Segment.content = contents t :=
  map_content_segmentsOf 0 _

theorem segmentsOf_append (offset : Nat) (ms ns : List (List Mark)) :
    segmentsOf offset (ms ++ ns)
      = segmentsOf offset ms ++ segmentsOf (offset + sizeOf ms.flatten) ns := by
  induction ms generalizing offset with
  | nil => rfl
  | cons m ms ih =>
    have hs : sizeOf (m :: ms).flatten = sizeOf m + sizeOf ms.flatten := by simp [sizeOf]
    rw [List.cons_append, segmentsOf, segmentsOf, ih, hs, Nat.add_assoc]
    rfl

theorem contents_eq (t : Text) : contents t = (pieces t).map fun p => (shape p, p) := by
  rw [contents, stretches_marks, List.map_map]
  refine List.map_congr_left fun p _ => ?_
  simp [shape]

@[simp] theorem contents_nil : contents [] = [] := rfl

theorem IsPiece.contents_eq {p : Text} (h : IsPiece p) : contents p = [(shape p, p)] := by
  rw [Script.contents_eq, h.pieces_eq]
  rfl

theorem Seam.contents_append {a b : Text} (h : Seam a b) :
    contents (a ++ b) = contents a ++ contents b := by
  rw [contents, h.stretches_append, List.map_append]
  rfl

/-- A segment is a piece of its own shape. -/
theorem of_mem_segments {t : Text} {s : Segment} (h : s ∈ segments t) :
    IsPiece s.text ∧ s.kind = shape s.text := by
  have hc : s.content ∈ contents t := map_content_segments t ▸ List.mem_map_of_mem h
  rw [contents_eq] at hc
  obtain ⟨p, hp, he⟩ := List.mem_map.1 hc
  obtain ⟨hk, rfl⟩ := Prod.mk.inj he
  exact ⟨isPiece_of_mem_pieces hp, hk.symm⟩

theorem map_text_segments (t : Text) : (segments t).map Segment.text = pieces t := by
  have h := congrArg (List.map Prod.snd) (map_content_segments t)
  rw [contents_eq, List.map_map, List.map_map] at h
  simpa [Function.comp_def, Segment.content] using h

/-- What goes from a text to both sides of every seam goes to its segments. -/
theorem forall_segments_of_seams {P : Text → Prop} (hseam : ∀ a b, Seam a b → P (a ++ b) → P a ∧ P b)
    {t : Text} (ht : P t) : ∀ s ∈ segments t, P s.text := by
  intro s h
  have hp : s.text ∈ pieces t := map_text_segments t ▸ List.mem_map_of_mem h
  clear h
  induction t using seam_induction with
  | nil => cases hp
  | piece p hpiece =>
    rw [hpiece.pieces_eq, List.mem_singleton] at hp
    rwa [hp]
  | seam p b hpiece _ hs ih =>
    obtain ⟨hfirst, hrest⟩ := hseam p b hs ht
    rw [hs.pieces_cons hpiece] at hp
    rcases List.mem_cons.1 hp with hp | hp
    · rwa [hp]
    · exact ih hrest hp

/-- The segments of a balanced text are balanced. -/
theorem isBalanced_of_mem_segments {t : Text} (hb : isBalanced t = true) {s : Segment}
    (h : s ∈ segments t) : isBalanced s.text = true := by
  refine forall_segments_of_seams (P := fun t => isBalanced t = true) (fun a b hs hab => ?_) hb s h
  rw [isBalanced, endState_append, hs.closed.endState] at hab
  exact ⟨hs.closed.isBalanced, hab⟩

/-! ### A line feed at the end -/

section Newline

variable {x : Mark} (hx : x.char = '\n')
include hx

theorem restOfLine_concat (ms : List Mark) : restOfLine (ms ++ [x]) = restOfLine ms := by
  induction ms with
  | nil => simp [restOfLine, hx]
  | cons m ms ih =>
    simp only [restOfLine, List.cons_append, List.takeWhile_cons] at ih ⊢
    rw [ih]

theorem endsSegment_concat (m : Mark) (ms : List Mark) :
    endsSegment m (ms ++ [x]) = endsSegment m ms := by
  rw [endsSegment, restOfLine_concat hx]
  rfl

/-- The shape of a stretch does not see a line feed at its end. -/
theorem kindOf_concat (ms : List Mark) : kindOf (ms ++ [x]) = kindOf ms := by
  have hc : chars [x] = ['\n'] := by simp [chars, hx]
  have hb : isAsciiBlank x.char = true := by rw [hx]; decide
  have ho : holdsOnlyComments (ms ++ [x]) = holdsOnlyComments ms := by
    simp [holdsOnlyComments, List.filter_append, hb]
  rw [kindOf, kindOf, ho, chars_append, hc, trim_append_newline]

/-- A line feed behind a text is a stretch of its own if a segment ends there, and else belongs to
the last stretch. -/
theorem stretches_concat (ms : List Mark) :
    stretches (ms ++ [x]) = stretches ms ++ [[x]]
      ∨ ∃ qs q, stretches ms = qs ++ [q] ∧ stretches (ms ++ [x]) = qs ++ [q ++ [x]] := by
  induction ms with
  | nil => exact .inl (stretches_singleton x)
  | cons m ms ih =>
    rw [List.cons_append]
    by_cases hm : endsSegment m ms = true
    · rw [stretches_cons_of_ends hm,
        stretches_cons_of_ends ((endsSegment_concat hx m ms).trans hm)]
      rcases ih with ih | ⟨qs, q, hq, ih⟩
      · exact .inl (by rw [ih]; rfl)
      · exact .inr ⟨[m] :: qs, q, by rw [hq]; rfl, by rw [ih]; rfl⟩
    · simp only [Bool.not_eq_true] at hm
      have hm' := (endsSegment_concat hx m ms).trans hm
      cases hs : stretches ms with
      | nil =>
        obtain rfl := stretches_eq_nil.1 hs
        refine .inr ⟨[], [m], stretches_singleton m, ?_⟩
        exact stretches_cons_of_not_ends hm' (stretches_singleton x)
      | cons p ps =>
        rw [stretches_cons_of_not_ends hm hs]
        rw [hs] at ih
        rcases ih with ih | ⟨qs, q, hq, ih⟩
        · exact .inl (stretches_cons_of_not_ends hm' ih)
        · cases qs with
          | nil =>
            obtain ⟨rfl, rfl⟩ := List.cons.inj hq
            exact .inr ⟨[], m :: p, rfl, stretches_cons_of_not_ends hm' ih⟩
          | cons r rs =>
            obtain ⟨rfl, rfl⟩ := List.cons.inj hq
            exact .inr ⟨(m :: p) :: rs, q, rfl, stretches_cons_of_not_ends hm' ih⟩

end Newline

/-- The rule for semicolons does not look past a line feed. -/
theorem continues_append_newline (a b : Text) :
    continues (marks (a ++ '\n' :: b)) = continues (marks a) := by
  obtain ⟨x, ms, hx, hm⟩ : ∃ x ms, x.char = '\n' ∧ marks (a ++ '\n' :: b) = marks a ++ x :: ms := by
    rw [marks, marksFrom_append_eq (by simp)]
    exact ⟨_, _, rfl, rfl⟩
  have hr : restOfLine (marks a ++ x :: ms) = restOfLine (marks a) :=
    takeWhile_append_cons (by simp [hx]) _ _
  rw [continues, continues, hm, hr]

@[simp] theorem shape_append_newline (p : Text) : shape (p ++ ['\n']) = shape p := by
  obtain ⟨x, hx, hm⟩ := marks_append_newline_eq p
  rw [shape, hm, kindOf_concat hx]
  rfl

theorem shape_newline : shape ['\n'] = .blank := by decide

/-- **A line feed behind a text** is a piece of its own or belongs to the last piece. -/
theorem pieces_append_newline (t : Text) :
    pieces (t ++ ['\n']) = pieces t ++ [['\n']]
      ∨ ∃ ps p, pieces t = ps ++ [p] ∧ pieces (t ++ ['\n']) = ps ++ [p ++ ['\n']] := by
  obtain ⟨x, hx, hm⟩ := marks_append_newline_eq t
  have hc : chars [x] = ['\n'] := by simp [chars, hx]
  rw [pieces, pieces, hm]
  obtain h | ⟨qs, q, hq, h⟩ := stretches_concat hx (marks t)
  · exact .inl (by rw [h, List.map_append, List.map_singleton, hc])
  · exact .inr ⟨qs.map chars, chars q, by rw [hq]; simp, by rw [h]; simp [hc]⟩

/-- A piece that no line feed closes is still a piece with a line feed behind it. -/
theorem IsPiece.append_newline {p : Text} (h : IsPiece p) (hn : ¬ ClosedBy '\n' p) :
    IsPiece (p ++ ['\n']) := by
  obtain hp | ⟨ps, q, hq, hp⟩ := pieces_append_newline p
  · have hc := isChain_pieces (p ++ ['\n'])
    rw [hp, h.pieces_eq, List.singleton_append, List.isChain_pair] at hc
    rcases hc with hc | ⟨-, hc⟩
    · exact absurd hc hn
    · cases hc
  · rw [h.pieces_eq] at hq
    obtain ⟨rfl, hq⟩ := List.append_inj' (show [] ++ [p] = ps ++ [q] from hq) rfl
    obtain rfl : p = q := by simpa using hq
    exact isPiece_of_mem_pieces (t := p ++ ['\n']) (by rw [hp]; exact List.mem_singleton_self _)

/-! ### Readings of statements -/

/-- The contents of a text that are not blank. -/
def statementContents (t : Text) : List (SegmentKind × Text) :=
  (contents t).filter fun p => p.1 ≠ .blank

theorem Seam.statementContents_append {a b : Text} (h : Seam a b) :
    statementContents (a ++ b) = statementContents a ++ statementContents b := by
  rw [statementContents, h.contents_append, List.filter_append]
  rfl

@[simp] theorem statementContents_nil : statementContents [] = [] := rfl

theorem IsPiece.statementContents_eq {p : Text} (h : IsPiece p) :
    statementContents p = if shape p = .blank then [] else [(shape p, p)] := by
  rw [statementContents, h.contents_eq]
  split <;> rename_i hb <;> simp [hb]

/-- What is read off statements, if a line feed at the end of one is not seen, does not change with
a line feed behind the text. -/
theorem reading_append_newline {β : Type} {g : SegmentKind × Text → β}
    (hg : ∀ k p, g (k, p ++ ['\n']) = g (k, p)) (t : Text) :
    (statementContents (t ++ ['\n'])).map g = (statementContents t).map g := by
  rw [statementContents, statementContents, contents_eq, contents_eq]
  obtain h | ⟨ps, p, hp, h⟩ := pieces_append_newline t
  · rw [h]
    simp [shape_newline]
  · rw [h, hp]
    by_cases hb : shape p = .blank <;> simp [hb, hg]

end ElementModules.Script
