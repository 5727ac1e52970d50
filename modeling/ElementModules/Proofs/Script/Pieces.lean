import ElementModules.Proofs.Script.Joining
import ElementModules.Script.Segment
import Mathlib.Data.List.Chain
import Mathlib.Data.List.TakeWhile

/-!
# The pieces of a script

The segments of a script are determined by their texts, its **pieces**: the shape of a segment is
that of its text alone, and its span counts the bytes in front. So whatever is said about segments
can be said about pieces, and pieces can be joined.

Two texts meet in a **seam** if a statement ends where they meet: the first is closed by a line feed,
or by a semicolon with something other than a comment behind it on its line. Cutting a joined text at
a seam cuts its parts (`Seam.pieces_append`). Conversely the pieces of a text meet in seams
(`isChain_pieces`), so a text can be built up piece by piece from its end (`seam_induction`).

What makes this work is that the rule for semicolons never looks past the piece behind it:
a piece that is not the last ends its line or holds a semicolon of its own (`continues_append`).

## Main results

* `stretches_append`: cutting at the end of a segment.
* `Seam.pieces_append`, `isChain_pieces`: pieces and seams.
* `seam_induction`: induction over the pieces of a text.
-/

namespace ElementModules.Script

open Text

/-! ### The rule for semicolons -/

/-- Whether something other than a comment follows on the line. -/
def continues (rest : List Mark) : Bool :=
  !isBlankText (chars (restOfLine rest)) && !holdsOnlyComments (restOfLine rest)

theorem endsSegment_eq (m : Mark) (rest : List Mark) :
    endsSegment m rest
      = (m.isTopLevel && (m.char = '\n' || (m.char = ';' && continues rest))) := by
  simp only [endsSegment, continues, Bool.and_assoc]

/-- A mark that bounds what the rule for semicolons looks at: a line feed, or another semicolon in
code. -/
def Mark.IsBound (m : Mark) : Prop :=
  m.char = '\n' ∨ (m.char = ';' ∧ m.layer = .code)

/-- A line that holds a semicolon in code does not hold comments only. -/
theorem continues_of_mem {p : List Mark} {e : Mark} (he : e ∈ p) (hc : e.char = ';')
    (hl : e.layer = .code) (hn : ∀ x ∈ p, x.char ≠ '\n') (r : List Mark) :
    continues (p ++ r) = true := by
  have hr : restOfLine (p ++ r) = p ++ restOfLine r :=
    List.takeWhile_append_of_pos (by simpa using hn)
  have hb : isBlankText (chars (p ++ restOfLine r)) = false := by
    rw [isBlankText, List.all_eq_false]
    exact ⟨e.char, List.mem_map_of_mem (List.mem_append_left _ he), by rw [hc]; decide⟩
  have ho : holdsOnlyComments (p ++ restOfLine r) = false := by
    simp only [holdsOnlyComments, Bool.and_eq_false_iff, List.all_eq_false]
    refine .inr ⟨e, List.mem_filter.2 ⟨List.mem_append_left _ he, ?_⟩, by simp [hl]⟩
    rw [hc]; decide
  simp only [continues, hr, hb, ho, Bool.not_false, Bool.and_self]

/-- **The rule for semicolons is local.** Behind a bound nothing is looked at. -/
theorem continues_append {p : List Mark} (h : ∃ e ∈ p, e.IsBound) (r : List Mark) :
    continues (p ++ r) = continues p := by
  by_cases hn : ∀ x ∈ p, x.char ≠ '\n'
  · obtain ⟨e, he, hb⟩ := h
    obtain ⟨hc, hl⟩ := hb.resolve_left (hn e he)
    have := continues_of_mem he hc hl hn []
    rw [continues_of_mem he hc hl hn r, ← this, List.append_nil]
  · have hr : restOfLine (p ++ r) = restOfLine p := by
      rw [restOfLine, restOfLine, List.takeWhile_append, if_neg]
      intro hlen
      have hpre := List.takeWhile_prefix (fun m : Mark => m.char != '\n') (l := p)
      have hall := hpre.eq_of_length hlen
      exact hn (by simpa using List.takeWhile_eq_self_iff.1 hall)
    rw [continues, continues, hr]

theorem endsSegment_append {p : List Mark} (h : ∃ e ∈ p, e.IsBound) (m : Mark) (r : List Mark) :
    endsSegment m (p ++ r) = endsSegment m p := by
  rw [endsSegment_eq, endsSegment_eq, continues_append h]

/-- What ends a segment is a bound. -/
theorem isBound_of_endsSegment {m : Mark} {rest : List Mark} (h : endsSegment m rest = true) :
    m.IsBound := by
  simp only [endsSegment_eq, Mark.isTopLevel, Mark.isCode, Bool.and_eq_true, Bool.or_eq_true,
    decide_eq_true_eq] at h
  obtain ⟨⟨hl, -⟩, hc | ⟨hc, -⟩⟩ := h
  · exact .inl hc
  · exact .inr ⟨hc, hl⟩

/-! ### Stretches -/

theorem stretches_eq_nil {ms : List Mark} : stretches ms = [] ↔ ms = [] := by
  constructor
  · intro h
    have := flatten_stretches ms
    rw [h] at this
    simpa using this.symm
  · rintro rfl; rfl

theorem stretches_cons_of_ends {m : Mark} {ms : List Mark} (h : endsSegment m ms = true) :
    stretches (m :: ms) = [m] :: stretches ms := by
  rw [stretches, if_pos h]

theorem stretches_cons_of_not_ends {m : Mark} {ms p : List Mark} {ps : List (List Mark)}
    (h : endsSegment m ms = false) (hp : stretches ms = p :: ps) :
    stretches (m :: ms) = (m :: p) :: ps := by
  rw [stretches, if_neg (by simp [h]), hp]

@[simp] theorem stretches_singleton (m : Mark) : stretches [m] = [[m]] := by
  rw [stretches]
  split <;> rfl

/-- **Cutting at the end of a segment** cuts both sides independently. -/
theorem stretches_append {m : Mark} {rest : List Mark} (h : endsSegment m rest = true)
    (q : List Mark) : stretches (q ++ m :: rest) = stretches (q ++ [m]) ++ stretches rest := by
  induction q with
  | nil => simpa using stretches_cons_of_ends h
  | cons x q ih =>
    have he : endsSegment x (q ++ m :: rest) = endsSegment x (q ++ [m]) := by
      have := endsSegment_append (p := q ++ [m]) ⟨m, by simp, isBound_of_endsSegment h⟩ x rest
      simpa using this
    rw [List.cons_append, List.cons_append]
    by_cases hx : endsSegment x (q ++ [m]) = true
    · rw [stretches_cons_of_ends (he.trans hx), stretches_cons_of_ends hx, ih, List.cons_append]
    · simp only [Bool.not_eq_true] at hx
      obtain ⟨p, ps, hp⟩ := List.exists_cons_of_ne_nil
        (mt stretches_eq_nil.1 (List.append_ne_nil_of_right_ne_nil q (List.cons_ne_nil m [])))
      rw [hp, List.cons_append] at ih
      rw [stretches_cons_of_not_ends (he.trans hx) ih, stretches_cons_of_not_ends hx hp,
        List.cons_append]

/-- The first stretch is not cut itself, and it ends where a segment ends unless it is the only
one. -/
theorem stretches_eq_cons {ms p : List Mark} {ps : List (List Mark)}
    (h : stretches ms = p :: ps) :
    stretches p = [p] ∧ (ps = [] ∨ ∃ q e, p = q ++ [e] ∧ endsSegment e ps.flatten = true) := by
  induction ms generalizing p ps with
  | nil => cases h
  | cons m ms ih =>
    by_cases hm : endsSegment m ms = true
    · rw [stretches_cons_of_ends hm] at h
      obtain ⟨rfl, rfl⟩ := List.cons.inj h
      exact ⟨stretches_singleton m, .inr ⟨[], m, rfl, by rwa [flatten_stretches]⟩⟩
    · simp only [Bool.not_eq_true] at hm
      cases hs : stretches ms with
      | nil =>
        obtain rfl := stretches_eq_nil.1 hs
        rw [stretches_singleton] at h
        obtain ⟨rfl, rfl⟩ := List.cons.inj h
        exact ⟨stretches_singleton m, .inl rfl⟩
      | cons p' ps' =>
        rw [stretches_cons_of_not_ends hm hs] at h
        obtain ⟨rfl, rfl⟩ := List.cons.inj h
        obtain ⟨hp, hends⟩ := ih hs
        have hms : ms = p' ++ ps'.flatten := by rw [← flatten_stretches ms, hs]; rfl
        refine ⟨stretches_cons_of_not_ends ?_ hp, ?_⟩
        · rcases hends with rfl | ⟨q, e, rfl, he⟩
          · simpa [hms] using hm
          · rw [hms, endsSegment_append ⟨e, by simp, isBound_of_endsSegment he⟩] at hm
            exact hm
        · rcases hends with rfl | ⟨q, e, rfl, he⟩
          · exact .inl rfl
          · exact .inr ⟨m :: q, e, rfl, he⟩

/-! ### Pieces and seams -/

/-- The texts of the segments. -/
def pieces (t : Text) : List Text :=
  (stretches (marks t)).map chars

/-- A text that is one segment when it stands alone. -/
def IsPiece (p : Text) : Prop :=
  stretches (marks p) = [marks p]

/-- A statement ends where the two texts meet. -/
def Seam (a b : Text) : Prop :=
  ClosedBy '\n' a ∨ (ClosedBy ';' a ∧ continues (marks b) = true)

theorem Seam.closed {a b : Text} (h : Seam a b) : Closed a :=
  h.imp id And.left

/-- A piece is not empty. -/
theorem IsPiece.ne_nil {p : Text} (h : IsPiece p) : p ≠ [] := by
  rintro rfl
  cases h

theorem flatten_pieces (t : Text) : (pieces t).flatten = t := by
  have h : ∀ ps : List (List Mark), (ps.map chars).flatten = chars ps.flatten := by
    intro ps
    induction ps with
    | nil => rfl
    | cons p ps ih => simp [ih, chars]
  rw [pieces, h, flatten_stretches, chars_marks]

/-- Where two texts meet in a seam, the last mark of the first one ends a segment. -/
theorem Seam.exists_mark {a b : Text} (h : Seam a b) :
    ∃ q m, marks a = q ++ [m] ∧ endsSegment m (marks b) = true := by
  rcases h with ⟨q, rfl, hq⟩ | ⟨⟨q, rfl, hq⟩, hb⟩
  · exact ⟨marks q, _, marks_concat hq (by decide),
      by simp [endsSegment_eq, Mark.isTopLevel, Mark.isCode]⟩
  · exact ⟨marks q, _, marks_concat hq (by decide),
      by simp [endsSegment_eq, Mark.isTopLevel, Mark.isCode, hb]⟩

/-- **Cutting at a seam** cuts both texts independently. -/
theorem Seam.stretches_append {a b : Text} (h : Seam a b) :
    stretches (marks (a ++ b)) = stretches (marks a) ++ stretches (marks b) := by
  obtain ⟨q, m, hq, hm⟩ := h.exists_mark
  rw [h.closed.marks_append, hq, List.append_assoc, List.singleton_append,
    Script.stretches_append hm]

theorem Seam.pieces_append {a b : Text} (h : Seam a b) : pieces (a ++ b) = pieces a ++ pieces b := by
  rw [pieces, h.stretches_append, List.map_append]
  rfl

/-- A closed text holds a bound for the rule for semicolons. -/
theorem Closed.exists_isBound {p : Text} (h : Closed p) : ∃ e ∈ marks p, e.IsBound := by
  rcases h with ⟨q, rfl, hq⟩ | ⟨q, rfl, hq⟩
  · exact ⟨_, by rw [marks_concat hq (by decide)]; exact List.mem_concat_self, .inl rfl⟩
  · exact ⟨_, by rw [marks_concat hq (by decide)]; exact List.mem_concat_self, .inr ⟨rfl, rfl⟩⟩

/-- A seam does not depend on what follows a closed second part. -/
theorem Seam.append_iff {a p : Text} (h : Closed p) (b : Text) : Seam a (p ++ b) ↔ Seam a p := by
  rw [Seam, Seam, h.marks_append, continues_append h.exists_isBound]

/-- The marks of a text around one of its characters. -/
theorem marks_append_cons (a : Text) (c : Char) (b : Text) :
    ∃ q, q.length = a.length ∧ marks (a ++ c :: b)
      = q ++ ⟨c, (endState a).layer c b.head?, (endState a).depth⟩
          :: marksFrom ((endState a).step c) b := by
  refine ⟨(marksFrom .start (a ++ [c])).take a.length, by simp, ?_⟩
  exact marksFrom_append .start a c b

/-- A mark that ends a segment splits its text in a seam. -/
theorem exists_seam {t : Text} {q rest : List Mark} {e : Mark} (ht : marks t = q ++ e :: rest)
    (he : endsSegment e rest = true) :
    ∃ a b, t = a ++ b ∧ Seam a b ∧ marks a = q ++ [e] ∧ marks b = rest := by
  obtain ⟨a, c, b, rfl, ha⟩ : ∃ a c b, t = a ++ c :: b ∧ a.length = q.length := by
    have hc := congrArg chars ht
    rw [chars_marks, chars_append] at hc
    exact ⟨chars q, e.char, chars rest, by simpa [chars] using hc, by simp [chars]⟩
  obtain ⟨q', hq', hm⟩ := marks_append_cons a c b
  rw [ht] at hm
  obtain ⟨rfl, hm'⟩ := List.append_inj hm (by omega)
  obtain ⟨hmark, rfl⟩ := List.cons.inj hm'
  simp only [hmark, endsSegment_eq, Mark.isTopLevel, Mark.isCode, Bool.and_eq_true,
    Bool.or_eq_true, decide_eq_true_eq] at he
  obtain ⟨⟨hl, hd⟩, hc⟩ := he
  have hns : c ≠ '/' := by rcases hc with rfl | ⟨rfl, -⟩ <;> decide
  have hat : (endState a).IsTopLevelAt c :=
    ⟨(State.layer_of_ne_slash hns _ _ _).trans hl, List.length_eq_zero_iff.1 hd⟩
  have hclosed : Closed (a ++ [c]) := by
    rcases hc with rfl | ⟨rfl, -⟩
    · exact .inl ⟨a, rfl, hat⟩
    · exact .inr ⟨a, rfl, hat⟩
  have hrest : marksFrom ((endState a).step c) b = marks b := by
    have := hclosed.endState
    rw [endState_append] at this
    exact congrArg (marksFrom · b) this
  have hall : marks (a ++ [c]) ++ marks b = q ++ [e] ++ marks b := by
    rw [← hclosed.marks_append, ← hrest, List.append_assoc, List.append_assoc]
    exact ht
  refine ⟨a ++ [c], b, by simp, ?_, List.append_cancel_right hall, hrest.symm⟩
  rcases hc with rfl | ⟨rfl, hc⟩
  · exact .inl ⟨a, rfl, hat⟩
  · exact .inr ⟨⟨a, rfl, hat⟩, hrest ▸ hc⟩

/-- The first piece of a text, cut off at its seam. -/
theorem exists_piece {t : Text} {m : List Mark} {ms : List (List Mark)}
    (h : stretches (marks t) = m :: ms) :
    IsPiece t ∨ ∃ p b, t = p ++ b ∧ IsPiece p ∧ b ≠ [] ∧ Seam p b := by
  obtain ⟨hm, rfl | ⟨q, e, rfl, he⟩⟩ := stretches_eq_cons h
  · left
    have hflat := flatten_stretches (marks t)
    rw [h, List.flatten_singleton] at hflat
    rw [IsPiece, h, hflat]
  · have ht : marks t = q ++ e :: ms.flatten := by
      rw [← flatten_stretches (marks t), h]
      simp
    obtain ⟨p, b, rfl, hseam, hp, hb⟩ := exists_seam ht he
    by_cases hnil : b = []
    · subst hnil
      left
      rw [List.append_nil, IsPiece, hp]
      exact hm
    · exact .inr ⟨p, b, rfl, by rw [IsPiece, hp]; exact hm, hnil, hseam⟩

/-- **Induction along the seams** of a text: it is empty, or one piece, or a piece that meets the
rest in a seam. -/
@[elab_as_elim]
theorem seam_induction {motive : Text → Prop} (nil : motive [])
    (piece : ∀ p, IsPiece p → motive p)
    (seam : ∀ p b, IsPiece p → b ≠ [] → Seam p b → motive b → motive (p ++ b)) (t : Text) :
    motive t := by
  induction hn : t.length using Nat.strongRecOn generalizing t with
  | ind n ih =>
    cases hs : stretches (marks t) with
    | nil =>
      have : marks t = [] := stretches_eq_nil.1 hs
      have : t = [] := by rw [← chars_marks t, this]; rfl
      exact this ▸ nil
    | cons m ms =>
      obtain h | ⟨p, b, rfl, hp, hb, hseam⟩ := exists_piece hs
      · exact piece t h
      · have := List.length_pos_iff.2 hp.ne_nil
        exact seam p b hp hb hseam (ih b.length (by simp at hn; omega) b rfl)

theorem IsPiece.pieces_eq {p : Text} (h : IsPiece p) : pieces p = [p] := by
  rw [pieces, h, List.map_singleton, chars_marks]

@[simp] theorem pieces_nil : pieces [] = [] := rfl

theorem Seam.pieces_cons {p b : Text} (hp : IsPiece p) (h : Seam p b) :
    pieces (p ++ b) = p :: pieces b := by
  rw [h.pieces_append, hp.pieces_eq]
  rfl

/-- The stretches of a text are the marks of its pieces. -/
theorem stretches_marks (t : Text) : stretches (marks t) = (pieces t).map marks := by
  induction t using seam_induction with
  | nil => rfl
  | piece p hp => rw [hp.pieces_eq]; exact hp
  | seam p b hp _ h ih =>
    rw [h.stretches_append, h.pieces_cons hp, List.map_cons, ← ih,
      show stretches (marks p) = _ from hp]
    rfl

theorem isPiece_of_mem_pieces {t p : Text} (h : p ∈ pieces t) : IsPiece p := by
  induction t using seam_induction with
  | nil => cases h
  | piece q hq =>
    rw [hq.pieces_eq, List.mem_singleton] at h
    exact h ▸ hq
  | seam q b hq _ hs ih =>
    rw [hs.pieces_cons hq] at h
    rcases List.mem_cons.1 h with rfl | h
    · exact hq
    · exact ih h

/-- A text that is not empty has a first piece; a seam in front of the text is one in front of that
piece. -/
theorem exists_pieces_eq_cons {b : Text} (hb : b ≠ []) :
    ∃ n ns, pieces b = n :: ns ∧ ∀ a, Seam a b → Seam a n := by
  induction b using seam_induction with
  | nil => exact absurd rfl hb
  | piece p hp => exact ⟨p, [], hp.pieces_eq, fun _ h => h⟩
  | seam p c hp _ hs _ =>
    exact ⟨p, pieces c, hs.pieces_cons hp, fun a h => (Seam.append_iff hs.closed c).1 h⟩

/-- The pieces of a text meet in seams. -/
theorem isChain_pieces (t : Text) : (pieces t).IsChain Seam := by
  induction t using seam_induction with
  | nil => exact .nil
  | piece p hp => rw [hp.pieces_eq]; exact .singleton p
  | seam p b hp hb hs ih =>
    obtain ⟨n, ns, hn, hmeet⟩ := exists_pieces_eq_cons hb
    rw [hs.pieces_cons hp, hn, List.isChain_cons_cons]
    exact ⟨hmeet p hs, hn ▸ ih⟩

end ElementModules.Script
