import ElementModules.Proofs.Script.Places

/-!
# Cutting again

The segments of a script are one cut of it: they are not empty, they lie side by side, and each is
scanned in the script as it is scanned alone (`IsSegmentation`). So a script may be put together
anew from segments of another one. What is left after some of them were taken out, and what a rewrite
inserts between them, is cut where it was cut before, as long as every segment that something
follows ends its line (`content_segments_of_sublist`).

A segment that ends its line can stand in front of any other one. A segment that ends behind a
semicolon cannot: whether a statement ends there depends on what follows on the line. This is why
the segments that stay have to end with a line feed, and only the last one need not.

## Main results

* `pieces_flatten`: pieces that meet in seams are cut again as they were.
* `isSegmentation_segments`: what the segments of a script are.
* `content_segments_of_sublist`: some segments of a script, joined, have themselves as segments.
-/

namespace ElementModules.Script

open Text

/-! ### Pieces that meet in seams -/

/-- A list of texts that meet in seams is closed in front of its last text. -/
theorem closed_of_mem_dropLast {ps : List Text} (h : ps.IsChain Seam) :
    ∀ p ∈ ps.dropLast, Closed p := by
  induction ps with
  | nil => simp
  | cons p ps ih =>
    cases ps with
    | nil => simp
    | cons q ps =>
      obtain ⟨hseam, hrest⟩ := List.isChain_cons_cons.1 h
      rw [List.dropLast_cons_cons]
      intro x hx
      rcases List.mem_cons.1 hx with rfl | hx
      · exact hseam.closed
      · exact ih hrest x hx

/-- **Pieces that meet in seams** are the pieces of the text they make up. -/
theorem pieces_flatten {ps : List Text} (hp : ∀ p ∈ ps, IsPiece p) (hs : ps.IsChain Seam) :
    pieces ps.flatten = ps := by
  induction ps with
  | nil => rfl
  | cons p ps ih =>
    have hpiece : IsPiece p := hp p List.mem_cons_self
    cases ps with
    | nil => simpa using hpiece.pieces_eq
    | cons q ps =>
      obtain ⟨hseam, hrest⟩ := List.isChain_cons_cons.1 hs
      have hmeet : Seam p (q :: ps).flatten := by
        cases ps with
        | nil => simpa using hseam
        | cons r ps =>
          have hq : Closed q := closed_of_mem_dropLast hrest q (by simp)
          exact (Seam.append_iff hq _).2 hseam
      rw [List.flatten_cons, hmeet.pieces_cons hpiece, ih (fun x hx => hp x (.tail p hx)) hrest]

/-- Pieces that meet in seams are scanned one by one. -/
theorem marks_flatten {ps : List Text} (hp : ∀ p ∈ ps, IsPiece p) (hs : ps.IsChain Seam) :
    marks ps.flatten = (ps.map marks).flatten := by
  rw [← flatten_stretches (marks ps.flatten), stretches_marks, pieces_flatten hp hs]

/-- A closed text whose last character is a line feed is closed by it. -/
theorem Closed.closedBy_newline {p : Text} (h : Closed p) (hl : p.getLast? = some '\n') :
    ClosedBy '\n' p := by
  refine h.resolve_right fun hsemicolon => ?_
  rw [hsemicolon.getLast?] at hl
  exact absurd hl (by decide)

/-- Texts of which all but the last are closed by a line feed meet in seams. -/
theorem isChain_of_closedBy_newline {ps : List Text} (h : ∀ p ∈ ps.dropLast, ClosedBy '\n' p) :
    ps.IsChain Seam := by
  induction ps with
  | nil => exact .nil
  | cons p ps ih =>
    cases ps with
    | nil => exact .singleton p
    | cons q ps =>
      rw [List.dropLast_cons_cons] at h
      exact List.isChain_cons_cons.2
        ⟨.inl (h p List.mem_cons_self), ih fun x hx => h x (.tail p hx)⟩

theorem dropLast_sublist_dropLast {α : Type} {l l' : List α} (h : l.Sublist l') :
    l.dropLast.Sublist l'.dropLast := by
  have htail := h.reverse.tail
  rw [List.tail_reverse, List.tail_reverse] at htail
  exact List.reverse_sublist.1 htail

/-- Some pieces of a text, all but the last of which end with a line feed, meet in seams. -/
theorem isChain_of_sublist_pieces {t : Text} {ps : List Text} (h : ps.Sublist (pieces t))
    (hl : ∀ p ∈ ps.dropLast, p.getLast? = some '\n') : ps.IsChain Seam := by
  refine isChain_of_closedBy_newline fun p hp => ?_
  have hclosed : Closed p :=
    closed_of_mem_dropLast (isChain_pieces t) p ((dropLast_sublist_dropLast h).subset hp)
  exact hclosed.closedBy_newline (hl p hp)

/-! ### Line feeds within a piece -/

/-- A mark within a piece does not end a segment. -/
theorem IsPiece.not_endsSegment {p : Text} (h : IsPiece p) {q rest : List Mark} {m : Mark}
    (hm : marks p = q ++ m :: rest) (hr : rest ≠ []) : endsSegment m rest = false := by
  by_contra hends
  rw [Bool.not_eq_false] at hends
  have hcut : stretches (marks p) = stretches (q ++ [m]) ++ stretches rest := by
    rw [hm, stretches_append hends]
  rw [show stretches (marks p) = [marks p] from h] at hcut
  have hfront : stretches (q ++ [m]) ≠ [] := mt stretches_eq_nil.1 (by simp)
  have hback : stretches rest ≠ [] := mt stretches_eq_nil.1 hr
  have hlen := congrArg List.length hcut
  rw [List.length_append] at hlen
  have := List.length_pos_iff.2 hfront
  have := List.length_pos_iff.2 hback
  simp only [List.length_singleton] at hlen
  omega

/-- A line feed outside all brackets stands only at the end of a piece. -/
theorem IsPiece.ne_newline {p : Text} (h : IsPiece p) {m : Mark} (hm : m ∈ (marks p).dropLast)
    (htop : m.isTopLevel = true) : m.char ≠ '\n' := by
  obtain ⟨q, rest, hsplit⟩ := List.append_of_mem hm
  have hne : marks p ≠ [] := by
    intro hnil
    simp [hnil] at hm
  have hall : marks p = q ++ m :: (rest ++ [(marks p).getLast hne]) := by
    conv_lhs => rw [← List.dropLast_append_getLast hne, hsplit]
    simp
  have hends := h.not_endsSegment hall (by simp)
  rw [endsSegment_eq, htop] at hends
  intro hc
  simp [hc] at hends

/-! ### The segments of a script -/

/-- The segments `ss` are a cut of the script `t`. Since the spans are sizes of initial parts of the
script, they lie on the boundaries of its characters, and each one starts where the one in front of
it stops. -/
structure IsSegmentation (t : Text) (ss : List Segment) : Prop where
  /-- The segments make up the script. -/
  flatMap_text : ss.flatMap Segment.text = t
  /-- No segment is empty. -/
  ne_nil : ∀ s ∈ ss, s.text ≠ []
  /-- The span of a segment starts behind what is in front of it and stops behind the segment. -/
  span : ∀ before s behind, ss = before ++ s :: behind →
    s.span = ⟨size (before.flatMap Segment.text), size ((before ++ [s]).flatMap Segment.text)⟩
  /-- A segment has the same layers and depths in the script as it has alone. -/
  marks : ∀ before s behind, ss = before ++ s :: behind →
    Script.marks t = Script.marks (before.flatMap Segment.text) ++ Script.marks s.text
      ++ Script.marks (behind.flatMap Segment.text)
  /-- A line feed outside all brackets ends its segment. -/
  line : ∀ s ∈ ss, ∀ m ∈ (Script.marks s.text).dropLast, m.isTopLevel = true → m.char ≠ '\n'

theorem flatMap_text_segments (t : Text) : (segments t).flatMap Segment.text = t := by
  rw [List.flatMap_def, map_text_segments, flatten_pieces]

/-- The texts of consecutive segments meet in seams. -/
theorem isChain_of_segments_eq {t : Text} {before ss behind : List Segment}
    (h : segments t = before ++ (ss ++ behind)) : (ss.map Segment.text).IsChain Seam := by
  have hall := isChain_pieces t
  rw [← map_text_segments, h, List.map_append, List.map_append] at hall
  exact hall.right_of_append.left_of_append

/-- Consecutive segments are scanned one by one. -/
theorem marks_of_segments_eq {t : Text} {before ss behind : List Segment}
    (h : segments t = before ++ (ss ++ behind)) :
    marks (ss.flatMap Segment.text) = ss.flatMap fun s => marks s.text := by
  have hpieces : ∀ p ∈ ss.map Segment.text, IsPiece p := by
    intro p hp
    obtain ⟨s, hs, rfl⟩ := List.mem_map.1 hp
    exact (of_mem_segments (t := t) (by rw [h]; simp [hs])).1
  rw [List.flatMap_def, marks_flatten hpieces (isChain_of_segments_eq h), List.map_map]
  rfl

/-- **The segments of a script** are a cut of it. -/
theorem isSegmentation_segments (t : Text) : IsSegmentation t (segments t) where
  flatMap_text := flatMap_text_segments t
  ne_nil := fun _ hs => (of_mem_segments hs).1.ne_nil
  span := fun before s behind h => by
    obtain ⟨hstart, hstop⟩ := span_of_segments_eq h
    have hsize : size ((before ++ [s]).flatMap Segment.text) = s.span.stop := by
      rw [hstop, hstart, List.flatMap_append, size_append, List.flatMap_singleton]
    rw [hsize, ← hstart]
  marks := fun before s behind h => by
    have hbefore := marks_of_segments_eq (show segments t = [] ++ (before ++ s :: behind) from h)
    have hbehind := marks_of_segments_eq
      (show segments t = (before ++ [s]) ++ (behind ++ []) by simpa using h)
    have hall := marks_of_segments_eq (show segments t = [] ++ (segments t ++ []) by simp)
    rw [flatMap_text_segments] at hall
    rw [hall, hbefore, hbehind, h]
    simp
  line := fun _ hs _ hm htop => (of_mem_segments hs).1.ne_newline hm htop

/-- **Cutting again.** Segments of a script that end their lines, joined with one more at the end,
have themselves as segments. -/
theorem content_segments_of_sublist {t : Text} {kept : List Segment}
    (h : kept.Sublist (segments t)) (hl : ∀ s ∈ kept.dropLast, s.endsLine = true) :
    (segments (kept.flatMap Segment.text)).map Segment.content = kept.map Segment.content := by
  have hsub : (kept.map Segment.text).Sublist (pieces t) := map_text_segments t ▸ h.map _
  have hline : ∀ p ∈ (kept.map Segment.text).dropLast, p.getLast? = some '\n' := by
    intro p hp
    rw [← List.map_dropLast] at hp
    obtain ⟨s, hs, rfl⟩ := List.mem_map.1 hp
    exact of_decide_eq_true (hl s hs)
  have hpieces : ∀ p ∈ kept.map Segment.text, IsPiece p :=
    fun p hp => isPiece_of_mem_pieces (hsub.subset hp)
  rw [map_content_segments, contents_eq, List.flatMap_def,
    pieces_flatten hpieces (isChain_of_sublist_pieces hsub hline), List.map_map]
  refine List.map_congr_left fun s hs => ?_
  rw [Function.comp_apply, Segment.content, (of_mem_segments (h.subset hs)).2]

/-- **Segmenting is stable.** The segments of a script are a cut of it, and the script that is left
of some of them is cut into these, if each but the last one ends its line. -/
theorem segments_stable (t : Text) :
    IsSegmentation t (segments t)
      ∧ ∀ kept : List Segment, kept.Sublist (segments t) →
          (∀ s ∈ kept.dropLast, s.endsLine = true) →
          (segments (kept.flatMap Segment.text)).map Segment.content
            = kept.map Segment.content :=
  ⟨isSegmentation_segments t, fun _ => content_segments_of_sublist⟩

/-- A script with an open string, a quote mark in a comment, a template over two lines, two
statements on one line and no line feed at its end. -/
def tangledScript : Text :=
  "const s = 'a;\n// `\nconst t = `;\n`; f(s);\n\ng(\n);h(t)"

/-- The segments of the script that end their lines, without the comment. -/
def tangledLines : List Segment :=
  (segments tangledScript).filter fun s => s.endsLine && s.kind ≠ .comment

theorem segments_stable_tangledScript :
    (∀ s ∈ tangledLines.dropLast, s.endsLine = true)
      ∧ (segments "const s = 'a;\n f(s);\n\n").map Segment.content
        = [(SegmentKind.other, ("const s = 'a;\n" : Text)), (SegmentKind.other, (" f(s);\n" : Text)),
          (SegmentKind.blank, ("\n" : Text))] := by
  have hlines : ∀ s ∈ tangledLines.dropLast, s.endsLine = true := by decide
  have hsub : tangledLines.Sublist (segments tangledScript) := List.filter_sublist
  have hcut := (segments_stable tangledScript).2 tangledLines hsub hlines
  have htext : tangledLines.flatMap Segment.text = "const s = 'a;\n f(s);\n\n" := by decide
  have hcontent : tangledLines.map Segment.content
      = [(SegmentKind.other, ("const s = 'a;\n" : Text)), (SegmentKind.other, (" f(s);\n" : Text)),
        (SegmentKind.blank, ("\n" : Text))] := by decide
  rw [htext, hcontent] at hcut
  exact ⟨hlines, hcut⟩

end ElementModules.Script
