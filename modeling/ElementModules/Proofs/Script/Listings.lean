import ElementModules.Proofs.Script.Blanks
import ElementModules.Proofs.Script.Places

/-!
# Listings

A **listing** holds its entries one below the other. An entry is a balanced statement without blanks
at its end; an empty entry stands for a blank line. Each entry is a statement of the listing
(`pieces_listing`), whatever the entries around it are, and behind balanced entries the scan starts
anew (`endState_listing`).

The statements of a balanced script become entries when the blanks at their ends are cut off
(`Segment.IsCut.isEntry`), unless a quoted string is still open there.

## Main results

* `endState_listing`, `pieces_listing`, `contents_listing`, `statementContents_listing`: scanning a
  listing.
* `Segment.IsCut.isEntry`: statements as entries.
-/

namespace ElementModules.Script

open Text

/-- The entries one below the other. -/
def listing (ps : List Text) : Text := ps.flatMap (· ++ ['\n'])

@[simp] theorem listing_nil : listing [] = [] := rfl

@[simp] theorem listing_cons (p : Text) (ps : List Text) :
    listing (p :: ps) = p ++ ['\n'] ++ listing ps := rfl

@[simp] theorem listing_append (ps qs : List Text) :
    listing (ps ++ qs) = listing ps ++ listing qs :=
  List.flatMap_append

/-- Behind balanced entries the scan starts anew. -/
theorem endState_listing {ps : List Text} (h : ∀ p ∈ ps, isBalanced p = true) :
    endState (listing ps) = .start := by
  induction ps with
  | nil => rfl
  | cons p ps ih =>
    have hp := Closed.endState (.inl (closedBy_newline (h p List.mem_cons_self)))
    rw [listing_cons, endState_append, hp]
    exact ih fun q hq => h q (List.mem_cons_of_mem p hq)

/-- A listing of balanced entries is closed by its last line feed. -/
theorem closedBy_listing {ps : List Text} (h : ∀ p ∈ ps, isBalanced p = true) (hne : ps ≠ []) :
    ClosedBy '\n' (listing ps) := by
  obtain ⟨qs, p, rfl⟩ := (List.eq_nil_or_concat ps).resolve_left hne
  rw [List.concat_eq_append] at h ⊢
  rw [listing_append]
  refine .append (endState_listing fun q hq => h q (List.mem_append_left _ hq)) ?_
  rw [listing_cons, listing_nil, List.append_nil]
  exact closedBy_newline (h p (by simp))

/-! ### Entries -/

/-- A balanced statement without blanks at its end. -/
structure IsEntry (p : Text) : Prop where
  balanced : isBalanced p = true
  isPiece : IsPiece p
  last : ∀ c ∈ p.getLast?, isBlank c = false

namespace IsEntry

variable {p : Text} (h : IsEntry p)
include h

theorem ne_nil : p ≠ [] := h.isPiece.ne_nil

theorem trim_ne_nil : trim p ≠ [] := by
  rw [Ne, trim_eq_nil]
  intro hall
  obtain ⟨q, c, rfl⟩ := (List.eq_nil_or_concat p).resolve_left h.ne_nil
  rw [List.concat_eq_append] at h hall
  have hc := h.last c (by simp)
  rw [hall c (by simp)] at hc
  cases hc

theorem shape_ne_blank : shape p ≠ .blank := by
  have he : (trim p).isEmpty = false := List.isEmpty_eq_false_iff.2 h.trim_ne_nil
  rw [shape, kindOf, chars_marks, he]
  split
  · rename_i hf
    cases hf
  · split
    · intro hc
      cases hc
    · exact (statementKind_ne _).1

/-- An entry and its line feed are one statement. -/
theorem isPiece_newline : IsPiece (p ++ ['\n']) := by
  refine h.isPiece.append_newline fun hc => ?_
  have := h.last '\n' (by rw [hc.getLast?]; rfl)
  cases this

end IsEntry

/-- A line is an entry. -/
theorem IsLine.isEntry {w : Text} (h : IsLine w) : IsEntry w := by
  obtain ⟨ms, hms, -⟩ := h.marks_eq
  have hlast : w = chars ms ++ [';'] := by
    rw [← chars_marks w, hms, chars_append]
    rfl
  refine ⟨?_, ?_, ?_⟩
  · rw [isBalanced, h.settled]
    rfl
  · have hblank : ∀ c ∈ ['\n'], isBlank c = true := by simp only [List.mem_singleton, forall_eq]; rfl
    exact IsPiece.of_blanks (b := []) (by simp) hblank h.isPiece (by rw [hlast]; simp)
  · intro c hc
    rw [hlast, List.getLast?_concat] at hc
    obtain rfl := Option.some.inj hc
    rfl

section Pieces

variable {ps : List Text} (h : ∀ p ∈ ps, p = [] ∨ IsEntry p)
include h

theorem isBalanced_of_entries : ∀ p ∈ ps, isBalanced p = true := by
  intro p hp
  rcases h p hp with rfl | hp
  · rfl
  · exact hp.balanced

/-- **The statements of a listing** are its entries. -/
theorem pieces_listing : pieces (listing ps) = ps.map (· ++ ['\n']) := by
  induction ps with
  | nil => rfl
  | cons p ps ih =>
    have hp : IsPiece (p ++ ['\n']) := by
      rcases h p List.mem_cons_self with rfl | hp
      · exact (by decide : stretches (marks ['\n']) = [marks ['\n']])
      · exact hp.isPiece_newline
    have hclosed := closedBy_newline (isBalanced_of_entries h p List.mem_cons_self)
    rw [listing_cons, Seam.pieces_cons hp (.inl hclosed), List.map_cons,
      ih fun q hq => h q (List.mem_cons_of_mem p hq)]

theorem contents_listing : contents (listing ps) = ps.map fun p => (shape p, p ++ ['\n']) := by
  rw [contents_eq, pieces_listing h, List.map_map]
  refine List.map_congr_left fun p _ => ?_
  simp only [Function.comp_apply, shape_append_newline]

/-- Of the entries of a listing only the empty ones are no statements. -/
theorem statementContents_listing :
    statementContents (listing ps) = (ps.filter (· ≠ [])).map fun p => (shape p, p ++ ['\n']) := by
  rw [statementContents, contents_listing h, List.filter_map]
  refine congrArg (List.map _) (List.filter_congr fun p hp => ?_)
  rcases h p hp with rfl | he
  · rfl
  · simp [he.shape_ne_blank, he.ne_nil]

end Pieces

/-! ### Statements as entries -/

/-- The text of a segment without the blanks at its end, and maybe without those in front. -/
def Segment.IsCut (s : Segment) (p : Text) : Prop := p = trimEnd s.text ∨ p = trim s.text

namespace Segment.IsCut

variable {s : Segment} {p : Text} (h : s.IsCut p)
include h

/-- What is cut off are blanks. -/
theorem exists_blanks : ∃ b b', s.text = b ++ p ++ b' ∧ (∀ c ∈ b, isBlank c = true)
    ∧ ∀ c ∈ b', isBlank c = true := by
  rcases h with rfl | rfl
  · obtain ⟨b', he, hb'⟩ := exists_eq_trimEnd_blanks s.text
    exact ⟨[], b', he, by simp, hb'⟩
  · exact exists_eq_blanks_trim_blanks s.text

theorem trim_eq : trim p = s.trimmed := by
  obtain ⟨b, b', he, hb, hb'⟩ := h.exists_blanks
  rw [trimmed, he, trim_append_blanks _ hb', trim_blanks_append hb]

theorem getLast? : ∀ c ∈ p.getLast?, isBlank c = false := by
  rcases h with rfl | rfl <;> exact getLast?_trimEnd _

section Balanced

variable {t : Text} (hb : isBalanced s.text = true) (hq : closesQuotes t = true) (hs : s ∈ segments t)
include hb hq hs

theorem balanced_of_text : isBalanced p = true := by
  obtain ⟨b, b', he, hblank, hblank'⟩ := h.exists_blanks
  have hquo := closesQuotes_of_mem_segments hq hs
  rw [he] at hb hquo
  exact isBalanced_of_blanks hblank hblank' hb hquo

/-- **A balanced statement** is an entry without the blanks at its ends. -/
theorem isEntry_of_text (hk : s.kind ≠ .blank) : IsEntry p := by
  obtain ⟨b, b', he, hblank, hblank'⟩ := h.exists_blanks
  obtain ⟨hp, hshape⟩ := of_mem_segments hs
  rw [he] at hp
  refine ⟨h.balanced_of_text hb hq hs, IsPiece.of_blanks hblank hblank' hp ?_, h.getLast?⟩
  rintro rfl
  refine hk ?_
  have ht : trim s.text = [] := h.trim_eq.symm
  rw [hshape, shape, kindOf, chars_marks, ht]
  rfl

end Balanced

variable {t : Text} (hb : isBalanced t = true) (hq : closesQuotes t = true) (hs : s ∈ segments t)
include hb hq hs

theorem balanced : isBalanced p = true :=
  h.balanced_of_text (isBalanced_of_mem_segments hb hs) hq hs

/-- **The statements of a balanced script** are entries without the blanks at their ends. -/
theorem isEntry (hk : s.kind ≠ .blank) : IsEntry p :=
  h.isEntry_of_text (isBalanced_of_mem_segments hb hs) hq hs hk

end Segment.IsCut

/-- A statement that is cut keeps its shape, or it turns out to be a comment. -/
theorem Segment.IsCut.shape_eq {s : Segment} {p t : Text} (h : s.IsCut p) (hs : s ∈ segments t)
    (hk : s.kind ≠ .blank) : shape p = s.kind ∨ shape p = .comment := by
  obtain ⟨b, b', he, hblank, hblank'⟩ := h.exists_blanks
  obtain ⟨-, hshape⟩ := of_mem_segments hs
  have ht : trim (b ++ p ++ b') = trim p := he ▸ h.trim_eq.symm
  have hne : trim p ≠ [] := by
    intro hnil
    refine hk ?_
    rw [hshape, shape, kindOf, chars_marks, he, ht, hnil]
    rfl
  rw [hshape, he]
  exact shape_of_blanks hblank hblank' ht hne

end ElementModules.Script
