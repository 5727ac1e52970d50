import ElementModules.Proofs.Script.Declaring
import ElementModules.Proofs.Script.Listings
import ElementModules.Proofs.Script.Openings

/-!
# Statements without a part in what follows

A head may begin in a statement and end in a later one, since a head is read across line breaks. A
statement is **inert** if the first head below it is found as if the statement were not there. A
statement in which no binding starts is inert (`isInert_of_isQuiet`). So is one without a head of its
own unless a head may go on behind it (`isInert_of_leavesHead`): all of a head up to its brace is
wordy code.

## Main results

* `isInert_of_leavesHead`: statements with an end that is no part of a head.
* `firstHead_listing`: inert entries have no part in the first head.
-/

namespace ElementModules.Script

open Text

/-! ### Quiet marks -/

theorem isQuiet_append {a b : List Mark} (ha : IsQuiet a) (hb : IsQuiet b) : IsQuiet (a ++ b) :=
  fun m hm => (List.mem_append.1 hm).elim (ha m) (hb m)

theorem isQuiet_of_not_word {ms : List Mark}
    (h : ∀ m ∈ ms, m.isTopLevel = true → m.char ≠ 'e' ∧ m.char ≠ 'c' ∧ m.char ≠ 'l' ∧ m.char ≠ 'v') :
    IsQuiet ms := by
  intro m hm before
  rw [mayStartBinding]
  cases ht : m.isTopLevel
  · simp
  · obtain ⟨he, hc, hl, hv⟩ := h m hm ht
    simp [he, hc, hl, hv]

/-- No binding starts in a comment. -/
theorem isQuiet_of_comment {p : Text} (h : shape p = .comment) : IsQuiet (marks p) := by
  refine isQuiet_of_not_word fun m hm ht => ?_
  rcases blank_or_comment_of_shape h m hm with hb | hl
  · refine ⟨?_, ?_, ?_, ?_⟩ <;> rintro hc <;> rw [hc] at hb <;> cases hb
  · simp [Mark.isTopLevel, Mark.isCode, hl] at ht

/-! ### Inert statements -/

/-- A balanced text and the text below it. -/
theorem marks_append_line {p : Text} (hb : isBalanced p = true) (r : Text) :
    marks (p ++ '\n' :: r) = marks p ++ ⟨'\n', .code, 0⟩ :: marks r := by
  have h := Closed.marks_append (.inl (closedBy_newline hb)) r
  rw [marks_concat (State.isTopLevelAt_newline hb) (by decide), List.append_assoc,
    List.append_assoc] at h
  exact h

/-- A text without a part in the first head below it. -/
def IsInert (p : Text) : Prop :=
  ∀ r, firstHead none (marks (p ++ '\n' :: r)) = firstHead none (marks r)

theorem firstHead_newline (before : Option Char) (ms : List Mark) :
    firstHead before (⟨'\n', .code, 0⟩ :: ms) = firstHead none ms := by
  have hquiet : startsBinding before (⟨'\n', .code, 0⟩ :: ms) = false := rfl
  rw [firstHead, if_neg (by simp [hquiet])]
  have hword : Token.startsWord (some '\n') = Token.startsWord none := rfl
  exact firstHead_congr hword ms

theorem isInert_nil : IsInert [] := fun r => firstHead_newline none (marks r)

/-- A statement in which no binding starts is inert. -/
theorem isInert_of_isQuiet {p : Text} (hb : isBalanced p = true) (hq : IsQuiet (marks p)) :
    IsInert p := by
  intro r
  have hquiet : IsQuiet (marks p ++ [⟨'\n', .code, 0⟩]) := by
    refine isQuiet_append hq fun m hm before => ?_
    rw [List.mem_singleton.1 hm]
    rfl
  rw [marks_append_line hb, ← List.singleton_append, ← List.append_assoc]
  refine firstHead_quiet_append hquiet (fun m hm => ?_) (by simp) _
  rw [List.getLast?_concat] at hm
  rw [← Option.some.inj hm]
  rfl

/-- Whether a head that begins in a text may go on behind it. -/
def leavesHead (t : Text) : Bool := (marks t).getLast?.any fun m => m.isCode && isWordy m.char

/-- **A statement without a head** is inert if no head can go on behind it. -/
theorem isInert_of_leavesHead {p : Text} (hb : isBalanced p = true)
    (hd : firstHead none (marks p) = []) (hl : leavesHead p = false) : IsInert p := by
  intro r
  have hm := marks_append_line hb r
  rcases firstHead_append_cases none (marks p) (⟨'\n', .code, 0⟩ :: marks r) with
    ⟨w, hw, h⟩ | h
  · -- a head that begins in the statement does not end there, so all of it is wordy code
    exfalso
    have hbrace : '\x7b' ∉ chars w := fun hin => hw (firstHead_of_append h hin ▸ hd)
    have hwordy := wordy_of_firstHead (hm ▸ h) hbrace
    obtain ⟨q, hq⟩ := firstHead_suffix none (marks p ++ ⟨'\n', .code, 0⟩ :: marks r)
    rw [h, ← List.append_assoc] at hq
    replace hq := List.append_cancel_right hq
    obtain ⟨w', m, rfl⟩ := (List.eq_nil_or_concat w).resolve_left hw
    rw [List.concat_eq_append] at hq hwordy
    have hlast : (marks p).getLast? = some m := by
      rw [← hq, ← List.append_assoc, List.getLast?_concat]
    obtain ⟨hc, hc'⟩ := hwordy m (by simp)
    rw [leavesHead, hlast, Option.any_some, hc, hc'] at hl
    cases hl
  · rw [hm, h, firstHead_newline]

/-- **Inert entries** have no part in the first head. -/
theorem firstHead_listing {ps : List Text} (h : ∀ p ∈ ps, IsInert p) (r : Text) :
    firstHead none (marks (listing ps ++ r)) = firstHead none (marks r) := by
  induction ps with
  | nil => rfl
  | cons p ps ih =>
    rw [listing_cons, List.append_assoc, List.append_assoc]
    exact (h p List.mem_cons_self _).trans (ih fun q hq => h q (List.mem_cons_of_mem p hq))

/-- Behind inert entries the same is declared as on its own. -/
theorem declaration?_listing_append {ps : List Text} (h : ∀ p ∈ ps, IsInert p) (r : Text) :
    declaration? (listing ps ++ r) = declaration? r := by
  rw [declaration?_eq, firstHead_listing h, ← declaration?_eq]

/-! ### Statements without the blanks at their ends -/

theorem isQuiet_blanks {b : Text} (hb : ∀ c ∈ b, isBlank c = true) (d : Nat) :
    IsQuiet (codeMarks d b) := by
  refine isQuiet_of_not_word fun m hm _ => ?_
  obtain ⟨c, hc, rfl⟩ := List.mem_map.1 hm
  have hblank := hb c hc
  refine ⟨?_, ?_, ?_, ?_⟩ <;> rintro rfl <;> cases hblank

/-- Blanks in front of marks do not change their first head. -/
theorem firstHead_blanks_append {b : Text} (hb : ∀ c ∈ b, isBlank c = true) (d : Nat)
    (ms : List Mark) : firstHead none (codeMarks d b ++ ms) = firstHead none ms := by
  refine firstHead_quiet_append (isQuiet_blanks hb d) (fun m hm => ?_) (fun _ => rfl) ms
  obtain ⟨c, hc, rfl⟩ := List.mem_map.1 (List.mem_of_mem_getLast? hm)
  have hblank := hb c hc
  have hdot : c ≠ '.' := by
    rintro rfl
    cases hblank
  have hname : Token.isNameChar c = false := by
    by_contra hn
    rw [isBlank_of_isNameChar (by simpa using hn)] at hblank
    cases hblank
  simp [Token.startsWord, hname, hdot]

theorem IsInert.blanks_append {b p : Text} (hb : ∀ c ∈ b, isBlank c = true) (h : IsInert p) :
    IsInert (b ++ p) := by
  intro r
  have hplain := (Scans.plain (fun c hc => isPlain_of_isBlank (hb c hc)) []).marks (p ++ '\n' :: r)
  have hmarks : marks (b ++ (p ++ '\n' :: r)) = codeMarks 0 b ++ marks (p ++ '\n' :: r) := hplain
  rw [List.append_assoc, hmarks, firstHead_blanks_append hb]
  exact h r

/-- A statement without a head has none when the blanks at its ends are cut off. -/
theorem firstHead_of_blanks {b p b' : Text} (hb : ∀ c ∈ b, isBlank c = true)
    (hb' : ∀ c ∈ b', isBlank c = true) (h : firstHead none (marks (b ++ p ++ b')) = []) :
    firstHead none (marks p) = [] := by
  by_contra hne
  rw [marks_of_blanks hb hb', firstHead_blanks_append hb, firstHead_append hne] at h
  exact hne (List.append_eq_nil_iff.1 h).1

/-- **A statement that declares nothing** is inert without the blanks at its ends, if no head can go
on behind it. -/
theorem Segment.IsCut.isInert {s : Segment} {p t : Text} (h : s.IsCut p) (hb : isBalanced t = true)
    (hq : closesQuotes t = true) (hs : s ∈ segments t) (hd : declaration? s.text = none)
    (hl : leavesHead s.trimmed = false) : IsInert p := by
  have htrim : IsInert s.trimmed := by
    have hcut : s.IsCut s.trimmed := .inr rfl
    refine isInert_of_leavesHead (hcut.balanced hb hq hs) ?_ hl
    obtain ⟨b, b', he, hblank, hblank'⟩ := hcut.exists_blanks
    refine firstHead_of_blanks hblank hblank' ?_
    by_contra hne
    rw [← he, ← Ne, ← declaration?_isSome_iff, hd] at hne
    cases hne
  obtain ⟨b, b', he, hblank, hblank'⟩ := exists_eq_blanks_trim_blanks p
  have hend : b' = [] := by
    by_contra hne
    obtain ⟨u, c, hu⟩ := (List.eq_nil_or_concat b').resolve_left hne
    rw [List.concat_eq_append] at hu
    have hlast : p.getLast? = some c := by
      rw [he, hu, ← List.append_assoc, List.getLast?_concat]
    have hc := h.getLast? c hlast
    rw [hblank' c (by rw [hu]; simp)] at hc
    cases hc
  rw [he, hend, List.append_nil, h.trim_eq]
  exact htrim.blanks_append hblank

end ElementModules.Script
