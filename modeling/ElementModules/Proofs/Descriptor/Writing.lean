import ElementModules.Proofs.Descriptor.Lines

/-!
# Writing a repair

A repair writes the segments of a module one after the other. Three things happen to a segment: it is
kept, it gives way to the canonical statements, or, if it is blank, at most one blank line is written
for it. At one segment the canonical statements are written, and in front of one the import of the
registry.

What has been written so far always **meets** the next segment: a statement ends between them
(`put_meets`). So whatever is read off texts statement by statement (`IsReading`) is read off the
repaired text segment by segment (`IsReading.foldl_put`, `IsReading.putCall`).

## Main results

* `put_meets`, `foldl_put_meets`: what is written meets what is left.
* `IsReading.foldl_put`, `IsReading.putCall`: readings of what is written.
* `Cut.foldl_write`: the repaired text, without indices.
-/

namespace ElementModules.Descriptor

open Text Script

/-! ### Line ends -/

theorem withLineEnd_cases (out : Text) :
    withLineEnd out = out ∧ (out = [] ∨ out.getLast? = some '\n')
      ∨ withLineEnd out = out ++ ['\n'] := by
  rw [withLineEnd]
  split
  · rename_i h
    simp only [Bool.or_eq_true, List.isEmpty_iff, decide_eq_true_eq] at h
    exact .inl ⟨rfl, h⟩
  · exact .inr rfl

theorem withBlankLine_cases (out : Text) :
    withBlankLine out = out ∧ (out = [] ∨ ['\n', '\n'] <:+ out)
      ∨ withBlankLine out = out ++ ['\n'] := by
  rw [withBlankLine]
  split
  · rename_i h
    simp only [Bool.or_eq_true, List.isEmpty_iff, List.isSuffixOf_iff_suffix] at h
    exact .inl ⟨rfl, h⟩
  · exact .inr rfl

/-- Nothing is written yet, or a statement ends behind what is written. -/
def IsFresh (out : Text) : Prop := out = [] ∨ Closed out

/-- Nothing is written yet, or a statement ends between what is written and the text. -/
def Meets (out t : Text) : Prop := out = [] ∨ Seam out t

theorem Meets.isFresh {out t : Text} (h : Meets out t) : IsFresh out :=
  h.imp id Seam.closed

theorem meets_of_closedBy {out : Text} (h : out = [] ∨ ClosedBy '\n' out) (t : Text) :
    Meets out t :=
  h.imp id .inl

theorem IsFresh.endState {out : Text} (h : IsFresh out) : endState out = .start := by
  rcases h with rfl | h
  · rfl
  · exact h.endState

theorem closedBy_of_getLast? {out : Text} (h : Closed out) (hl : out.getLast? = some '\n') :
    ClosedBy '\n' out := by
  rcases h with h | h
  · exact h
  · rw [h.getLast?] at hl
    exact absurd hl (by decide)

theorem IsFresh.withLineEnd {out : Text} (h : IsFresh out) :
    withLineEnd out = [] ∨ ClosedBy '\n' (withLineEnd out) := by
  rcases h with rfl | h
  · exact .inl rfl
  · rcases withLineEnd_cases out with ⟨he, rfl | hl⟩ | he
    · exact .inl he
    · exact .inr (by rw [he]; exact closedBy_of_getLast? h hl)
    · exact .inr (by rw [he]; exact closedBy_newline h.isBalanced)

theorem IsFresh.withBlankLine {out : Text} (h : IsFresh out) :
    withBlankLine out = [] ∨ ClosedBy '\n' (withBlankLine out) := by
  rcases h with rfl | h
  · exact .inl rfl
  · rcases withBlankLine_cases out with ⟨he, rfl | ⟨u, rfl⟩⟩ | he
    · exact .inl he
    · exact .inr (by rw [he]; exact closedBy_of_getLast? h (by simp))
    · exact .inr (by rw [he]; exact closedBy_newline h.isBalanced)

/-! ### Segments -/

/-- Writes a segment away from the call. -/
def put (receiver out : Text) (s : Segment) : Text :=
  if isSuperseded receiver s then if s.endsLine then withLineEnd out else out
  else if s.kind = .blank then withBlankLine out
  else out ++ s.text

/-- Writes a segment and the canonical statements. -/
def putCall (receiver canonical out : Text) (s : Segment) : Text :=
  withLineEnd (if isSuperseded receiver s then out
    else withBlankLine (withLineEnd (out ++ s.text))) ++ canonical

/-- What is written in front of a segment to import the registry. -/
def header (r : Registry) (s : Segment) : Text :=
  registryImport r ++ '\n' :: if s.kind = .importDecl then [] else ['\n']

/-- The import is a line, with a blank line behind it unless another import follows. -/
theorem header_cases (r : Registry) (s : Segment) :
    header r s = registryImport r ++ ['\n'] ∨ header r s = registryImport r ++ ['\n'] ++ ['\n'] := by
  rw [header]
  split
  · exact .inl rfl
  · exact .inr (by simp)

/-- What does not see a line feed at the end sees the import alone. -/
theorem header_induct {β : Type} {f : Text → β} (hf : ∀ t, f (t ++ ['\n']) = f t) (r : Registry)
    (s : Segment) : f (header r s) = f (registryImport r) := by
  rcases header_cases r s with h | h <;> rw [h]
  · exact hf _
  · rw [hf, hf]

/-- **What is written meets what is left.** -/
theorem put_meets {receiver out n : Text} {s : Segment} (h : Meets out s.text)
    (hs : Seam s.text n) : Meets (put receiver out s) n := by
  rw [put]
  split_ifs with hd he hb
  · exact meets_of_closedBy h.isFresh.withLineEnd n
  · have hn : continues (marks n) = true := by
      rcases hs with hs | ⟨-, hn⟩
      · exact absurd hs.getLast? (by simpa [Segment.endsLine] using he)
      · exact hn
    refine h.isFresh.imp id fun hc => ?_
    exact hc.imp id fun hc => ⟨hc, hn⟩
  · exact meets_of_closedBy h.isFresh.withBlankLine n
  · refine .inr (hs.imp ?_ (And.imp_left ?_)) <;> exact ClosedBy.append h.isFresh.endState

theorem foldl_put_meets {receiver out n : Text} {segs : List Segment}
    (hc : (segs.map Segment.text ++ [n]).IsChain Seam)
    (h : ∀ t ∈ (segs.map Segment.text ++ [n]).head?, Meets out t) :
    Meets (segs.foldl (put receiver) out) n := by
  induction segs generalizing out with
  | nil => exact h n rfl
  | cons s segs ih =>
    rw [List.map_cons, List.cons_append] at hc h
    have hs : Meets out s.text := h s.text rfl
    cases hm : segs.map Segment.text ++ [n] with
    | nil => simp at hm
    | cons t ts =>
      rw [hm, List.isChain_cons_cons] at hc
      refine ih (hm ▸ hc.2) fun u hu => ?_
      obtain rfl : t = u := by simpa [hm] using hu
      exact put_meets hs hc.1

/-! ### Readings -/

/-- What is read off texts statement by statement, so that a line feed behind a statement is not
seen. -/
structure IsReading {β : Type} (f : Text → List β) : Prop where
  nil : f [] = []
  append : ∀ {a b : Text}, Seam a b → f (a ++ b) = f a ++ f b
  newline : ∀ {a : Text}, Closed a → f (a ++ ['\n']) = f a

/-- What is read off a segment that is written away from the call. -/
def readKept {β : Type} (receiver : Text) (f : Text → List β) (s : Segment) : List β :=
  if isSuperseded receiver s || s.kind = .blank then [] else f s.text

namespace IsReading

variable {β : Type} {f : Text → List β} (hf : IsReading f)
include hf

theorem withLineEnd {out : Text} (h : IsFresh out) : f (withLineEnd out) = f out := by
  rcases h with rfl | h
  · rfl
  · rcases withLineEnd_cases out with ⟨he, -⟩ | he
    · rw [he]
    · rw [he, hf.newline h]

theorem withBlankLine {out : Text} (h : IsFresh out) : f (withBlankLine out) = f out := by
  rcases h with rfl | h
  · rfl
  · rcases withBlankLine_cases out with ⟨he, -⟩ | he
    · rw [he]
    · rw [he, hf.newline h]

theorem append_of_meets {out t : Text} (h : Meets out t) : f (out ++ t) = f out ++ f t := by
  rcases h with rfl | h
  · rw [hf.nil]
    rfl
  · exact hf.append h

theorem put {receiver out : Text} {s : Segment} (h : Meets out s.text) :
    f (put receiver out s) = f out ++ readKept receiver f s := by
  rw [Descriptor.put]
  by_cases hd : isSuperseded receiver s = true
  · have hk : readKept receiver f s = [] := by rw [readKept, if_pos (by simp [hd])]
    rw [if_pos hd, hk, List.append_nil]
    split
    · exact hf.withLineEnd h.isFresh
    · rfl
  · rw [if_neg hd]
    by_cases hb : s.kind = .blank
    · have hk : readKept receiver f s = [] := by rw [readKept, if_pos (by simp [hb])]
      rw [if_pos hb, hk, List.append_nil]
      exact hf.withBlankLine h.isFresh
    · have hk : readKept receiver f s = f s.text := by rw [readKept, if_neg (by simp [hd, hb])]
      rw [if_neg hb, hk]
      exact hf.append_of_meets h

/-- **Readings go segment by segment.** -/
theorem foldl_put {receiver out : Text} {segs : List Segment}
    (hc : (segs.map Segment.text).IsChain Seam)
    (h : ∀ s ∈ segs.head?, Meets out s.text) :
    f (segs.foldl (Descriptor.put receiver) out) = f out ++ segs.flatMap (readKept receiver f) := by
  induction segs generalizing out with
  | nil => simp
  | cons s segs ih =>
    have hs : Meets out s.text := h s rfl
    rw [List.foldl_cons, ih, hf.put hs, List.flatMap_cons, List.append_assoc]
    · exact hc.tail
    · intro n hn
      cases segs with
      | nil => cases hn
      | cons m segs =>
        obtain rfl : m = n := by simpa using hn
        rw [List.map_cons, List.map_cons, List.isChain_cons_cons] at hc
        exact put_meets hs hc.1

end IsReading

/-! ### The call -/

/-- A text with its last line ended and a blank line behind it. -/
def ended (z : Text) : Text := withBlankLine (withLineEnd z)

theorem getLast?_append_of_ne {out z : Text} (hz : z ≠ []) :
    (out ++ z).getLast? = z.getLast? := by
  obtain ⟨q, c, rfl⟩ := (List.eq_nil_or_concat z).resolve_left hz
  rw [List.concat_eq_append, ← List.append_assoc, List.getLast?_concat, List.getLast?_concat]

theorem withLineEnd_append {z : Text} (hz : z ≠ []) (out : Text) :
    withLineEnd (out ++ z) = out ++ withLineEnd z := by
  have hne := List.isEmpty_eq_false_iff.2 (List.append_ne_nil_of_right_ne_nil out hz)
  rw [withLineEnd, withLineEnd, getLast?_append_of_ne hz, hne, List.isEmpty_eq_false_iff.2 hz]
  split
  · rfl
  · rw [List.append_assoc]

theorem withBlankLine_append {z : Text} (hz : 2 ≤ z.length) (out : Text) :
    withBlankLine (out ++ z) = out ++ withBlankLine z := by
  have hne : z ≠ [] := by rintro rfl; simp at hz
  have hs : ['\n', '\n'].isSuffixOf (out ++ z) = ['\n', '\n'].isSuffixOf z := by
    rw [Bool.eq_iff_iff, List.isSuffixOf_iff_suffix, List.isSuffixOf_iff_suffix]
    refine ⟨fun h => ?_, fun h => h.trans (List.suffix_append out z)⟩
    exact List.suffix_of_suffix_length_le h (List.suffix_append out z) (by simpa using hz)
  have hne' := List.isEmpty_eq_false_iff.2 (List.append_ne_nil_of_right_ne_nil out hne)
  rw [withBlankLine, withBlankLine, hs, hne', List.isEmpty_eq_false_iff.2 hne]
  split
  · rfl
  · rw [List.append_assoc]

theorem two_le_length_withLineEnd {z : Text} (hz : z ≠ []) (hn : z ≠ ['\n']) :
    2 ≤ (withLineEnd z).length := by
  have hpos := List.length_pos_iff.2 hz
  rcases withLineEnd_cases z with ⟨he, rfl | hl⟩ | he
  · exact absurd rfl hz
  · rw [he]
    by_contra hlt
    obtain ⟨c, rfl⟩ := List.length_eq_one_iff.1 (by omega : z.length = 1)
    obtain rfl : c = '\n' := by simpa using hl
    exact hn rfl
  · rw [he, List.length_append, List.length_singleton]
    omega

/-- The end of a statement depends on the statement only. -/
theorem ended_append {z : Text} (hz : z ≠ []) (hn : z ≠ ['\n']) (out : Text) :
    withBlankLine (withLineEnd (out ++ z)) = out ++ ended z := by
  rw [withLineEnd_append hz, withBlankLine_append (two_le_length_withLineEnd hz hn)]
  rfl

theorem getLast?_ended {z : Text} (hz : z ≠ []) : (ended z).getLast? = some '\n' := by
  have hl : (withLineEnd z).getLast? = some '\n' := by
    rcases withLineEnd_cases z with ⟨he, rfl | hl⟩ | he
    · exact absurd rfl hz
    · rw [he, hl]
    · rw [he, List.getLast?_concat]
  rcases withBlankLine_cases (withLineEnd z) with ⟨he, -⟩ | he
  · rw [ended, he, hl]
  · rw [ended, he, List.getLast?_concat]

theorem exists_ended_append (z t : Text) (hz : z ≠ []) :
    ∃ a b, ended z ++ t = a ++ '\n' :: b ∧ (z = a ∨ z = a ++ ['\n']) := by
  have hlast : ∀ u : Text, u.getLast? = some '\n' → ∃ a, u = a ++ ['\n'] := by
    intro u hu
    obtain ⟨a, c, rfl⟩ := (List.eq_nil_or_concat u).resolve_left (by rintro rfl; cases hu)
    rw [List.concat_eq_append, List.getLast?_concat] at hu
    exact ⟨a, by rw [List.concat_eq_append, Option.some.inj hu]⟩
  rcases withLineEnd_cases z with ⟨he, rfl | hl⟩ | he
  · exact absurd rfl hz
  · obtain ⟨a, rfl⟩ := hlast z hl
    rcases withBlankLine_cases (a ++ ['\n']) with ⟨hb, -⟩ | hb
    · exact ⟨a, t, by rw [ended, he, hb]; simp, .inr rfl⟩
    · exact ⟨a, '\n' :: t, by rw [ended, he, hb]; simp, .inr rfl⟩
  · rcases withBlankLine_cases (z ++ ['\n']) with ⟨hb, -⟩ | hb
    · exact ⟨z, t, by rw [ended, he, hb]; simp, .inl rfl⟩
    · exact ⟨z, '\n' :: t, by rw [ended, he, hb]; simp, .inl rfl⟩

/-- Ending a statement does not change what stands in front of it. -/
theorem meets_ended {out z : Text} (hz : z ≠ []) (h : Meets out z) (t : Text) :
    Meets out (ended z ++ t) := by
  refine h.imp id (Or.imp id (And.imp_right fun hc => ?_))
  obtain ⟨a, b, he, rfl | rfl⟩ := exists_ended_append z t hz
  · rwa [he, continues_append_newline]
  · rwa [he, continues_append_newline, ← continues_append_newline a []]

theorem putCall_of_superseded {receiver canonical out : Text} {s : Segment}
    (h : isSuperseded receiver s = true) :
    putCall receiver canonical out s = withLineEnd out ++ canonical := by
  rw [putCall, if_pos h]

theorem putCall_of_kept {receiver canonical out : Text} {s : Segment}
    (h : isSuperseded receiver s = false) (hz : s.text ≠ []) (hn : s.text ≠ ['\n']) :
    putCall receiver canonical out s = out ++ (ended s.text ++ canonical) := by
  have hl : withLineEnd (out ++ ended s.text) = out ++ ended s.text := by
    have hne : ended s.text ≠ [] := by
      intro he
      have := getLast?_ended hz
      rw [he] at this
      cases this
    rw [withLineEnd, getLast?_append_of_ne hne, getLast?_ended hz, if_pos (by simp)]
  rw [putCall, if_neg (by simp [h]), ended_append hz hn, hl, List.append_assoc]

/-- What is read off the segment at which the call is written. -/
def readCall {β : Type} (receiver canonical : Text) (f : Text → List β) (s : Segment) : List β :=
  if isSuperseded receiver s then f canonical else f (ended s.text ++ canonical)

/-- A text that begins with a line. -/
def StartsWithLine (t : Text) : Prop := ∃ w u, t = w ++ '\n' :: u ∧ IsLine w

theorem StartsWithLine.meets {t out : Text} (h : StartsWithLine t) (ho : IsFresh out) :
    Meets out t := by
  obtain ⟨w, u, rfl, hw⟩ := h
  exact ho.imp id fun hc => hw.seam hc u

theorem IsReading.putCall {β : Type} {f : Text → List β} (hf : IsReading f)
    {receiver canonical out : Text} {s : Segment} (hc : StartsWithLine canonical)
    (h : Meets out s.text) (hz : s.text ≠ []) (hn : s.text ≠ ['\n']) :
    f (putCall receiver canonical out s) = f out ++ readCall receiver canonical f s := by
  rw [readCall]
  cases hd : isSuperseded receiver s
  · rw [putCall_of_kept hd hz hn, if_neg (by simp), hf.append_of_meets (meets_ended hz h _)]
  · have hm : Meets (Descriptor.withLineEnd out) canonical :=
      hc.meets (h.isFresh.withLineEnd.imp id .inl)
    rw [putCall_of_superseded hd, if_pos rfl, hf.append_of_meets hm, hf.withLineEnd h.isFresh]

/-- A balanced statement is closed by a line feed once it is ended. -/
theorem closedBy_ended {z : Text} (h : isBalanced z = true) (hz : z ≠ []) :
    ClosedBy '\n' (ended z) := by
  have hl : ClosedBy '\n' (withLineEnd z) := by
    rcases withLineEnd_cases z with ⟨he, rfl | hl⟩ | he
    · exact absurd rfl hz
    · rw [he]
      exact closedBy_of_isBalanced h hl
    · rw [he]
      exact closedBy_newline h
  refine (IsFresh.withBlankLine (.inr (.inl hl))).resolve_left fun he => ?_
  have := getLast?_ended hz
  rw [ended, he] at this
  cases this

/-- Behind a balanced statement the canonical statements are read on their own. -/
theorem IsReading.readCall {β : Type} {f : Text → List β} (hf : IsReading f)
    {receiver canonical : Text} {s : Segment} (hc : StartsWithLine canonical)
    (h : isBalanced s.text = true) (hz : s.text ≠ []) (he : f (ended s.text) = f s.text) :
    readCall receiver canonical f s
      = (if isSuperseded receiver s then [] else f s.text) ++ f canonical := by
  rw [Descriptor.readCall]
  split
  · rfl
  · rw [hf.append_of_meets (hc.meets (.inr (.inl (closedBy_ended h hz)))), he]

/-- The canonical statements leave the scan outside all brackets behind a closed statement. -/
theorem putCall_closedBy (receiver : Text) {canonical out : Text} {s : Segment}
    (hc : ClosedBy '\n' canonical) (ho : IsFresh out) (h : Closed s.text)
    (hn : s.text ≠ ['\n']) : ClosedBy '\n' (putCall receiver canonical out s) := by
  cases hd : isSuperseded receiver s
  · rw [putCall_of_kept hd h.ne_nil hn]
    have he := closedBy_ended h.isBalanced h.ne_nil
    exact .append ho.endState (.append (Closed.endState (.inl he)) hc)
  · rw [putCall_of_superseded hd]
    exact .append (IsFresh.endState (ho.withLineEnd.imp id .inl)) hc

/-! ### The repaired text without indices -/

/-- How the segments of a module are cut: the import is written behind `lead`, and the call at
`site`. -/
structure Cut (p : RepairPlan) (lead mid : List Segment) (site : Segment) (intro : Text) : Prop where
  anchor_eq : p.anchor = lead.length + mid.length
  importAt_eq : p.importAt = none ∧ lead = [] ∧ intro = []
    ∨ p.importAt = some lead.length ∧ ∃ s ∈ (mid ++ [site]).head?, intro = header p.registry s

/-- The text with the call and everything in front of it. -/
def writtenCall (p : RepairPlan) (lead mid : List Segment) (site : Segment) (intro : Text) : Text :=
  putCall p.registry.receiver p.canonical
    (mid.foldl (put p.registry.receiver) (lead.foldl (put p.registry.receiver) [] ++ intro)) site

theorem write_eq_put {p : RepairPlan} {i : Nat} (ha : i ≠ p.anchor) (hi : p.importAt ≠ some i)
    (out : Text) (s : Segment) : p.write out (s, i) = put p.registry.receiver out s := by
  rw [RepairPlan.write, RepairPlan.writeImport, if_neg hi, RepairPlan.writeSegment, if_neg ha]
  rfl

theorem write_anchor {p : RepairPlan} (hi : p.importAt ≠ some p.anchor) (out : Text)
    (s : Segment) :
    p.write out (s, p.anchor) = putCall p.registry.receiver p.canonical out s := by
  rw [RepairPlan.write, RepairPlan.writeImport, if_neg hi, RepairPlan.writeSegment, if_pos rfl]
  rfl

theorem writeImport_eq {p : RepairPlan} {i : Nat} (hi : p.importAt = some i) (out : Text)
    (s : Segment) : p.writeImport out s i = out ++ header p.registry s := by
  rw [RepairPlan.writeImport, if_pos hi, header]
  simp

theorem foldl_write_eq_foldl_put {p : RepairPlan} {segs : List Segment} {k : Nat}
    (h : ∀ i, k ≤ i → i < k + segs.length → i ≠ p.anchor ∧ p.importAt ≠ some i) (out : Text) :
    (segs.zipIdx k).foldl p.write out = segs.foldl (put p.registry.receiver) out := by
  induction segs generalizing k out with
  | nil => rfl
  | cons s segs ih =>
    obtain ⟨ha, hi⟩ := h k (Nat.le_refl k) (by simp)
    rw [List.zipIdx_cons, List.foldl_cons, List.foldl_cons, write_eq_put ha hi]
    refine ih (fun i hk hlt => h i (by omega) ?_) _
    rw [List.length_cons]
    omega

/-- The import and the segments up to the one at which the call is written. -/
theorem Cut.foldl_write_mid {p : RepairPlan} {lead mid : List Segment} {site : Segment}
    {intro : Text} (h : Cut p lead mid site intro) (out : Text) :
    p.write ((mid.zipIdx lead.length).foldl p.write out) (site, lead.length + mid.length)
      = putCall p.registry.receiver p.canonical
          (mid.foldl (put p.registry.receiver) (out ++ intro)) site := by
  rcases h.importAt_eq with ⟨hi, -, rfl⟩ | ⟨hi, s, hs, rfl⟩
  · rw [foldl_write_eq_foldl_put, ← h.anchor_eq, write_anchor (by simp [hi]), List.append_nil]
    intro i _ hlt
    exact ⟨by have := h.anchor_eq; omega, by simp [hi]⟩
  · cases mid with
    | nil =>
      obtain rfl : site = s := by simpa using hs
      have ha : p.anchor = lead.length := h.anchor_eq
      rw [List.length_nil, Nat.add_zero, List.zipIdx_nil, List.foldl_nil, List.foldl_nil,
        RepairPlan.write, writeImport_eq hi, RepairPlan.writeSegment, if_pos ha.symm]
      rfl
    | cons m mid =>
      obtain rfl : m = s := by simpa using hs
      have ha : p.anchor = lead.length + (mid.length + 1) := h.anchor_eq
      have hm : p.write out (m, lead.length)
          = put p.registry.receiver (out ++ header p.registry m) m := by
        rw [RepairPlan.write, writeImport_eq hi, RepairPlan.writeSegment, if_neg (by omega)]
        rfl
      rw [List.zipIdx_cons, List.foldl_cons, List.foldl_cons, hm, foldl_write_eq_foldl_put,
        List.length_cons, ← ha, write_anchor]
      · rw [hi, ha]
        simp
      · intro i hk hlt
        exact ⟨by omega, by rw [hi]; simp; omega⟩

/-- **The repaired text, without indices.** -/
theorem Cut.foldl_write {p : RepairPlan} {lead mid : List Segment} {site : Segment} {intro : Text}
    (h : Cut p lead mid site intro) (rest : List Segment) :
    ((lead ++ mid ++ site :: rest).zipIdx).foldl p.write []
      = rest.foldl (put p.registry.receiver) (writtenCall p lead mid site intro) := by
  have ha := h.anchor_eq
  have hi : p.importAt = none ∧ lead = [] ∨ p.importAt = some lead.length :=
    h.importAt_eq.imp (fun hn => ⟨hn.1, hn.2.1⟩) And.left
  have hlead : lead.zipIdx.foldl p.write [] = lead.foldl (put p.registry.receiver) [] := by
    refine foldl_write_eq_foldl_put (fun i _ hlt => ⟨by omega, ?_⟩) []
    rcases hi with ⟨hi, -⟩ | hi
    · simp [hi]
    · rw [hi]
      simp
      omega
  rw [List.zipIdx_append, List.zipIdx_append, List.zipIdx_cons, List.foldl_append,
    List.foldl_append, List.foldl_cons, hlead, Nat.zero_add, Nat.zero_add, List.length_append,
    h.foldl_write_mid, foldl_write_eq_foldl_put]
  · rfl
  · intro i hk hlt
    refine ⟨by omega, ?_⟩
    rcases hi with ⟨hi, -⟩ | hi
    · simp [hi]
    · rw [hi]
      simp
      omega

end ElementModules.Descriptor
