import ElementModules.Proofs.Descriptor.Drafting
import ElementModules.Proofs.Script.Inert
import Mathlib.Data.List.Basic

/-!
# The first literal of a repaired text

What a repair leaves out or adds can touch the first literal: the canonical statements may cut its
head in two, and the head of an earlier statement may be completed when the lines between its parts
are left out. Blank lines and the import are of no account. So what a repaired text declares is
declared by the **bare repair**, in which only the statements that stay and the canonical ones stand
(`repair_declaration`). If the segments up to the end of the first literal stay as they are, this is
what the module declared.

## Main results

* `declaration?_repair`: a repaired text declares what the bare repair declares.
* `repair_declaration`: when a repair leaves the first literal in place.
-/

namespace ElementModules.Descriptor

open Text Script

/-- Squeezed marks are read statement by statement. -/
theorem isReading_squeezed : IsReading squeezed where
  nil := rfl
  append h := h.closed.squeezed_append _
  newline h := h.squeezed_append_newline

/-- The text of the segments that stay in place, without blank lines. -/
def keptText (receiver : Text) (segs : List Segment) : Text :=
  segs.flatMap (readKept receiver id)

/-- What a repair writes, without blank lines and without the import. -/
def bareRepair (c : Context) (l : ObjectLiteral) (t : Text) : Text :=
  let segs := segments t
  let anchor := (repairPlan c l segs).anchor
  keptText c.registry.receiver (segs.take anchor) ++ match segs.drop anchor with
    | [] => canonicalStatements c l
    | site :: rest =>
      putCall c.registry.receiver (canonicalStatements c l) [] site
        ++ keptText c.registry.receiver rest

section Kept

variable {receiver : Text}

theorem keptText_append (receiver : Text) (a b : List Segment) :
    keptText receiver (a ++ b) = keptText receiver a ++ keptText receiver b :=
  List.flatMap_append

theorem keptText_cons (receiver : Text) (s : Segment) (segs : List Segment) :
    keptText receiver (s :: segs) = readKept receiver id s ++ keptText receiver segs :=
  List.flatMap_cons

/-- What stays of a segment is its text or nothing. -/
theorem readKept_cases {β : Type} (f : Text → List β) (receiver : Text) (s : Segment) :
    readKept receiver id s = [] ∧ readKept receiver f s = []
      ∨ readKept receiver id s = s.text ∧ readKept receiver f s = f s.text := by
  rw [readKept, readKept]
  split
  · exact .inl ⟨rfl, rfl⟩
  · exact .inr ⟨rfl, rfl⟩

theorem isFresh_keptText {segs : List Segment} (h : ∀ s ∈ segs, Closed s.text) :
    IsFresh (keptText receiver segs) := by
  induction segs with
  | nil => exact .inl rfl
  | cons s segs ih =>
    have hrest := ih fun x hx => h x (List.mem_cons_of_mem s hx)
    have hs := h s List.mem_cons_self
    rw [keptText_cons]
    rcases readKept_cases id receiver s with ⟨he, -⟩ | ⟨he, -⟩ <;> rw [he]
    · exact hrest
    · rcases hrest with hr | hr
      · rw [hr, List.append_nil]
        exact .inr hs
      · exact .inr (hr.imp (.append hs.endState) (.append hs.endState))

theorem squeezed_keptText_append {segs : List Segment} (h : ∀ s ∈ segs, Closed s.text) (b : Text) :
    squeezed (keptText receiver segs ++ b)
      = segs.flatMap (readKept receiver squeezed) ++ squeezed b := by
  induction segs with
  | nil => rfl
  | cons s segs ih =>
    have hrest := ih fun x hx => h x (List.mem_cons_of_mem s hx)
    rw [keptText_cons, List.flatMap_cons, List.append_assoc]
    rcases readKept_cases squeezed receiver s with ⟨he, hf⟩ | ⟨he, hf⟩ <;> rw [he, hf]
    · exact hrest
    · rw [(h s List.mem_cons_self).squeezed_append, hrest, List.append_assoc]

theorem squeezed_keptText {segs : List Segment} (hc : (segs.map Segment.text).IsChain Seam) :
    squeezed (keptText receiver segs) = segs.flatMap (readKept receiver squeezed) := by
  induction segs with
  | nil => rfl
  | cons s segs ih =>
    rw [keptText_cons, List.flatMap_cons]
    rcases readKept_cases squeezed receiver s with ⟨he, hf⟩ | ⟨he, hf⟩ <;> rw [he, hf]
    · exact ih hc.tail
    · cases segs with
      | nil => simp [keptText]
      | cons n segs =>
        rw [List.map_cons, List.map_cons, List.isChain_cons_cons] at hc
        rw [hc.1.closed.squeezed_append, ih hc.2]

/-- Segments in front of another one are closed. -/
theorem closed_of_isChain {segs : List Segment} {n : Text} {ns : List Text}
    (hc : (segs.map Segment.text ++ n :: ns).IsChain Seam) : ∀ s ∈ segs, Closed s.text := by
  induction segs with
  | nil => exact fun s hs => absurd hs List.not_mem_nil
  | cons s segs ih =>
    intro x hx
    rw [List.map_cons, List.cons_append] at hc
    rcases List.mem_cons.1 hx with rfl | hx
    · cases segs with
      | nil => exact (List.isChain_cons_cons.1 hc).1.closed
      | cons y segs => exact (List.isChain_cons_cons.1 hc).1.closed
    · exact ih hc.tail x hx

end Kept

/-! ### The import -/

/-- No binding starts in the import of the registry. -/
theorem isQuiet_registryImport {r : Registry} (hr : isName r.receiver = true) :
    IsQuiet (marks (registryImport r)) := by
  have hm := ((scans_registryImport hr r.importPath).append .semicolon).marks_eq
  rw [← registryImport_eq] at hm
  rw [hm]
  refine isQuiet_of_not_word fun m hm ht => ?_
  simp only [List.mem_append, codeMarks, literalMarks, List.mem_map] at hm
  have hw : ∀ c ∈ ("import " : Text) ++ ['\x7b'] ++ (" from " : Text) ++ [';'],
      c ≠ 'e' ∧ c ≠ 'c' ∧ c ≠ 'l' ∧ c ≠ 'v' := List.all_iff_forall_prop.1 (by decide)
  simp only [List.mem_append] at hw
  rcases hm with (((((⟨c, hc, rfl⟩ | ⟨c, hc, rfl⟩) | ⟨c, hc, rfl⟩) | ⟨c, hc, rfl⟩) | ⟨c, hc, rfl⟩)
    | ⟨c, hc, rfl⟩) | ⟨c, hc, rfl⟩
  · exact hw c (.inl (.inl (.inl hc)))
  · exact hw c (.inl (.inl (.inr hc)))
  · simp [Mark.isTopLevel] at ht
  · simp [Mark.isTopLevel] at ht
  · exact hw c (.inl (.inr hc))
  · simp [Mark.isTopLevel, Mark.isCode] at ht
  · exact hw c (.inr hc)

/-- No binding starts in what is written for a missing import. -/
theorem isQuiet_header {r : Registry} (hr : isName r.receiver = true) (s : Segment) :
    IsQuiet (marks (header r s)) := by
  have hq := isQuiet_registryImport hr
  have hn : IsQuiet [⟨'\n', .code, 0⟩] := by
    refine isQuiet_of_not_word fun m hm _ => ?_
    obtain rfl := List.mem_singleton.1 hm
    decide
  have hline := (isLine_registryImport hr).closedBy
  have hmark := (isLine_registryImport hr).marks_newline
  rcases header_cases r s with h | h <;> rw [h]
  · rw [hmark]
    exact isQuiet_append hq hn
  · rw [Closed.marks_append (.inl hline), hmark]
    exact isQuiet_append (isQuiet_append hq hn) hn

theorem isQuiet_keptText (receiver : Text) {segs : List Segment} (h : ∀ s ∈ segs, Closed s.text)
    (hk : ∀ s ∈ segs, s.kind = .blank ∨ s.kind = .comment) (hs : ∀ s ∈ segs, s.kind = shape s.text) :
    IsQuiet (marks (keptText receiver segs)) := by
  induction segs with
  | nil => exact fun m hm => absurd hm List.not_mem_nil
  | cons s segs ih =>
    have hrest := ih (fun x hx => h x (List.mem_cons_of_mem s hx))
      (fun x hx => hk x (List.mem_cons_of_mem s hx)) (fun x hx => hs x (List.mem_cons_of_mem s hx))
    rw [keptText_cons]
    rcases hk s List.mem_cons_self with hb | hc
    · have he : readKept receiver id s = [] := by rw [readKept, if_pos (by simp [hb])]
      rw [he]
      exact hrest
    · rcases readKept_cases id receiver s with ⟨he, -⟩ | ⟨he, -⟩ <;> rw [he]
      · exact hrest
      · rw [(h s List.mem_cons_self).marks_append]
        exact isQuiet_append (isQuiet_of_comment (by rw [← hs s List.mem_cons_self, hc])) hrest

/-! ### The bare repair -/

section Draft

variable {c : Context} {t : Text} {l : ObjectLiteral} {lead mid rest : List Segment}
  {site : Segment} {intro : Text}

/-- What the bare repair writes from the segment of the import on. -/
def bareRest (c : Context) (l : ObjectLiteral) (mid : List Segment) (site : Segment)
    (rest : List Segment) : Text :=
  keptText c.registry.receiver mid
    ++ (putCall c.registry.receiver (canonicalStatements c l) [] site
      ++ keptText c.registry.receiver rest)

theorem Planned.bareRepair_eq (h : Planned c l t lead mid site rest intro) :
    bareRepair c l t = keptText c.registry.receiver lead ++ bareRest c l mid site rest := by
  have ha : (repairPlan c l (segments t)).anchor = (lead ++ mid).length := by
    rw [h.cut.anchor_eq, List.length_append]
  have htake : (segments t).take (lead ++ mid).length = lead ++ mid := by
    rw [h.segments_eq, List.take_left]
  have hdrop : (segments t).drop (lead ++ mid).length = site :: rest := by
    rw [h.segments_eq, List.drop_left]
  simp only [bareRepair, ha, htake, hdrop, keptText_append, bareRest, List.append_assoc]

theorem Planned.closed_front (h : Planned c l t lead mid site rest intro) :
    ∀ s ∈ lead ++ mid, Closed s.text := by
  have hc := isChain_text_segments t
  rw [h.segments_eq, List.map_append, List.map_cons] at hc
  exact closed_of_isChain hc

theorem Planned.squeezed_bareRest (h : Planned c l t lead mid site rest intro)
    (hr : isName c.registry.receiver = true) (hl : firstLiteral? t = some l) :
    squeezed (bareRest c l mid site rest)
      = mid.flatMap (readKept c.registry.receiver squeezed)
        ++ readCall c.registry.receiver (canonicalStatements c l) squeezed site
        ++ rest.flatMap (readKept c.registry.receiver squeezed) := by
  obtain ⟨-, hz, hn⟩ := h.site_text
  have hcall : squeezed (putCall c.registry.receiver (canonicalStatements c l) [] site)
      = readCall c.registry.receiver (canonicalStatements c l) squeezed site :=
    isReading_squeezed.putCall (startsWithLine_canonicalStatements hr hl) (.inl rfl) hz hn
  have hc := isChain_text_segments t
  rw [h.segments_eq, List.map_append, List.isChain_append, List.map_cons] at hc
  have hrest : squeezed (putCall c.registry.receiver (canonicalStatements c l) [] site
        ++ keptText c.registry.receiver rest)
      = readCall c.registry.receiver (canonicalStatements c l) squeezed site
        ++ rest.flatMap (readKept c.registry.receiver squeezed) := by
    cases rest with
    | nil => simp [keptText, hcall]
    | cons r rs =>
      have hclosed := putCall_closedBy c.registry.receiver (closedBy_canonicalStatements hr hl)
        (.inl rfl) (h.closed_site rfl).closed hn
      rw [Closed.squeezed_append (.inl hclosed), hcall, squeezed_keptText hc.2.1.tail]
  rw [bareRest, squeezed_keptText_append, hrest, List.append_assoc]
  exact fun s hs => h.closed_front s (List.mem_append_right _ hs)

/-- **The draft declares what the bare repair declares.** -/
theorem Planned.declaration?_draft (h : Planned c l t lead mid site rest intro)
    (hr : isName c.registry.receiver = true) (hl : firstLiteral? t = some l) :
    declaration? (draft c l t lead mid site rest intro) = declaration? (bareRepair c l t) := by
  have hclosed : ∀ s ∈ lead, Closed s.text := fun s hs =>
    h.closed_front s (List.mem_append_left _ hs)
  have hshape : ∀ s ∈ lead, s.kind = shape s.text := fun s hs =>
    (of_mem_segments (t := t) (by rw [h.segments_eq]; simp [hs])).2
  have hlead := isQuiet_keptText c.registry.receiver hclosed h.lead_kind hshape
  have hintro : (intro = [] ∨ Closed intro) ∧ IsQuiet (marks intro) := by
    rcases h.intro_eq with ⟨-, -, rfl⟩ | ⟨-, s, -, -, -, rfl⟩
    · exact ⟨.inl rfl, fun m hm => absurd hm List.not_mem_nil⟩
    · exact ⟨.inr (.inl (startsWithLine_header hr s).2), isQuiet_header hr s⟩
  have hsqueezed : squeezed (intro ++ bareRest c l mid site rest)
      = squeezed intro ++ squeezed (bareRest c l mid site rest) := by
    rcases hintro.1 with he | he
    · rw [he]
      rfl
    · exact he.squeezed_append _
  calc declaration? (draft c l t lead mid site rest intro)
      = declaration? (keptText c.registry.receiver lead
          ++ (intro ++ bareRest c l mid site rest)) := by
        refine declaration?_congr ?_
        rw [h.reading_draft isReading_squeezed hr hl, squeezed_keptText_append hclosed, hsqueezed,
          h.squeezed_bareRest hr hl]
        simp only [List.append_assoc]
    _ = declaration? (bareRest c l mid site rest) := by
        rw [declaration?_quiet_append (isFresh_keptText hclosed) hlead,
          declaration?_quiet_append hintro.1 hintro.2]
    _ = declaration? (bareRepair c l t) := by
        rw [h.bareRepair_eq, declaration?_quiet_append (isFresh_keptText hclosed) hlead]

end Draft

/-- **A repaired text declares what the bare repair declares.** -/
theorem declaration?_repair {c : Context} {t out : Text} {l : ObjectLiteral}
    (hr : isName c.registry.receiver = true) (hl : firstLiteral? t = some l)
    (h : repair c t = .ok out) : declaration? out = declaration? (bareRepair c l t) := by
  obtain ⟨l', lead, mid, site, rest, intro, hl', -, hp, rfl⟩ := repair_eq_ok h
  obtain rfl : l = l' := Option.some.inj (hl.symm.trans hl')
  rw [finish_induct declaration?_append_newline, hp.declaration?_draft hr hl]

/-! ### What the first literal depends on -/

/-- The segments up to the end of the first literal stay as they are: none gives way, those that are
blank hold ASCII blanks only, and the call is written behind the literal. -/
structure Undisturbed (c : Context) (l : ObjectLiteral) (t : Text) : Prop where
  kept : ∀ s ∈ segments t, s.span.start < l.span.stop → isSuperseded c.registry.receiver s = false
  blank : ∀ s ∈ segments t, s.span.start < l.span.stop → s.kind = .blank →
    s.text.all isAsciiBlank = true
  behind : ∀ s ∈ (segments t)[(repairPlan c l (segments t)).anchor]?, l.span.stop ≤ s.span.stop

instance (c : Context) (l : ObjectLiteral) (t : Text) : Decidable (Undisturbed c l t) :=
  decidable_of_iff
    ((∀ s ∈ segments t, s.span.start < l.span.stop →
        isSuperseded c.registry.receiver s = false
          ∧ (s.kind = .blank → s.text.all isAsciiBlank = true))
      ∧ ∀ s ∈ (segments t)[(repairPlan c l (segments t)).anchor]?, l.span.stop ≤ s.span.stop)
    ⟨fun h => ⟨fun s hs hlt => (h.1 s hs hlt).1, fun s hs hlt => (h.1 s hs hlt).2, h.2⟩,
      fun h => ⟨fun s hs hlt => ⟨h.kept s hs hlt, h.blank s hs hlt⟩, h.behind⟩⟩

/-- The segments up to the end of the first literal do not reach past the one of the call. -/
theorem Planned.exists_depending {c : Context} {t : Text} {l : ObjectLiteral}
    {lead mid rest : List Segment} {site : Segment} {intro : Text}
    (h : Planned c l t lead mid site rest intro) (hu : Undisturbed c l t) :
    ∃ pre post, segments t = pre ++ post ∧ (∀ s ∈ pre, s.span.start < l.span.stop)
      ∧ (∀ s ∈ post.head?, l.span.stop ≤ s.span.start) ∧ pre <+: lead ++ mid ++ [site] := by
  have hseg := h.segments_eq
  have hstop : l.span.stop ≤ site.span.stop := by
    refine hu.behind site ?_
    rw [h.cut.anchor_eq, hseg, ← List.length_append, List.getElem?_append_right (Nat.le_refl _),
      Nat.sub_self]
    rfl
  refine ⟨(segments t).takeWhile fun s => s.span.start < l.span.stop,
    (segments t).dropWhile fun s => s.span.start < l.span.stop,
    List.takeWhile_append_dropWhile.symm, fun s hs => by simpa using List.mem_takeWhile_imp hs,
    ?_, ?_⟩
  · intro s hs
    have := List.head?_dropWhile_not (fun s : Segment => decide (s.span.start < l.span.stop))
      (segments t)
    rw [hs] at this
    simpa using this
  · rw [hseg, List.append_cons]
    cases rest with
    | nil =>
      rw [List.append_nil]
      exact List.takeWhile_prefix _
    | cons x rest =>
      have hx := hstop.trans (span_stop_le_start hseg List.mem_cons_self)
      rw [takeWhile_append_cons (by simpa using hx)]
      exact List.takeWhile_prefix _

theorem squeezed_flatMap_text {segs : List Segment}
    (hc : (segs.map Segment.text).IsChain Seam) :
    squeezed (segs.flatMap Segment.text) = segs.flatMap fun s => squeezed s.text := by
  induction segs with
  | nil => rfl
  | cons s segs ih =>
    rw [List.flatMap_cons, List.flatMap_cons, ← ih hc.tail]
    cases segs with
    | nil => simp
    | cons n segs =>
      rw [List.map_cons, List.map_cons, List.isChain_cons_cons] at hc
      exact hc.1.closed.squeezed_append _

theorem closedBy_flatMap_text {segs : List Segment} (h : ∀ s ∈ segs, Closed s.text) :
    IsFresh (segs.flatMap Segment.text) := by
  induction segs with
  | nil => exact .inl rfl
  | cons s segs ih =>
    have hs := h s List.mem_cons_self
    rw [List.flatMap_cons]
    rcases ih fun x hx => h x (List.mem_cons_of_mem s hx) with hr | hr
    · rw [hr, List.append_nil]
      exact .inr hs
    · exact .inr (hr.imp (.append hs.endState) (.append hs.endState))

theorem flatMap_text_segments (t : Text) : (segments t).flatMap Segment.text = t := by
  rw [List.flatMap_def, map_text_segments, flatten_pieces]

/-- A segment starts where the scan starts anew. -/
theorem isFresh_of_segments_eq {t : Text} {pre post : List Segment} {s : Segment}
    (h : segments t = pre ++ s :: post) : IsFresh (pre.flatMap Segment.text) := by
  have hc := isChain_text_segments t
  rw [h, List.map_append, List.map_cons] at hc
  exact closedBy_flatMap_text (closed_of_isChain hc)

/-- The text of the first segments, as a part of the whole. -/
theorem exists_marks_eq {t : Text} {pre post : List Segment} (h : segments t = pre ++ post) :
    ∃ n, marks t = marks (pre.flatMap Segment.text) ++ n := by
  have ht := flatMap_text_segments t
  rw [h, List.flatMap_append] at ht
  cases post with
  | nil =>
    rw [List.flatMap_nil, List.append_nil] at ht
    exact ⟨[], by rw [ht, List.append_nil]⟩
  | cons s post =>
    rw [← ht]
    rcases isFresh_of_segments_eq h with hp | hp
    · rw [hp]
      exact ⟨_, rfl⟩
    · exact ⟨_, hp.marks_append _⟩

/-- What a segment declares is declared by the text up to its end, or something else is. -/
theorem isSome_declaration?_upTo {t : Text} {pre post : List Segment} {s : Segment}
    (h : segments t = pre ++ s :: post) (hd : (declaration? s.text).isSome = true) :
    (declaration? ((pre ++ [s]).flatMap Segment.text)).isSome = true := by
  have htext : (pre ++ [s]).flatMap Segment.text = pre.flatMap Segment.text ++ s.text := by simp
  rw [htext]
  rcases isFresh_of_segments_eq h with he | he
  · rw [he]
    exact hd
  · exact he.isSome_declaration?_append (.inr hd)

/-- **In front of the first literal** no segment declares anything. -/
theorem declaration?_eq_none_of_le {t : Text} {l : ObjectLiteral} (hl : firstLiteral? t = some l)
    {s : Segment} (hs : s ∈ segments t) (hle : s.span.stop ≤ l.statement.start) :
    declaration? s.text = none := by
  by_contra hne
  obtain ⟨pre, post, h⟩ := List.append_of_mem hs
  have hd := isSome_declaration?_upTo h (Option.isSome_iff_ne_none.2 hne)
  rw [declaration?_isSome_iff] at hd
  have hsegs : segments t = (pre ++ [s]) ++ post := by rw [h]; simp
  obtain ⟨n, hn⟩ := exists_marks_eq hsegs
  obtain ⟨q, hq, hlit⟩ := firstLiteral?_eq t
  rw [hl] at hlit
  obtain ⟨⟨l', k⟩, hb, rfl⟩ := Option.map_eq_some_iff.1 hlit.symm
  rw [hn, firstHead_append hd, ← List.append_assoc] at hq
  have hfront := List.append_cancel_right hq
  have hstop : s.span.stop = Script.sizeOf (marks ((pre ++ [s]).flatMap Segment.text)) := by
    obtain ⟨hstart, hstop⟩ := span_of_segments_eq h
    rw [hstop, hstart, sizeOf_marks, ← size_append]
    simp
  have hpos : 0 < Script.sizeOf (firstHead none (marks ((pre ++ [s]).flatMap Segment.text))) :=
    Nat.pos_of_ne_zero fun he => hd (List.map_eq_nil_iff.1 (size_eq_zero.1 he))
  have hsize := congrArg Script.sizeOf hfront
  rw [sizeOf_append, ← hstop] at hsize
  rw [(boundLiteral?_eq_some hb).2.1] at hle
  omega

theorem exists_ended_eq (z : Text) : ended z = z ∨ ∃ u, ended z = z ++ '\n' :: u := by
  rw [ended]
  rcases withLineEnd_cases z with ⟨he, -⟩ | he <;> rcases withBlankLine_cases (withLineEnd z)
    with ⟨hb, -⟩ | hb <;> rw [hb, he]
  · exact .inl rfl
  · exact .inr ⟨[], rfl⟩
  · exact .inr ⟨[], rfl⟩
  · exact .inr ⟨['\n'], by simp⟩

/-- A statement that stays at the call is squeezed as it was, up to what follows it. -/
theorem exists_squeezed_ended {z : Text} (hz : z ≠ []) (w : Text) :
    ∃ r, squeezed (ended z ++ w) = squeezed z ++ r := by
  have hm : ∃ n, marks (ended z ++ w) = marks z ++ n := by
    rcases exists_ended_eq z with he | ⟨u, he⟩
    · have hl : z.getLast? = some '\n' := by rw [← getLast?_ended hz, he]
      rw [he]
      exact ⟨_, marksFrom_append_eq (fun hs => by rw [hl] at hs; cases hs) .start⟩
    · rw [he, List.append_assoc]
      exact ⟨_, marksFrom_append_eq (fun _ d hd => by
        obtain rfl : '\n' = d := by simpa using hd
        decide) .start⟩
  obtain ⟨n, hn⟩ := hm
  rw [squeezed, hn]
  exact exists_squeeze_append _ _ _

/-- A segment that the first literal depends on is kept as it is, up to blanks. -/
theorem Undisturbed.readKept_eq {c : Context} {t : Text} {l : ObjectLiteral} (hu : Undisturbed c l t)
    {s : Segment} (hs : s ∈ segments t) (hlt : s.span.start < l.span.stop) :
    readKept c.registry.receiver squeezed s = squeezed s.text := by
  rw [readKept, hu.kept s hs hlt]
  by_cases hb : s.kind = .blank
  · have hall := List.all_eq_true.1 (hu.blank s hs hlt hb)
    rw [if_pos (by simp [hb]), squeezed_asciiBlanks hall]
  · rw [if_neg (by simp [hb])]

/-- The segments that begin in front of the end of the first literal declare it. -/
theorem declares_squeezed_depending {t : Text} {l : ObjectLiteral} (hl : firstLiteral? t = some l)
    (hc : l.closing = .balanced) {pre post : List Segment} (hseg : segments t = pre ++ post)
    (hpost : ∀ s ∈ post.head?, l.span.stop ≤ s.span.start) :
    Declares (squeezed (pre.flatMap Segment.text)) := by
  obtain ⟨n, hn⟩ := exists_marks_eq hseg
  refine Declares.squeeze ((declares_iff hl hc hn).2 ?_)
  rw [sizeOf_marks]
  cases post with
  | nil =>
    rw [List.append_nil] at hseg
    rw [← hseg, flatMap_text_segments]
    exact span_stop_le hl hc
  | cons s post => exact (span_of_segments_eq hseg).1 ▸ hpost s rfl

section Depending

variable {c : Context} {t : Text} {l : ObjectLiteral} {lead mid rest : List Segment} {site : Segment}
  {intro : Text} (h : Planned c l t lead mid site rest intro) (hr : isName c.registry.receiver = true)
  (hl : firstLiteral? t = some l)
include h hr hl

/-- The segments that the first literal depends on stand at the start of the bare repair, up to
blanks. -/
theorem Planned.exists_squeezed_bareRepair (hu : Undisturbed c l t) {pre post : List Segment}
    (hseg : segments t = pre ++ post) (hpre : ∀ s ∈ pre, s.span.start < l.span.stop)
    (hfront : pre <+: lead ++ mid ++ [site]) :
    ∃ r, squeezed (bareRepair c l t) = squeezed (pre.flatMap Segment.text) ++ r := by
  have hchain := isChain_text_segments t
  rw [hseg, List.map_append, List.isChain_append] at hchain
  have hmem : ∀ s ∈ pre, s ∈ segments t := fun s hs => hseg ▸ List.mem_append_left _ hs
  have hkept : ∀ s ∈ pre, readKept c.registry.receiver squeezed s = squeezed s.text := fun s hs =>
    hu.readKept_eq (hmem s hs) (hpre s hs)
  have hlead : ∀ s ∈ lead, Closed s.text := fun s hs => h.closed_front s (List.mem_append_left _ hs)
  rw [h.bareRepair_eq, squeezed_keptText_append hlead, h.squeezed_bareRest hr hl,
    squeezed_flatMap_text hchain.1, ← List.append_assoc, ← List.append_assoc, ← List.flatMap_append]
  obtain ⟨more, hmore⟩ := hfront
  rcases List.eq_nil_or_concat more with rfl | ⟨more, y, rfl⟩
  · -- the literal ends in the segment of the call
    obtain rfl : pre = lead ++ mid ++ [site] := (List.append_nil pre).symm.trans hmore
    obtain ⟨r, hr⟩ := exists_squeezed_ended h.site_text.2.1 (canonicalStatements c l)
    have hsite := hu.kept site (hmem site (by simp)) (hpre site (by simp))
    have hflat : (lead ++ mid ++ [site]).flatMap (fun s => squeezed s.text)
        = (lead ++ mid).flatMap (readKept c.registry.receiver squeezed) ++ squeezed site.text := by
      rw [List.flatMap_congr fun s hs => (hkept s hs).symm, List.flatMap_append,
        List.flatMap_singleton, hkept site (by simp)]
    rw [readCall, hsite, if_neg (by simp), hr, hflat]
    simp only [List.append_assoc]
    exact ⟨_, rfl⟩
  · -- the literal ends in front of it
    rw [List.concat_eq_append, ← List.append_assoc] at hmore
    obtain ⟨hmore, -⟩ := List.append_inj' hmore.symm rfl
    rw [hmore, List.flatMap_append, List.flatMap_congr hkept]
    simp only [List.append_assoc]
    exact ⟨_, rfl⟩

/-- **What the first literal depends on** decides what is declared. -/
theorem Planned.declaration?_bareRepair (hc : l.closing = .balanced) (hu : Undisturbed c l t) :
    declaration? (bareRepair c l t) = declaration? t := by
  obtain ⟨pre, post, hseg, hpre, hpost, hfront⟩ := h.exists_depending hu
  obtain ⟨n, hn⟩ := exists_marks_eq hseg
  have hdecl := declares_squeezed_depending hl hc hseg hpost
  obtain ⟨x, hx⟩ : ∃ x, squeezed t = squeezed (pre.flatMap Segment.text) ++ x := by
    rw [squeezed, hn]
    exact exists_squeeze_append _ _ _
  obtain ⟨y, hy⟩ := h.exists_squeezed_bareRepair hr hl hu hseg hpre hfront
  rw [declaration?_eq_squeezed, declaration?_eq_squeezed, hx, hy, hdecl.declarationAt_append,
    hdecl.declarationAt_append]

end Depending

/-- **The first literal.** A repaired text declares what the module declared, a closed literal, if
and only if the bare repair does; and it does if the segments up to the end of the literal stay as
they are. -/
theorem repair_declaration {c : Context} {t out : Text} (hr : IsReceiver c.registry.receiver)
    (h : repair c t = .ok out) :
    ∃ l, firstLiteral? t = some l ∧ l.closing = .balanced
      ∧ declaration? t = some ⟨l.keyword, l.identifier, l.exported, some l.body⟩
      ∧ (declaration? out = declaration? t ↔ declaration? (bareRepair c l t) = declaration? t)
      ∧ (Undisturbed c l t → declaration? out = declaration? t) := by
  obtain ⟨l, lead, mid, site, rest, intro, hl, hc, hp, -⟩ := repair_eq_ok h
  have hout := declaration?_repair hr.isName hl h
  refine ⟨l, hl, hc, ?_, by rw [hout], fun hu => ?_⟩
  · rw [declaration?, hl, Option.map_some, ObjectLiteral.declaration, if_pos hc]
  · rw [hout, hp.declaration?_bareRepair hr.isName hl hc hu]

theorem repair_declaration_sample :
    repair sampleContext sampleModule = .ok sampleRepaired
      ∧ declaration? sampleRepaired = declaration? sampleModule := by
  obtain ⟨l, hl, -, -, -, hu⟩ := repair_declaration isReceiver_sampleContext repair_sampleModule
  have hall : ∀ l ∈ firstLiteral? sampleModule, Undisturbed sampleContext l sampleModule := by
    decide
  exact ⟨repair_sampleModule, hu (hall l hl)⟩

/-- A binding whose brace stands on the next line is cut in two by the call. -/
theorem repair_cuts_head :
    declaration? "const x =\n\x7b\x7d;\n" = some ⟨.const, "x", false, some []⟩
      ∧ (repair sampleContext "const x =\n\x7b\x7d;\n").map declaration? = .ok none := by
  decide

end ElementModules.Descriptor
