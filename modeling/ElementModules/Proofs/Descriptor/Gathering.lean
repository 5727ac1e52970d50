import ElementModules.Descriptor.Conversion
import ElementModules.Proofs.Script.Bindings
import ElementModules.Proofs.Script.Listings

/-!
# What a conversion keeps

A conversion reads the segments of a module one after the other and keeps some of them. The segments
in front of the first statement other than the binding are its **opening**; comments there are
dropped. Behind the opening everything is kept that can be **carried** over: all but the binding,
blank segments, imports that mention the receiver and what the frame stands for (`survivors`).

The state after some segments is described by these segments (`Gathered`): a step of the reading
keeps the description (`Gathered.read`), so the whole reading does (`gathered_foldl`).

## Main results

* `Laid`: texts of segments, with blank lines between some of them.
* `gathered_foldl`: the texts that are kept, in terms of the segments.
-/

namespace ElementModules.Descriptor

open Text Script

/-! ### The segments that are kept -/

/-- Whether a segment holds a part of the binding. -/
def isBound (statement : Option Span) (s : Segment) : Bool :=
  statement.any fun range => range.overlaps s.span

/-- Whether a segment can stand in front of the first statement other than the binding. -/
def isOpening (statement : Option Span) (s : Segment) : Bool :=
  isBound statement s || s.kind = .blank || s.kind = .comment

/-- Whether a segment is kept behind the opening. -/
def isCarried (receiver : Text) (statement : Option Span) (s : Segment) : Bool :=
  !(isBound statement s || s.kind = .blank || (s.kind = .importDecl && s.mentions receiver)
    || frameStandsFor receiver s)

/-- The segments that are kept. -/
def survivors (receiver : Text) (statement : Option Span) (segs : List Segment) : List Segment :=
  (segs.dropWhile (isOpening statement)).filter (isCarried receiver statement)

/-- Whether a segment is an import. -/
def isImport (s : Segment) : Bool := s.kind = .importDecl

section Survivors

variable (receiver : Text) (statement : Option Span)

theorem survivors_concat (segs : List Segment) (s : Segment) :
    survivors receiver statement (segs ++ [s]) = survivors receiver statement segs
      ++ if isCarried receiver statement s
          && (!isOpening statement s || segs.any fun x => !isOpening statement x)
        then [s] else [] := by
  rw [survivors, survivors, List.dropWhile_append]
  by_cases h : segs.dropWhile (isOpening statement) = []
  · have hany : (segs.any fun x => !isOpening statement x) = false := by
      simpa [List.dropWhile_eq_nil_iff] using h
    rw [h, hany, Bool.or_false]
    cases ho : isOpening statement s <;> simp [ho, List.filter_cons]
  · have hany : (segs.any fun x => !isOpening statement x) = true := by
      simpa [List.dropWhile_eq_nil_iff] using h
    rw [hany, if_neg (by simpa using h), List.filter_append, Bool.or_true, Bool.and_true]
    simp [List.filter_cons]

theorem mem_of_mem_survivors {segs : List Segment} {s : Segment}
    (h : s ∈ survivors receiver statement segs) :
    s ∈ segs ∧ isCarried receiver statement s = true := by
  obtain ⟨hm, hc⟩ := List.mem_filter.1 h
  exact ⟨(List.dropWhile_suffix _).subset hm, hc⟩

end Survivors

/-! ### Pieces -/

/-- The texts of segments, with an empty text for a gap in front of some of them. -/
inductive Laid : List Text → List Segment → Prop
  | nil : Laid [] []
  | next {ps : List Text} {ss : List Segment} {p : Text} {s : Segment} (init : Laid ps ss)
      (cut : s.IsCut p) : Laid (ps ++ [p]) (ss ++ [s])
  | behindGap {ps : List Text} {ss : List Segment} {p : Text} {s : Segment} (init : Laid ps ss)
      (ne : ps ≠ []) (cut : s.IsCut p) : Laid (ps ++ [[], p]) (ss ++ [s])

theorem Laid.addPiece {ps : List Text} {ss : List Segment} {p : Text} {s : Segment}
    (h : Laid ps.reverse ss) (cut : s.IsCut p) (gap : Bool) :
    Laid (Gathering.addPiece gap p ps).reverse (ss ++ [s]) := by
  rw [Gathering.addPiece]
  split
  · rename_i hg
    rw [List.reverse_cons, List.reverse_cons, List.append_assoc]
    exact .behindGap h (by simp_all) cut
  · rw [List.reverse_cons]
    exact .next h cut

theorem Laid.mem {ps : List Text} {ss : List Segment} (h : Laid ps ss) :
    ∀ p ∈ ps, p = [] ∨ ∃ s ∈ ss, s.IsCut p := by
  induction h with
  | nil => simp
  | next _ cut ih =>
    intro q hq
    rcases List.mem_append.1 hq with hq | hq
    · exact (ih q hq).imp id fun ⟨s, hs, hc⟩ => ⟨s, List.mem_append_left _ hs, hc⟩
    · obtain rfl := List.mem_singleton.1 hq
      exact .inr ⟨_, List.mem_append_right _ (List.mem_singleton_self _), cut⟩
  | behindGap _ _ cut ih =>
    intro q hq
    rcases List.mem_append.1 hq with hq | hq
    · exact (ih q hq).imp id fun ⟨s, hs, hc⟩ => ⟨s, List.mem_append_left _ hs, hc⟩
    · rcases List.mem_cons.1 hq with rfl | hq
      · exact .inl rfl
      · obtain rfl := List.mem_singleton.1 hq
        exact .inr ⟨_, List.mem_append_right _ (List.mem_singleton_self _), cut⟩

/-- The texts without the gaps are the texts of the segments. -/
theorem Laid.map_trim {ps : List Text} {ss : List Segment} (h : Laid ps ss)
    (hs : ∀ s ∈ ss, s.trimmed ≠ []) :
    (ps.filter (· ≠ [])).map trim = ss.map Segment.trimmed := by
  have hcut : ∀ {p : Text} {s : Segment}, s.IsCut p → s.trimmed ≠ [] → p ≠ [] := by
    rintro p s hc hne rfl
    exact hne hc.trim_eq.symm
  induction h with
  | nil => rfl
  | @next ps ss p s _ cut ih =>
    have hp := hcut cut (hs s (by simp))
    rw [List.filter_append, List.map_append, List.map_append,
      ih fun x hx => hs x (List.mem_append_left _ hx)]
    simp [hp, cut.trim_eq]
  | @behindGap ps ss p s _ _ cut ih =>
    have hp := hcut cut (hs s (by simp))
    rw [List.filter_append, List.map_append, List.map_append,
      ih fun x hx => hs x (List.mem_append_left _ hx)]
    simp [hp, cut.trim_eq]

/-! ### The reading -/

section Reading

variable (receiver : Text) (statement : Option Span) (ahead : Segment → Bool)

/-- The state `g` of the reading behind the segments `done`, of which those in front of the binding
are the ones that `ahead` tells. -/
structure Gathered (done : List Segment) (g : Gathering) : Prop where
  seenCode : g.seenCode = done.any fun s => !isOpening statement s
  pastBinding : g.pastBinding = done.any (isBound statement)
  imports : Laid g.imports.reverse ((survivors receiver statement done).filter isImport)
  leading : Laid g.leading.reverse
    ((survivors receiver statement done).filter fun s => !isImport s && ahead s)
  trailing : Laid g.trailing.reverse
    ((survivors receiver statement done).filter fun s => !isImport s && !ahead s)

variable {receiver statement ahead} {done : List Segment} {g : Gathering} {s : Segment}

theorem isCut_piece (g : Gathering) (s : Segment) : s.IsCut (g.piece s) := by
  rw [Gathering.piece]
  split
  · exact .inl rfl
  · exact .inr rfl

theorem any_concat (p : Segment → Bool) (done : List Segment) (s : Segment) :
    (done ++ [s]).any p = (done.any p || p s) := by
  simp

namespace Gathered

variable (h : Gathered receiver statement ahead done g)
include h

/-- A segment that is not kept. -/
theorem skip {g' : Gathering} (hs : isCarried receiver statement s = false
      ∨ (isOpening statement s = true ∧ g.seenCode = false))
    (hi : g'.imports = g.imports) (hl : g'.leading = g.leading) (ht : g'.trailing = g.trailing)
    (hseen : g'.seenCode = (g.seenCode || !isOpening statement s))
    (hpast : g'.pastBinding = (g.pastBinding || isBound statement s)) :
    Gathered receiver statement ahead (done ++ [s]) g' := by
  have hkept : survivors receiver statement (done ++ [s]) = survivors receiver statement done := by
    rw [survivors_concat, ← h.seenCode]
    rcases hs with hs | ⟨ho, hc⟩
    · simp [hs]
    · simp [ho, hc]
  refine ⟨?_, ?_, ?_, ?_, ?_⟩
  · rw [hseen, h.seenCode, any_concat]
  · rw [hpast, h.pastBinding, any_concat]
  · rw [hkept, hi]
    exact h.imports
  · rw [hkept, hl]
    exact h.leading
  · rw [hkept, ht]
    exact h.trailing

/-- An import that is kept. -/
theorem takeImport (hs : isCarried receiver statement s = true) (hi : isImport s = true) :
    Gathered receiver statement ahead (done ++ [s])
      { g with seenCode := true, imports := g.piece s :: g.imports } := by
  have ho : isOpening statement s = false := by
    simp only [isCarried, isOpening, isImport, Bool.not_eq_true', Bool.or_eq_false_iff,
      decide_eq_true_eq] at hs hi ⊢
    simp [hs, hi]
  have hb : isBound statement s = false := by
    simp only [isOpening, Bool.or_eq_false_iff] at ho
    exact ho.1.1
  have hkept := survivors_concat receiver statement done s
  rw [hs, ho] at hkept
  simp only [Bool.not_false, Bool.true_or, Bool.and_true, if_true] at hkept
  refine ⟨?_, ?_, ?_, ?_, ?_⟩
  · rw [any_concat, ho]
    simp
  · rw [any_concat, hb, Bool.or_false]
    exact h.pastBinding
  · rw [hkept, List.filter_append, List.reverse_cons]
    simpa [hi] using h.imports.next (isCut_piece g s)
  · rw [hkept, List.filter_append]
    simpa [hi] using h.leading
  · rw [hkept, List.filter_append]
    simpa [hi] using h.trailing

/-- A statement that is kept on its side of the binding. -/
theorem keep (hs : isCarried receiver statement s = true) (hi : isImport s = false)
    (hseen : isOpening statement s = false ∨ g.seenCode = true)
    (hside : done.any (isBound statement) = !ahead s) :
    Gathered receiver statement ahead (done ++ [s])
      (Gathering.keep { g with seenCode := true } s) := by
  have hany : (!isOpening statement s || done.any fun x => !isOpening statement x) = true := by
    rw [← h.seenCode]
    rcases hseen with ho | hc
    · simp [ho]
    · simp [hc]
  have hb : isBound statement s = false := by
    simp only [isCarried, Bool.not_eq_true', Bool.or_eq_false_iff] at hs
    exact hs.1.1.1
  have hkept := survivors_concat receiver statement done s
  rw [hs, hany] at hkept
  simp only [Bool.and_true, if_true] at hkept
  have hseen' : ((done ++ [s]).any fun x => !isOpening statement x) = true := by
    rw [any_concat, Bool.or_comm]
    exact hany
  have hpast : (done ++ [s]).any (isBound statement) = g.pastBinding := by
    rw [any_concat, hb, Bool.or_false, h.pastBinding]
  have himports : (survivors receiver statement (done ++ [s])).filter isImport
      = (survivors receiver statement done).filter isImport := by
    rw [hkept, List.filter_append]
    simp [hi]
  have hcut : ∀ past, s.IsCut ((Gathering.mk g.imports g.leading g.trailing true past g.gap
    g.startsLine).piece s) := fun _ => isCut_piece _ s
  rw [← h.pastBinding] at hside
  rw [Gathering.keep]
  cases hp : g.pastBinding with
  | true =>
    have ha : ahead s = false := by simpa [hp] using hside
    refine ⟨hseen'.symm, hp.symm.trans hpast.symm, himports ▸ h.imports, ?_, ?_⟩
    · rw [hkept, List.filter_append]
      simpa [ha] using h.leading
    · rw [hkept, List.filter_append]
      simpa [hi, ha] using h.trailing.addPiece (hcut _) g.gap
  | false =>
    have ha : ahead s = true := by simpa [hp] using hside
    refine ⟨hseen'.symm, hp.symm.trans hpast.symm, himports ▸ h.imports, ?_, ?_⟩
    · rw [hkept, List.filter_append]
      simpa [hi, ha] using h.leading.addPiece (hcut _) g.gap
    · rw [hkept, List.filter_append]
      simpa [ha] using h.trailing

/-- **Reading one more segment.** -/
theorem read (hside : isBound statement s = false → done.any (isBound statement) = !ahead s) :
    Gathered receiver statement ahead (done ++ [s]) (g.read receiver statement s) := by
  have hline : ∀ {g' : Gathering}, Gathered receiver statement ahead (done ++ [s]) g' →
      Gathered receiver statement ahead (done ++ [s]) { g' with startsLine := s.endsLine } :=
    fun h => ⟨h.seenCode, h.pastBinding, h.imports, h.leading, h.trailing⟩
  rw [Gathering.read]
  refine hline ?_
  cases hb : isBound statement s with
  | true =>
    rw [isBound] at hb
    rw [if_pos hb]
    refine h.skip (.inl ?_) rfl rfl rfl ?_ ?_ <;> simp [isCarried, isOpening, isBound, hb]
  | false =>
    have hside := hside hb
    have hb' := hb
    rw [isBound] at hb'
    rw [if_neg (by simp [hb'])]
    have hother : s.kind ≠ .blank → s.kind ≠ .importDecl → s.kind ≠ .comment →
        Gathered receiver statement ahead (done ++ [s])
          (if frameStandsFor receiver s then { g with seenCode := true }
            else Gathering.keep { g with seenCode := true } s) := by
      intro h₁ h₂ h₃
      have ho : isOpening statement s = false := by simp [isOpening, hb, h₁, h₃]
      split
      · rename_i hf
        refine h.skip (.inl ?_) rfl rfl rfl ?_ ?_ <;> simp [isCarried, ho, hb, hf]
      · rename_i hf
        exact h.keep (by simp [isCarried, hb, h₁, h₂, hf]) (by simp [isImport, h₂]) (.inl ho) hside
    cases hk : s.kind with
    | blank =>
      refine h.skip (.inl ?_) rfl rfl rfl ?_ ?_ <;> simp [isCarried, isOpening, hb, hk]
    | importDecl =>
      have ho : isOpening statement s = false := by simp [isOpening, hb, hk]
      cases hm : s.mentions receiver with
      | true => refine h.skip (.inl ?_) rfl rfl rfl ?_ ?_ <;> simp [isCarried, ho, hb, hk, hm]
      | false =>
        refine h.takeImport ?_ (by simp [isImport, hk])
        simp [isCarried, hb, hk, hm, frameStandsFor]
    | comment =>
      cases hc : g.seenCode with
      | true =>
        have hg : { g with seenCode := true } = g := by
          rw [← hc]
        have := h.keep (by simp [isCarried, hb, hk, frameStandsFor]) (by simp [isImport, hk])
          (.inr hc) hside
        rw [hg] at this
        simpa [hc] using this
      | false =>
        have ho : isOpening statement s = true := by simp [isOpening, hk]
        refine h.skip (.inr ⟨ho, hc⟩) rfl rfl rfl ?_ ?_ <;> simp [ho, hb]
    | _ => exact hother (by simp [hk]) (by simp [hk]) (by simp [hk])

end Gathered

/-- **The whole reading.** -/
theorem gathered_foldl {segs : List Segment}
    (hside : ∀ pre s post, segs = pre ++ s :: post → isBound statement s = false →
      pre.any (isBound statement) = !ahead s) :
    Gathered receiver statement ahead segs (segs.foldl (Gathering.read receiver statement) {}) := by
  have hrun : ∀ post done g, segs = done ++ post → Gathered receiver statement ahead done g →
      Gathered receiver statement ahead segs
        (post.foldl (Gathering.read receiver statement) g) := by
    intro post
    induction post with
    | nil =>
      intro done g he h
      rw [he, List.append_nil]
      exact h
    | cons s post ih =>
      intro done g he h
      exact ih (done ++ [s]) _ (by simp [he]) (h.read (hside done s post he))
  exact hrun segs [] {} rfl ⟨rfl, rfl, .nil, .nil, .nil⟩

end Reading

/-! ### The side of the binding -/

/-- Whether a segment starts in front of the binding, if there is one. -/
def isAhead (statement : Option Span) (s : Segment) : Bool :=
  statement.all fun range => s.span.start < range.start

/-- The statement of a literal is not empty. -/
theorem statement_start_lt_stop {t : Text} {l : ObjectLiteral} (h : firstLiteral? t = some l) :
    l.statement.start < l.statement.stop := by
  obtain ⟨q, -, hl⟩ := firstLiteral?_eq t
  rw [h] at hl
  obtain ⟨⟨l', n⟩, hb, rfl⟩ := Option.map_eq_some_iff.1 hl.symm
  rw [boundLiteral?] at hb
  simp only [Option.bind_eq_bind, Option.bind_eq_some_iff, Option.pure_def, Option.some.injEq,
    Prod.mk.injEq] at hb
  obtain ⟨b, hp, rfl, -⟩ := hb
  obtain ⟨c, u, hu, hc⟩ := BindingStart.head?_of_parse? (Option.isSome_of_eq_some hp)
  have hne : c ≠ '\x7b' := by rcases hc with rfl | rfl | rfl | rfl <;> decide
  have hlen : b.opening.length ≤ u.length := by
    rw [(BindingStart.parse?_eq_some hp).1, hu, BindingStart.fromBrace,
      List.dropWhile_cons_of_pos (by simpa using hne)]
    exact (List.dropWhile_suffix _).length_le
  obtain ⟨k, hk⟩ : ∃ k, (c :: u).length - b.opening.length = k + 1 :=
    ⟨u.length - b.opening.length, by rw [List.length_cons]; omega⟩
  have hpos := c.utf8Size_pos
  simp only [hu, hk, List.take_succ_cons, size_cons]
  omega

/-- A segment that holds no part of the binding stands behind it if and only if one in front of the
segment does. -/
theorem any_isBound_eq {t : Text} {pre post : List Segment} {s : Segment}
    (h : segments t = pre ++ s :: post)
    (hs : isBound ((firstLiteral? t).map ObjectLiteral.statement) s = false) :
    pre.any (isBound ((firstLiteral? t).map ObjectLiteral.statement))
      = !isAhead ((firstLiteral? t).map ObjectLiteral.statement) s := by
  cases hl : firstLiteral? t with
  | none => simp [isBound, isAhead]
  | some l =>
    have hlt := statement_start_lt_stop hl
    obtain ⟨hstart, hstop⟩ := span_of_segments_eq h
    have hpos : 0 < size s.text := by
      have hp := (of_mem_segments (t := t) (s := s) (by rw [h]; simp)).1.ne_nil
      exact Nat.pos_of_ne_zero fun he => hp (size_eq_zero.1 he)
    rw [hl] at hs
    simp only [isBound, isAhead, Option.map_some, Option.any_some, Option.all_some,
      Span.overlaps, Bool.and_eq_false_iff, decide_eq_false_iff_not] at hs ⊢
    by_cases ha : s.span.start < l.statement.start
    · -- the segments in front of `s` end where it starts
      rw [decide_eq_true ha, Bool.not_true, List.any_eq_false]
      intro x hx
      obtain ⟨a, b, rfl⟩ := List.append_of_mem hx
      have hsplit : segments t = a ++ x :: (b ++ s :: post) := by simpa using h
      have hle := span_stop_le_start hsplit (List.mem_append_right b List.mem_cons_self)
      rw [isBound, Option.any_some, Span.overlaps, Bool.and_eq_true, decide_eq_true_eq,
        decide_eq_true_eq]
      omega
    · -- the segment in which the binding starts stands in front of `s`
      rw [decide_eq_false ha, Bool.not_false, List.any_eq_true]
      obtain ⟨front, x, back, hseg, -, -, hi⟩ := exists_segment_at hl
      have hx : Segment.covers l.statement.start x = true := by
        obtain ⟨hlt, hget, -⟩ := List.findIdx?_eq_some_iff_getElem.1 hi
        simpa [hseg] using hget
      simp only [Segment.covers, Bool.and_eq_true, decide_eq_true_eq] at hx
      have hmem : x ∈ pre := by
        have hm : x ∈ pre ++ s :: post := by rw [← h, hseg]; simp
        rcases List.mem_append.1 hm with hm | hm
        · exact hm
        · rcases List.mem_cons.1 hm with rfl | hm
          · omega
          · have := span_stop_le_start h hm
            omega
      refine ⟨x, hmem, ?_⟩
      rw [isBound, Option.any_some, Span.overlaps, Bool.and_eq_true, decide_eq_true_eq,
        decide_eq_true_eq]
      omega

/-- **What is kept of a text.** -/
theorem gathered_segments (receiver t : Text) :
    Gathered receiver ((firstLiteral? t).map ObjectLiteral.statement)
      (isAhead ((firstLiteral? t).map ObjectLiteral.statement)) (segments t)
      ((segments t).foldl (Gathering.read receiver ((firstLiteral? t).map ObjectLiteral.statement))
        {}) :=
  gathered_foldl fun _ _ _ h => any_isBound_eq h

end ElementModules.Descriptor
