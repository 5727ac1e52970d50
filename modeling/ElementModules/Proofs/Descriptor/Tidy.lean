import ElementModules.Proofs.Descriptor.Drafting

/-!
# Tidy texts

A repair writes the pieces of a text one after the other, and at most one blank line for a piece that
is blank. A text is **tidy** if that gives the text back, so that blank lines stand alone. Repaired
texts are tidy (`Planned.isTidy_repaired`): each step of a repair keeps what is written tidy, and a
tidy text stays tidy when a line feed is taken off its end.

Writing a piece adds at most its own characters (`length_lay_le`). So a tidy text is built up step by
step, without a step that writes less (`IsTidy.of_seam`).

## Main results

* `IsTidy.append_newline`, `IsTidy.of_append_newline`: line feeds at the end of tidy texts.
* `Planned.isTidy_repaired`: repaired texts are tidy.
-/

namespace ElementModules.Descriptor

open Text Script

/-- Writes a piece that stays. -/
def lay (out p : Text) : Text :=
  if shape p = .blank then withBlankLine out else out ++ p

/-- Writes the pieces of a text behind what is written. -/
def layText (out t : Text) : Text := (pieces t).foldl lay out

/-- A text that is written as it is. -/
def IsTidy (t : Text) : Prop := layText [] t = t

theorem length_withBlankLine_le (out : Text) : (withBlankLine out).length ≤ out.length + 1 := by
  rcases withBlankLine_cases out with ⟨he, -⟩ | he <;> rw [he]
  · omega
  · simp

theorem lay_newline (out : Text) : lay out ['\n'] = withBlankLine out := by
  rw [lay, if_pos shape_newline]

theorem lay_of_ne {p : Text} (h : shape p ≠ .blank) (out : Text) : lay out p = out ++ p := by
  rw [lay, if_neg h]

theorem prefix_lay (out p : Text) : out <+: lay out p := by
  rw [lay]
  split
  · exact prefix_withBlankLine out
  · exact List.prefix_append _ _

/-- Writing a piece adds at most its own characters. -/
theorem length_lay_le {p : Text} (hp : p ≠ []) (out : Text) :
    (lay out p).length ≤ out.length + p.length := by
  have hpos := List.length_pos_iff.2 hp
  rw [lay]
  split
  · have := length_withBlankLine_le out
    omega
  · rw [List.length_append]

theorem prefix_foldl_lay (ps : List Text) (out : Text) : out <+: ps.foldl lay out := by
  induction ps generalizing out with
  | nil => exact List.prefix_rfl
  | cons p ps ih => exact (prefix_lay out p).trans (ih _)

theorem length_foldl_lay_le {ps : List Text} (h : ∀ p ∈ ps, p ≠ []) (out : Text) :
    (ps.foldl lay out).length ≤ out.length + ps.flatten.length := by
  induction ps generalizing out with
  | nil => simp
  | cons p ps ih =>
    have hp := length_lay_le (h p List.mem_cons_self) out
    have hps := ih (fun q hq => h q (List.mem_cons_of_mem p hq)) (lay out p)
    rw [List.foldl_cons, List.flatten_cons, List.length_append]
    omega

theorem ne_nil_of_mem_pieces {t p : Text} (h : p ∈ pieces t) : p ≠ [] :=
  (isPiece_of_mem_pieces h).ne_nil

theorem length_layText_le (out t : Text) : (layText out t).length ≤ out.length + t.length := by
  have h := length_foldl_lay_le (fun p hp => ne_nil_of_mem_pieces (t := t) hp) out
  rwa [flatten_pieces] at h

theorem layText_append {a b : Text} (h : Seam a b) (out : Text) :
    layText out (a ++ b) = layText (layText out a) b := by
  rw [layText, h.pieces_append, List.foldl_append]
  rfl

theorem layText_piece {p : Text} (h : IsPiece p) (out : Text) : layText out p = lay out p := by
  rw [layText, h.pieces_eq]
  rfl

/-- A line feed that is a piece of its own is written as a blank line. -/
theorem layText_append_newline {t : Text} (h : pieces (t ++ ['\n']) = pieces t ++ [['\n']]) :
    layText [] (t ++ ['\n']) = withBlankLine (layText [] t) := by
  rw [layText, h, List.foldl_append, List.foldl_cons, lay_newline]
  rfl

/-- A line feed that belongs to the last piece is written with it. -/
theorem layText_append_newline_of_ne {t p : Text} {ps : List Text} (hp : pieces t = ps ++ [p])
    (hp' : pieces (t ++ ['\n']) = ps ++ [p ++ ['\n']]) (hs : shape p ≠ .blank) :
    layText [] (t ++ ['\n']) = layText [] t ++ ['\n'] := by
  rw [layText, layText, hp, hp', List.foldl_append, List.foldl_append]
  show lay _ (p ++ ['\n']) = lay _ p ++ ['\n']
  rw [lay_of_ne hs, lay_of_ne (by rwa [shape_append_newline]), List.append_assoc]

namespace IsTidy

theorem nil : IsTidy [] := rfl

/-- The first part of a tidy text is tidy. -/
theorem of_seam {a b : Text} (h : Seam a b) (ht : IsTidy (a ++ b)) : IsTidy a := by
  rw [IsTidy, layText_append h] at ht
  have hpre : layText [] a <+: a ++ b := ht ▸ prefix_foldl_lay (pieces b) _
  have hlen := length_layText_le (layText [] a) b
  have ha := length_layText_le [] a
  rw [ht, List.length_append] at hlen
  rw [List.length_nil] at ha
  refine List.IsPrefix.eq_of_length ?_ (by omega : (layText [] a).length = a.length)
  exact List.prefix_of_prefix_length_le hpre (List.prefix_append a b) (by omega)

/-- Behind a tidy first part the second part is written as it is. -/
theorem layText_eq {a b : Text} (h : Seam a b) (ht : IsTidy (a ++ b)) : layText a b = a ++ b := by
  have ha := of_seam h ht
  rw [IsTidy, layText_append h, ha] at ht
  exact ht

theorem append {a b : Text} (h : Seam a b) (ha : IsTidy a) (hb : layText a b = a ++ b) :
    IsTidy (a ++ b) := by
  rw [IsTidy, layText_append h, ha, hb]

/-- A statement behind a tidy text. -/
theorem append_piece {out p : Text} (ht : IsTidy out) (h : Meets out p) (hp : IsPiece p)
    (hs : shape p ≠ .blank) : IsTidy (out ++ p) := by
  have hl : ∀ o : Text, layText o p = o ++ p := fun o => by
    rw [layText_piece hp, lay_of_ne hs]
  rcases h with rfl | h
  · exact hl []
  · exact append h ht (hl out)

/-- A blank piece at the end of a tidy text is a line feed, because no more is written for it. -/
theorem eq_newline_of_blank {t p : Text} {ps : List Text} (ht : IsTidy t) (hp : pieces t = ps ++ [p])
    (hs : shape p = .blank) : p = ['\n'] := by
  have hne : ∀ q ∈ ps ++ [p], q ≠ [] := fun q hq => ne_nil_of_mem_pieces (hp ▸ hq)
  have hlen := length_foldl_lay_le (fun q hq => hne q (List.mem_append_left _ hq)) []
  have hpos := List.length_pos_iff.2 (hne p (by simp))
  have hlay : Descriptor.withBlankLine (ps.foldl lay []) = ps.flatten ++ p := by
    have hflat : t = ps.flatten ++ p := by
      rw [← flatten_pieces t, hp]
      simp
    rw [IsTidy, layText, hp, List.foldl_append] at ht
    exact ((if_pos hs).symm.trans ht).trans hflat
  have hsize := congrArg List.length hlay
  rw [List.length_append] at hsize
  rw [List.length_nil] at hlen
  rcases withBlankLine_cases (ps.foldl lay []) with ⟨he, -⟩ | he
  · rw [he] at hsize
    omega
  · rw [he, List.length_append, List.length_singleton] at hsize
    rw [he] at hlay
    exact (List.append_inj' hlay (by rw [List.length_singleton]; omega)).2.symm

/-- A line feed behind a tidy text that does not end with a blank line. -/
theorem append_newline {t : Text} (ht : IsTidy t) (hne : t ≠ []) (hn : ¬ ['\n', '\n'] <:+ t) :
    IsTidy (t ++ ['\n']) := by
  have hblank : Descriptor.withBlankLine t = t ++ ['\n'] := by
    rcases withBlankLine_cases t with ⟨-, h | h⟩ | h
    · exact absurd h hne
    · exact absurd h hn
    · exact h
  rcases pieces_append_newline t with hp | ⟨ps, p, hp, hp'⟩
  · rw [IsTidy, layText_append_newline hp, ht, hblank]
  · have hs : shape p ≠ .blank := by
      -- a line feed does not take another one
      intro hs
      obtain rfl := eq_newline_of_blank ht hp hs
      have hpiece : stretches (marks ['\n', '\n']) = [marks ['\n', '\n']] :=
        isPiece_of_mem_pieces (t := t ++ ['\n']) (by rw [hp']; simp)
      exact absurd hpiece (by decide)
    rw [IsTidy, layText_append_newline_of_ne hp hp' hs, ht]

/-- A line feed may be taken off the end of a tidy text. -/
theorem of_append_newline {t : Text} (ht : IsTidy (t ++ ['\n'])) : IsTidy t := by
  have hle := length_layText_le [] t
  rw [List.length_nil] at hle
  rcases pieces_append_newline t with hp | ⟨ps, p, hp, hp'⟩
  · have hlay := (layText_append_newline hp).symm.trans ht
    rcases withBlankLine_cases (layText [] t) with ⟨he, -⟩ | he
    · have := congrArg List.length (he.symm.trans hlay)
      rw [List.length_append, List.length_singleton] at this
      omega
    · exact List.append_cancel_right (he.symm.trans hlay)
  · have hs : shape p ≠ .blank := by
      intro hs
      have hone := congrArg List.length (eq_newline_of_blank ht hp' (by rwa [shape_append_newline]))
      have hpos := List.length_pos_iff.2 (ne_nil_of_mem_pieces (t := t) (p := p) (by rw [hp]; simp))
      rw [List.length_append, List.length_singleton] at hone
      omega
    exact List.append_cancel_right ((layText_append_newline_of_ne hp hp' hs).symm.trans ht)

theorem withBlankLine {t : Text} (ht : IsTidy t) : IsTidy (withBlankLine t) := by
  rcases withBlankLine_cases t with ⟨he, -⟩ | he
  · rwa [he]
  · rw [he]
    refine ht.append_newline ?_ ?_
    · rintro rfl
      cases he
    · intro hs
      rw [Descriptor.withBlankLine, List.isSuffixOf_iff_suffix.2 hs, Bool.or_true, if_pos rfl] at he
      simpa using congrArg List.length he

theorem withLineEnd {t : Text} (ht : IsTidy t) : IsTidy (withLineEnd t) := by
  rcases withLineEnd_cases t with ⟨he, -⟩ | he
  · rwa [he]
  · rw [he]
    refine ht.append_newline ?_ ?_
    · rintro rfl
      cases he
    · rintro ⟨u, rfl⟩
      rw [Descriptor.withLineEnd, List.getLast?_append] at he
      simp at he

theorem withoutBlankEnd {t : Text} (ht : IsTidy t) : IsTidy (withoutBlankEnd t) := by
  obtain ⟨k, hk⟩ := exists_withoutBlankEnd t
  have hind : ∀ (k : Nat) (u : Text), IsTidy (u ++ List.replicate k '\n') → IsTidy u := by
    intro k
    induction k with
    | zero => intro u hu; simpa using hu
    | succ k ih =>
      intro u hu
      rw [List.replicate_succ', ← List.append_assoc] at hu
      exact ih u hu.of_append_newline
  rw [hk] at ht
  exact hind k _ ht

/-- A line behind a tidy text. -/
theorem append_line {out w : Text} (ht : IsTidy out) (ho : IsFresh out) (hw : IsLine w)
    (hs : shape (w ++ ['\n']) ≠ .blank) : IsTidy (out ++ (w ++ ['\n'])) :=
  ht.append_piece (ho.imp id fun hc => hw.seam hc []) hw.isPiece hs

end IsTidy

/-! ### Repaired texts -/

theorem IsTidy.put {receiver out t : Text} {s : Segment} (ht : IsTidy out)
    (hm : Meets out s.text) (hs : s ∈ segments t) : IsTidy (put receiver out s) := by
  obtain ⟨hp, hk⟩ := of_mem_segments hs
  rw [Descriptor.put]
  split_ifs with hd he hb
  · exact ht.withLineEnd
  · exact ht
  · exact ht.withBlankLine
  · exact ht.append_piece hm hp (hk ▸ hb)

theorem IsTidy.foldl_put {receiver out t : Text} {segs : List Segment} (ht : IsTidy out)
    (hs : ∀ s ∈ segs, s ∈ segments t) (hc : (segs.map Segment.text).IsChain Seam)
    (h : ∀ s ∈ segs.head?, Meets out s.text) : IsTidy (segs.foldl (Descriptor.put receiver) out) := by
  induction segs generalizing out with
  | nil => exact ht
  | cons s segs ih =>
    have hm : Meets out s.text := h s rfl
    refine ih (ht.put hm (hs s List.mem_cons_self)) (fun x hx => hs x (List.mem_cons_of_mem s hx))
      hc.tail fun n hn => ?_
    cases segs with
    | nil => cases hn
    | cons m segs =>
      obtain rfl : m = n := by simpa using hn
      rw [List.map_cons, List.map_cons, List.isChain_cons_cons] at hc
      exact put_meets hm hc.1

section Draft

variable {c : Context} {t : Text} {l : ObjectLiteral} {lead mid rest : List Segment}
  {site : Segment} {intro : Text}

theorem IsTidy.append_header {r : Registry} {out : Text} (ht : IsTidy out) (ho : IsFresh out)
    (hr : isName r.receiver = true) (s : Segment) : IsTidy (out ++ header r s) := by
  have hk := (shape_registryImport hr).2
  have hline := ht.append_line ho (isLine_registryImport hr) (by rw [hk]; simp)
  rcases header_cases r s with h | h <;> rw [h]
  · exact hline
  · rw [← List.append_assoc]
    refine hline.append_newline (by simp) ?_
    rintro ⟨u, hu⟩
    rw [registryImport_eq] at hu
    have hr := congrArg List.reverse hu
    simp at hr

theorem IsTidy.append_canonicalStatements {out : Text} (ht : IsTidy out) (ho : IsFresh out)
    (hr : IsReceiver c.registry.receiver) (hl : firstLiteral? t = some l) :
    IsTidy (out ++ canonicalStatements c l) := by
  have hx := isName_identifier hl
  have hcall := isLine_registrationCall hr.isName hx
  have hk₁ := (shape_registrationCall hr hx).2
  have hfirst := ht.append_line ho hcall (by rw [hk₁]; simp)
  have hsecond := hfirst.append_line (.inr (.inl (.append ho.endState hcall.closedBy)))
    (isLine_diagnosticOf c l) (by rw [shape_diagnosticOf]; simp)
  rw [canonicalStatements_eq, ← List.append_assoc]
  exact hsecond

/-- **Repaired texts are tidy.** -/
theorem Planned.isTidy_repaired (h : Planned c l t lead mid site rest intro)
    (hr : IsReceiver c.registry.receiver) (hb : isBalanced t = true)
    (hl : firstLiteral? t = some l) :
    IsTidy (withoutBlankEnd (withLineEnd (draft c l t lead mid site rest intro))) := by
  have hmem : ∀ s ∈ lead ++ mid ++ site :: rest, s ∈ segments t := fun s hs => h.segments_eq ▸ hs
  have hc := isChain_text_segments t
  rw [h.segments_eq, List.append_assoc, List.map_append, List.isChain_append, List.map_append,
    List.isChain_append, List.map_cons] at hc
  have hlead : IsTidy (lead.foldl (Descriptor.put c.registry.receiver) []) :=
    IsTidy.nil.foldl_put (fun s hs => hmem s (by simp [hs])) hc.1 fun _ _ => .inl rfl
  have hintro : IsTidy (lead.foldl (Descriptor.put c.registry.receiver) [] ++ intro) := by
    rcases h.intro_eq with ⟨-, -, rfl⟩ | ⟨-, s, -, -, -, rfl⟩
    · rwa [List.append_nil]
    · exact hlead.append_header h.isFresh_lead hr.isName s
  have hfront : IsTidy (writtenFront c.registry.receiver lead mid intro) := by
    refine hintro.foldl_put (fun s hs => hmem s (by simp [hs])) hc.2.1.1 fun m hm => ?_
    refine h.meets_intro hr.isName m ?_
    cases mid with
    | nil => cases hm
    | cons x mid => simpa using hm
  have hplace : IsTidy (frontOfCall c.registry.receiver
      (writtenFront c.registry.receiver lead mid intro) site) := by
    obtain ⟨hp, hz, hn⟩ := h.site_text
    have hk := (of_mem_segments (hmem site (by simp))).2
    rw [frontOfCall]
    split
    · exact hfront.withLineEnd
    · rw [← ended_append hz hn]
      exact (hfront.append_piece (h.meets_site hr.isName) hp
        (hk ▸ h.site_kind.1)).withLineEnd.withBlankLine
  have hclosed := h.closedBy_front hr.isName hb
  have hcall := hplace.append_canonicalStatements (hclosed.imp id .inl) hr hl
  rw [← h.writtenCall_eq_append] at hcall
  refine IsTidy.withoutBlankEnd (IsTidy.withLineEnd ?_)
  refine hcall.foldl_put (fun s hs => hmem s (by simp [hs])) hc.2.1.2.1.tail fun r hr' => ?_
  rw [h.writtenCall_eq_append]
  have hk := closedBy_canonicalStatements hr.isName hl
  rcases hclosed with he | he
  · rw [he]
    exact .inr (.inl hk)
  · exact .inr (.inl (.append (Closed.endState (.inl he)) hk))

end Draft

end ElementModules.Descriptor
