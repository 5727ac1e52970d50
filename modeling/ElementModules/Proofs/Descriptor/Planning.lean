import ElementModules.Proofs.Descriptor.Writing
import ElementModules.Proofs.Script.Places

/-!
# Where a repair writes

The plan of a repair is made of indices into the list of segments: that of the segment that holds the
first literal, of the one at which the call is written and of the one in front of which the import is
written. Here the segments are cut there (`exists_planned`). The segment of the call holds a
statement and does not stand in front of the binding; all segments in front of the import are blank
or comments.

## Main results

* `exists_planned`: the cut that a plan makes.
* `repair_eq_ok`: a repaired text is its draft with a tidied end.
-/

namespace ElementModules.Descriptor

open Text Script

/-- The segments of a module and what a repair writes between them. The import stands behind `lead`,
the call at `site`. -/
structure Planned (c : Context) (l : ObjectLiteral) (t : Text) (lead mid : List Segment)
    (site : Segment) (rest : List Segment) (intro : Text) : Prop where
  segments_eq : segments t = lead ++ mid ++ site :: rest
  cut : Cut (repairPlan c l (segments t)) lead mid site intro
  site_kind : site.kind ≠ .blank ∧ site.kind ≠ .comment
  lead_kind : ∀ s ∈ lead, s.kind = .blank ∨ s.kind = .comment
  intro_eq : (∃ s ∈ segments t, s.kind = .importDecl ∧ s.mentions c.registry.receiver = true)
      ∧ lead = [] ∧ intro = []
    ∨ (¬ ∃ s ∈ segments t, s.kind = .importDecl ∧ s.mentions c.registry.receiver = true)
      ∧ ∃ s ∈ (mid ++ [site]).head?, s.kind ≠ .blank ∧ s.kind ≠ .comment
        ∧ intro = header c.registry s
  binding_le : segmentAt l.statement.start (segments t) ≤ lead.length + mid.length

theorem segmentAt_of_findIdx? {offset i : Nat} {segs : List Segment}
    (h : segs.findIdx? (Segment.covers offset) = some i) : segmentAt offset segs = i := by
  have hat : segmentAt offset segs = (segs.findIdx? (Segment.covers offset)).getD 0 := rfl
  rw [hat, h, Option.getD_some]

theorem exists_getElem_of_lastIndex? {p : Segment → Bool} {segs : List Segment} {k : Nat}
    (h : lastIndex? p segs = some k) : ∃ s, segs[k]? = some s ∧ p s = true := by
  obtain ⟨i, hi, rfl⟩ := Option.map_eq_some_iff.1 h
  obtain ⟨hlt, hp, -⟩ := List.findIdx?_eq_some_iff_getElem.1 hi
  rw [List.length_reverse] at hlt
  refine ⟨_, List.getElem?_eq_getElem (by omega), ?_⟩
  rwa [List.getElem_reverse] at hp

/-- The segment of the call is a statement and does not stand in front of the binding. -/
theorem exists_anchor (receiver : Text) {binding : Nat} {segs : List Segment} {s : Segment}
    (hs : segs[binding]? = some s) (hk : s.kind ≠ .blank ∧ s.kind ≠ .comment) :
    binding ≤ anchorIndex receiver binding segs
      ∧ ∃ a, segs[anchorIndex receiver binding segs]? = some a ∧ a.kind ≠ .blank
        ∧ a.kind ≠ .comment := by
  rw [anchorIndex]
  cases hf : (segs.drop (binding + 1)).findIdx? (isRegistrationOn receiver) with
  | some k =>
    obtain ⟨hlt, hp, -⟩ := List.findIdx?_eq_some_iff_getElem.1 hf
    have hlt' : k < segs.length - (binding + 1) := by rwa [List.length_drop] at hlt
    rw [List.getElem_drop] at hp
    simp only [isRegistrationOn, decide_eq_true_eq] at hp
    change binding ≤ binding + 1 + k
      ∧ ∃ a, segs[binding + 1 + k]? = some a ∧ a.kind ≠ .blank ∧ a.kind ≠ .comment
    refine ⟨Nat.le_trans (Nat.le_succ binding) (Nat.le_add_right _ k), segs[binding + 1 + k],
      List.getElem?_eq_getElem (by omega), ?_⟩
    rw [hp]
    exact ⟨by simp, by simp⟩
  | none =>
    dsimp only
    refine ⟨Nat.le_max_right _ _, ?_⟩
    cases hl : lastIndex? isExport segs with
    | none =>
      rw [Option.getD_none, Nat.max_self]
      exact ⟨s, hs, hk⟩
    | some k =>
      rw [Option.getD_some]
      obtain ⟨e, he, hp⟩ := exists_getElem_of_lastIndex? hl
      rcases Nat.le_total k binding with hle | hle
      · rw [Nat.max_eq_right hle]
        exact ⟨s, hs, hk⟩
      · rw [Nat.max_eq_left hle]
        refine ⟨e, he, ?_⟩
        rw [isExport] at hp
        split at hp <;> simp_all

/-- The segments are cut at the call. -/
theorem exists_cut_anchor (c : Context) {l : ObjectLiteral} {t : Text}
    (h : firstLiteral? t = some l) :
    ∃ front site rest, segments t = front ++ site :: rest
      ∧ (repairPlan c l (segments t)).anchor = front.length
      ∧ (site.kind ≠ .blank ∧ site.kind ≠ .comment)
      ∧ segmentAt l.statement.start (segments t) ≤ front.length := by
  obtain ⟨pre, b, post, hseg, hb₁, hb₂, hi⟩ := exists_segment_at h
  have hget : (segments t)[segmentAt l.statement.start (segments t)]? = some b := by
    rw [segmentAt_of_findIdx? hi, hseg]
    simp
  obtain ⟨hle, site, hsite, hs⟩ := exists_anchor c.registry.receiver hget ⟨hb₁, hb₂⟩
  obtain ⟨hlt, hsite⟩ := List.getElem?_eq_some_iff.1 hsite
  have hlen := List.length_take_of_le hlt.le
  have hsegs := List.take_append_drop (anchorIndex c.registry.receiver
    (segmentAt l.statement.start (segments t)) (segments t)) (segments t)
  rw [List.drop_eq_getElem_cons hlt, hsite] at hsegs
  exact ⟨_, site, _, hsegs.symm, hlen.symm, hs, hlen.symm ▸ hle⟩

/-- Segments with a statement among them are cut in front of their first statement. -/
theorem exists_cut_import (front : List Segment) {site : Segment}
    (hs : site.kind ≠ .blank ∧ site.kind ≠ .comment) (rest : List Segment) :
    ∃ lead mid, front = lead ++ mid
      ∧ (front ++ site :: rest).findIdx? (fun s => !(s.kind = .blank || s.kind = .comment))
        = some lead.length
      ∧ (∀ s ∈ lead, s.kind = .blank ∨ s.kind = .comment)
      ∧ ∃ m ∈ (mid ++ [site]).head?, m.kind ≠ .blank ∧ m.kind ≠ .comment := by
  induction front with
  | nil =>
    refine ⟨[], [], rfl, ?_, fun s hs => absurd hs List.not_mem_nil, site, rfl, hs⟩
    rw [List.nil_append, List.findIdx?_cons, if_pos (by simp [hs.1, hs.2])]
    rfl
  | cons x front ih =>
    rw [List.cons_append, List.findIdx?_cons]
    by_cases hx : x.kind = .blank ∨ x.kind = .comment
    · obtain ⟨lead, mid, rfl, hi, hlead, hm⟩ := ih
      refine ⟨x :: lead, mid, rfl, ?_, ?_, hm⟩
      · rw [if_neg (by simpa [or_iff_not_imp_left] using hx), hi]
        rfl
      · rintro s hs
        rcases List.mem_cons.1 hs with rfl | hs
        · exact hx
        · exact hlead s hs
    · rw [not_or] at hx
      refine ⟨[], x :: front, rfl, ?_, fun s hs => absurd hs List.not_mem_nil, x, rfl, hx⟩
      rw [if_pos (by simp [hx.1, hx.2])]
      rfl

/-- **The cut that a plan makes.** -/
theorem exists_planned {c : Context} {l : ObjectLiteral} {t : Text} (h : firstLiteral? t = some l) :
    ∃ lead mid site rest intro, Planned c l t lead mid site rest intro := by
  obtain ⟨front, site, rest, hsegs, hanchor, hs, hle⟩ := exists_cut_anchor c h
  by_cases hm : ∃ s ∈ segments t, s.kind = .importDecl ∧ s.mentions c.registry.receiver = true
  · have hnone : importIndex? c.registry.receiver (segments t) = none := by
      obtain ⟨s, hs, hk, hr⟩ := hm
      rw [importIndex?, if_pos (List.any_eq_true.2 ⟨s, hs, by simp [hk, hr]⟩)]
    exact ⟨[], front, site, rest, [], hsegs,
      ⟨by rw [hanchor, List.length_nil, Nat.zero_add], .inl ⟨hnone, rfl, rfl⟩⟩, hs,
      fun _ hs => absurd hs List.not_mem_nil, .inl ⟨hm, rfl, rfl⟩,
      by rwa [List.length_nil, Nat.zero_add]⟩
  · obtain ⟨lead, mid, rfl, hi, hlead, m, hmid, hk⟩ := exists_cut_import front hs rest
    have hsome : importIndex? c.registry.receiver (segments t) = some lead.length := by
      rw [importIndex?, if_neg, hsegs, hi]
      rw [List.any_eq_true]
      rintro ⟨s, hs, hk⟩
      simp only [Bool.and_eq_true, decide_eq_true_eq] at hk
      exact hm ⟨s, hs, hk⟩
    rw [List.length_append] at hanchor hle
    exact ⟨lead, mid, site, rest, header c.registry m, hsegs,
      ⟨hanchor, .inr ⟨hsome, m, hmid, rfl⟩⟩, hs, hlead, .inr ⟨hm, m, hmid, hk.1, hk.2, rfl⟩, hle⟩

/-- The repaired text before its end is tidied up. -/
def draft (c : Context) (l : ObjectLiteral) (t : Text) (lead mid : List Segment) (site : Segment)
    (rest : List Segment) (intro : Text) : Text :=
  rest.foldl (put c.registry.receiver)
    (writtenCall (repairPlan c l (segments t)) lead mid site intro)

/-- **A repaired text is its draft with a tidied end.** -/
theorem repair_eq_ok {c : Context} {t out : Text} (h : repair c t = .ok out) :
    ∃ l lead mid site rest intro, firstLiteral? t = some l ∧ l.closing = .balanced
      ∧ Planned c l t lead mid site rest intro
      ∧ out = withoutBlankEnd (withLineEnd (draft c l t lead mid site rest intro)) := by
  rw [repair] at h
  cases hl : firstLiteral? t with
  | none => rw [hl] at h; cases h
  | some l =>
    rw [hl] at h
    cases hc : l.closing with
    | heuristic => simp [hc] at h
    | balanced =>
      simp only [hc, Except.ok.injEq] at h
      obtain ⟨lead, mid, site, rest, intro, hp⟩ := exists_planned (c := c) hl
      refine ⟨l, lead, mid, site, rest, intro, rfl, hc, hp, ?_⟩
      have hw := hp.cut.foldl_write rest
      rw [← hp.segments_eq] at hw
      rw [← h, RepairPlan.apply, hw]
      rfl

/-- A context with short names, for evaluation. -/
def sampleContext : Context :=
  ⟨"a", "x", .empty "b", ⟨"r", "r.js", "i.js"⟩⟩

theorem isReceiver_sampleContext : IsReceiver sampleContext.registry.receiver :=
  ⟨by decide, by decide, by decide, by decide⟩

/-- A module that registers another name than the one it binds. -/
def sampleModule : Text := "let x = \x7b\x7d;\nr.register(y);\n"

/-- The same module, repaired. -/
def sampleRepaired : Text :=
  "import \x7b r \x7d from 'r.js';\n\nlet x = \x7b\x7d;\nr.register(x);\nconsole.log('✔ [a] b/x');\n"

theorem repair_sampleModule : repair sampleContext sampleModule = .ok sampleRepaired := by
  decide +kernel

end ElementModules.Descriptor
