import ElementModules.Proofs.Descriptor.Declared
import ElementModules.Proofs.Descriptor.Repaired
import ElementModules.Proofs.Script.Bindings

/-!
# When a repair converges

A repaired module whose first literal stands in an ordinary binding is in repaired form
(`Planned.exists_repaired`). So a second repair changes nothing if and only if the repaired text
leads to the same canonical statements, and this is seen on the bare repair (`repair_converges_iff`).
Only a blank line with other blanks than those of ASCII can make the difference: it is left out, and
may part a head from its brace (`repair_does_not_converge`).

## Main results

* `Planned.exists_repaired`: repaired modules are in repaired form.
* `repair_converges_iff`: when a repair of a module with an ordinary binding converges.
-/

namespace ElementModules.Descriptor

open Text Script

/-! ### Modules with an ordinary binding -/

/-- A balanced module whose first literal stands in a statement `s` with the shape of a binding, such
that no statement in front of `s` gives way. -/
structure HasBinding (receiver t : Text) (l : ObjectLiteral) (before : List Segment) (s : Segment)
    (after : List Segment) : Prop where
  balanced : isBalanced t = true
  first : firstLiteral? t = some l
  segments_eq : segments t = before ++ s :: after
  starts : s.span.start ≤ l.statement.start ∧ l.statement.start < s.span.stop
  binding : ∃ x e, s.kind = .binding x e
  kept : ∀ b ∈ before, isSuperseded receiver b = false

namespace HasBinding

variable {c : Context} {t : Text} {l : ObjectLiteral} {before after : List Segment} {s : Segment}

section Shape

variable {receiver : Text} (h : HasBinding receiver t l before s after)
include h

theorem mem : s ∈ segments t := by rw [h.segments_eq]; simp

/-- The binding stays in place. -/
theorem kept_binding : isSuperseded receiver s = false ∧ s.kind ≠ .blank ∧ s.kind ≠ .comment := by
  obtain ⟨x, e, hk⟩ := h.binding
  simp [isSuperseded, isRegistrationOn, hk]

theorem isSome_declaration? : (declaration? s.text).isSome = true := by
  obtain ⟨x, e, hk⟩ := h.binding
  exact isSome_declaration?_of_binding ((of_mem_segments h.mem).2.symm.trans hk)

/-- The binding is found by the offset of the first literal. -/
theorem segmentAt_eq : segmentAt l.statement.start (segments t) = before.length := by
  have hs : Segment.covers l.statement.start s = true := by simp [Segment.covers, h.starts]
  have hbefore : before.findIdx? (Segment.covers l.statement.start) = none := by
    rw [List.findIdx?_eq_none_iff]
    intro b hb
    obtain ⟨b₁, b₂, rfl⟩ := List.append_of_mem hb
    have hsegs : segments t = b₁ ++ b :: (b₂ ++ s :: after) := by
      rw [h.segments_eq, List.append_assoc, List.cons_append]
    have hle := (span_stop_le_start (x := s) hsegs (by simp)).trans h.starts.1
    simp only [Segment.covers, Bool.and_eq_false_iff, decide_eq_false_iff_not]
    exact .inr (Nat.not_lt.2 hle)
  refine segmentAt_of_findIdx? ?_
  rw [h.segments_eq, List.findIdx?_append, hbefore, List.findIdx?_cons, hs]
  simp

/-- The first literal ends in its statement. -/
theorem span_stop_le (hc : l.closing = .balanced) : l.span.stop ≤ s.span.stop := by
  have hsegs : segments t = (before ++ [s]) ++ after := by rw [h.segments_eq]; simp
  obtain ⟨n, hn⟩ := exists_marks_eq hsegs
  have hfresh := isFresh_of_segments_eq h.segments_eq
  have htext : (before ++ [s]).flatMap Segment.text = before.flatMap Segment.text ++ s.text := by
    simp
  have hbal : isBalanced ((before ++ [s]).flatMap Segment.text) = true := by
    rw [htext, isBalanced, endState_append, hfresh.endState]
    exact isBalanced_of_mem_segments h.balanced h.mem
  have hdecl := isSome_declaration?_upTo h.segments_eq h.isSome_declaration?
  have hle := (declares_iff h.first hc hn).1
    (declares_of_isBalanced h.first hc hn hbal (declaration?_isSome_iff.1 hdecl))
  rwa [sizeOf_marks, htext, size_append, ← (span_of_segments_eq h.segments_eq).1,
    ← (span_of_segments_eq h.segments_eq).2] at hle

end Shape

variable (h : HasBinding c.registry.receiver t l before s after)
include h

/-- The call is written at the binding or behind it. -/
theorem exists_mid {lead mid rest : List Segment} {site : Segment} {intro : Text}
    (hp : Planned c l t lead mid site rest intro) :
    ∃ mid₁, before = lead ++ mid₁
      ∧ (mid = mid₁ ∧ site = s ∨ ∃ mid₂, mid = mid₁ ++ s :: mid₂) := by
  have hle := hp.binding_le
  rw [h.segmentAt_eq, ← List.length_append] at hle
  have hsegs : before ++ s :: after = lead ++ (mid ++ site :: rest) := by
    rw [← h.segments_eq, hp.segments_eq, List.append_assoc]
  have hlead : lead.length ≤ before.length := by
    by_contra hlt
    have hs : s ∈ lead := by
      have hget : (lead ++ (mid ++ site :: rest))[before.length]? = some s := by
        rw [← hsegs]
        simp
      rw [List.getElem?_append_left (by omega)] at hget
      exact List.mem_of_getElem? hget
    rcases hp.lead_kind s hs with hk | hk
    · exact h.kept_binding.2.1 hk
    · exact h.kept_binding.2.2 hk
  obtain ⟨mid₁, rfl⟩ : lead <+: before :=
    List.prefix_of_prefix_length_le (List.prefix_append _ _) (hsegs ▸ List.prefix_append _ _) hlead
  rw [List.append_assoc] at hsegs
  have hmid : mid₁ ++ s :: after = (mid ++ [site]) ++ rest := by
    rw [List.append_cancel_left hsegs]
    simp
  obtain ⟨mid₂, hmid₂⟩ : mid₁ ++ [s] <+: mid ++ [site] := by
    have hs : mid₁ ++ [s] <+: mid₁ ++ s :: after := ⟨after, by simp⟩
    refine List.prefix_of_prefix_length_le hs (hmid ▸ List.prefix_append _ _) ?_
    simp only [List.length_append, List.length_singleton] at hle ⊢
    omega
  refine ⟨mid₁, rfl, ?_⟩
  rcases List.eq_nil_or_concat mid₂ with rfl | ⟨mid₂, site', rfl⟩
  · obtain ⟨rfl, hs⟩ := List.append_inj' (hmid₂.symm.trans (List.append_nil _)) rfl
    exact .inl ⟨rfl, by simpa using hs⟩
  · rw [List.concat_eq_append, ← List.append_assoc] at hmid₂
    obtain ⟨hm, -⟩ := List.append_inj' hmid₂ rfl
    exact .inr ⟨mid₂, by rw [← hm]; simp⟩

/-- What stands in front of the call holds the binding. -/
theorem isSome_declaration?_front (hr : isName c.registry.receiver = true)
    {lead mid rest : List Segment} {site : Segment} {intro : Text}
    (hp : Planned c l t lead mid site rest intro) :
    (declaration? (frontOfCall c.registry.receiver
      (writtenFront c.registry.receiver lead mid intro) site)).isSome = true := by
  obtain ⟨mid₁, -, hmid⟩ := h.exists_mid hp
  obtain ⟨hsup, hblank, -⟩ := h.kept_binding
  have hfresh : IsFresh (writtenFront c.registry.receiver lead mid₁ intro) := by
    rcases hmid with ⟨rfl, rfl⟩ | ⟨mid₂, rfl⟩
    · exact (hp.meets_site hr).isFresh
    · exact (hp.meets_at hr (List.append_assoc mid₁ (s :: mid₂) [site])).isFresh
  have hbound : (declaration? (writtenFront c.registry.receiver lead mid₁ intro ++ s.text)).isSome
      = true := by
    rcases hfresh with he | he
    · rw [he]
      exact h.isSome_declaration?
    · exact he.isSome_declaration?_append (.inr h.isSome_declaration?)
  rcases hmid with ⟨rfl, rfl⟩ | ⟨mid₂, rfl⟩
  · -- the call is written at the binding
    have hend := ended_induct (f := fun z => declaration?
      (writtenFront c.registry.receiver lead mid intro ++ z)) (fun z => by
        rw [← List.append_assoc, declaration?_append_newline]) site.text
    rw [frontOfCall, hsup, if_neg (by simp), hend]
    exact hbound
  · -- the call is written behind the binding
    have hput : put c.registry.receiver (writtenFront c.registry.receiver lead mid₁ intro) s
        = writtenFront c.registry.receiver lead mid₁ intro ++ s.text := by
      rw [put, if_neg (by simp [hsup]), if_neg hblank]
    have hfold : writtenFront c.registry.receiver lead (mid₁ ++ s :: mid₂) intro
        = mid₂.foldl (put c.registry.receiver)
          (writtenFront c.registry.receiver lead mid₁ intro ++ s.text) := by
      rw [writtenFront, List.foldl_append, List.foldl_cons, ← hput]
      rfl
    have hs : Closed s.text := hp.closed_front s (by simp)
    have hclosed : Closed (writtenFront c.registry.receiver lead mid₁ intro ++ s.text) :=
      hs.imp (.append hfresh.endState) (.append hfresh.endState)
    obtain ⟨r, hr'⟩ : writtenFront c.registry.receiver lead mid₁ intro ++ s.text
        <+: frontOfCall c.registry.receiver
          (writtenFront c.registry.receiver lead (mid₁ ++ s :: mid₂) intro) site := by
      rw [hfold]
      refine (prefix_foldl_put c.registry.receiver _ mid₂).trans ?_
      rw [frontOfCall]
      split
      · exact prefix_withLineEnd _
      · exact List.prefix_append _ _
    rw [← hr']
    exact hclosed.isSome_declaration?_append (.inl hbound)

/-- The first literal is not disturbed if the blank lines in front of it hold ASCII blanks only. -/
theorem undisturbed (hc : l.closing = .balanced) {lead mid rest : List Segment} {site : Segment}
    {intro : Text} (hp : Planned c l t lead mid site rest intro)
    (hblank : ∀ b ∈ before, b.kind = .blank → b.text.all isAsciiBlank = true) :
    Undisturbed c l t := by
  have hstop := h.span_stop_le hc
  obtain ⟨hsup, hb, -⟩ := h.kept_binding
  have hfront : ∀ x ∈ segments t, x.span.start < l.span.stop → x ∈ before ∨ x = s := by
    intro x hx hlt
    rw [h.segments_eq, List.mem_append, List.mem_cons] at hx
    rcases hx with hx | rfl | hx
    · exact .inl hx
    · exact .inr rfl
    · have hafter := span_stop_le_start h.segments_eq hx
      omega
  refine ⟨fun x hx hlt => ?_, fun x hx hlt hk => ?_, fun x hx => ?_⟩
  · rcases hfront x hx hlt with hin | rfl
    · exact h.kept x hin
    · exact hsup
  · rcases hfront x hx hlt with hin | rfl
    · exact hblank x hin hk
    · exact absurd hk hb
  · obtain ⟨mid₁, -, hmid⟩ := h.exists_mid hp
    have hx' : x = site := by
      rw [hp.cut.anchor_eq, hp.segments_eq, ← List.length_append,
        List.getElem?_append_right (Nat.le_refl _), Nat.sub_self] at hx
      simpa using hx.symm
    obtain rfl := hx'
    refine Nat.le_trans hstop ?_
    rcases hmid with ⟨-, rfl⟩ | ⟨mid₂, rfl⟩
    · exact Nat.le_refl _
    · have hsegs : segments t = (lead ++ mid₁) ++ s :: (mid₂ ++ x :: rest) := by
        rw [hp.segments_eq]
        simp
      have hsite := (span_of_segments_eq hp.segments_eq).2
      have hbehind := span_stop_le_start (x := x) hsegs (by simp)
      omega

end HasBinding

/-- A repaired module with an ordinary binding is in repaired form. -/
theorem Planned.exists_repaired {c : Context} {t : Text} {l : ObjectLiteral}
    {before after lead mid rest : List Segment} {s site : Segment} {intro : Text}
    (h : Planned c l t lead mid site rest intro) (hr : IsReceiver c.registry.receiver)
    (hm : HasBinding c.registry.receiver t l before s after) :
    ∃ front back, withoutBlankEnd (withLineEnd (draft c l t lead mid site rest intro))
        = front ++ (canonicalStatements c l ++ back)
      ∧ Repaired c t front l back := by
  obtain ⟨back, hback⟩ := h.exists_append
  have htidy := h.isTidy_repaired hr hm.balanced hm.first
  have hcount := h.countP_repaired hr hm.balanced hm.first
  have himports := h.importsReceiver_repaired hr hm.balanced hm.first
  have hfinish := finish_finish (draft c l t lead mid site rest intro)
  have hdecl := hm.isSome_declaration?_front hr.isName h
  have hclosed := (h.closedBy_front hr.isName hm.balanced).resolve_left fun he => by
    rw [he] at hdecl
    cases hdecl
  rw [List.append_assoc] at hback
  rw [hback] at htidy hcount himports hfinish
  refine ⟨_, back, hback, hm.first, htidy, hclosed, hdecl, ?_, himports, hfinish⟩
  have hread := isReading_readStatements (skipsNewline_answers hr.isName)
  rw [hread.append (.inl hclosed),
    hread.append (.inl (closedBy_canonicalStatements hr.isName hm.first)), List.countP_append,
    List.countP_append, countP_canonicalStatements hr hm.first] at hcount
  intro p hp
  rcases List.mem_append.1 hp with hp | hp
  · exact givesWay_of_countP (by omega) hp
  · exact givesWay_of_countP (by omega) hp

/-- **Convergence.** A second repair of a module with an ordinary binding changes nothing if and only
if the bare repair still leads to the same canonical statements; and it does if the blank lines in
front of the binding hold ASCII blanks only. -/
theorem repair_converges_iff {c : Context} {t out : Text} {l : ObjectLiteral}
    {before after : List Segment} {s : Segment} (hr : IsReceiver c.registry.receiver)
    (hm : HasBinding c.registry.receiver t l before s after) (h : repair c t = .ok out) :
    (repair c out = .ok out ↔ statementsFor? c (bareRepair c l t) = statementsFor? c t)
      ∧ ((∀ b ∈ before, b.kind = .blank → b.text.all isAsciiBlank = true) →
        repair c out = .ok out) := by
  obtain ⟨l', lead, mid, site, rest, intro, hl, hc, hp, rfl⟩ := repair_eq_ok h
  obtain rfl : l = l' := Option.some.inj (hm.first.symm.trans hl)
  have hbare := statementsFor?_congr (declaration?_repair hr.isName hm.first h) c
  have hthis : statementsFor? c t = some (canonicalStatements c l) :=
    statementsFor?_eq_some.2 ⟨l, hl, hc, rfl⟩
  obtain ⟨front, back, hout, hrep⟩ := hp.exists_repaired hr hm
  rw [hout] at hbare ⊢
  rw [hrep.repair_iff hr, hbare, hthis]
  refine ⟨Iff.rfl, fun hblank => ?_⟩
  have hdecl := hp.declaration?_bareRepair hr.isName hl hc (hm.undisturbed hc hp hblank)
  rw [statementsFor?_congr hdecl c, hthis]

theorem repair_converges_sample :
    HasBinding sampleContext.registry.receiver sampleModule
        ⟨.let, "x", false, ⟨0, 11⟩, ⟨8, 10⟩, "\x7b\x7d", [], ⟨1, 0, 0⟩, .balanced⟩ []
        ⟨.binding "x" false, ⟨0, 12⟩, "let x = \x7b\x7d;\n"⟩
        [⟨.registration "r", ⟨12, 27⟩, "r.register(y);\n"⟩]
      ∧ repair sampleContext sampleRepaired = .ok sampleRepaired := by
  have hm : HasBinding sampleContext.registry.receiver sampleModule
      ⟨.let, "x", false, ⟨0, 11⟩, ⟨8, 10⟩, "\x7b\x7d", [], ⟨1, 0, 0⟩, .balanced⟩ []
      ⟨.binding "x" false, ⟨0, 12⟩, "let x = \x7b\x7d;\n"⟩
      [⟨.registration "r", ⟨12, 27⟩, "r.register(y);\n"⟩] :=
    ⟨by decide, by decide, by decide, by decide, ⟨"x", false, rfl⟩, by simp⟩
  exact ⟨hm, (repair_converges_iff isReceiver_sampleContext hm repair_sampleModule).2 (by simp)⟩

/-- A module in which a line with a no-break space parts the head of `y` from its brace. -/
def partedModule : Text :=
  "let y =\n\u00a0\n\x7b\x7d;\nlet x = \x7b\x7d;\n"

/-- The repaired module: the line is left out, and the brace belongs to the head of `y`. -/
def joinedModule : Text :=
  ("import \x7b r \x7d from 'r.js';\n\nlet y =\n\n\x7b\x7d;\nlet x = \x7b\x7d;\n\n" : Text)
    ++ ("r.register(x);\nconsole.log('✔ [a] b/x');\n" : Text)

/-- A repair registers `x`, and a second repair takes `y` for the first literal. -/
theorem repair_does_not_converge :
    (∃ l before s after, HasBinding sampleContext.registry.receiver partedModule l before s after)
      ∧ repair sampleContext partedModule = .ok joinedModule
      ∧ repair sampleContext joinedModule ≠ .ok joinedModule := by
  refine ⟨⟨⟨.let, "x", false, ⟨15, 26⟩, ⟨23, 25⟩, "\x7b\x7d", [], ⟨4, 0, 15⟩, .balanced⟩,
    [⟨.other, ⟨0, 8⟩, "let y =\n"⟩, ⟨.blank, ⟨8, 11⟩, "\u00a0\n"⟩, ⟨.other, ⟨11, 15⟩, "\x7b\x7d;\n"⟩],
    ⟨.binding "x" false, ⟨15, 27⟩, "let x = \x7b\x7d;\n"⟩, [],
    ⟨?_, ?_, ?_, ?_, ⟨"x", false, rfl⟩, ?_⟩⟩, ?_, ?_⟩ <;> decide +kernel

end ElementModules.Descriptor
