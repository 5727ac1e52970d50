import ElementModules.Proofs.Descriptor.Gathering
import ElementModules.Proofs.Descriptor.Identity
import ElementModules.Proofs.Descriptor.Indentation
import ElementModules.Proofs.Descriptor.Planning
import ElementModules.Proofs.Descriptor.Rendering
import ElementModules.Proofs.Script.Identifiers

/-!
# What a conversion writes

A conversion of a balanced module writes a listing (`exists_writes`). Its entries are the lines of
the frame, the statements that are kept and the binding with what is left of the body. The body of a
literal that is not closed may hold a bracket too many, but the scan starts anew behind it as well
(`Drafts.endState_keptBody`).

## Main results

* `isBalanced_of_closedBody?`, `isBody_of_firstLiteral?`: the bodies that are taken over.
* `exists_writes`: what a conversion writes.
-/

namespace ElementModules.Descriptor

open Text Script

/-! ### The body -/

section Body

variable {t b : Text} {l : ObjectLiteral}

/-- The body of a closed first literal can stand between braces. -/
theorem isBody_of_firstLiteral? (hl : firstLiteral? t = some l) (hc : l.closing = .balanced) :
    IsBody l.body := by
  obtain ⟨a, r, -, -, -, hbody⟩ := exists_eq_of_firstLiteral? hl
  exact (isBody_of_bodyAt? (hbody hc)).1

/-- The body of a closed literal is taken over. -/
theorem closedBody?_of_balanced (hc : l.closing = .balanced) : closedBody? l = some l.body := by
  rw [closedBody?, hc]

/-- A body that is taken over begins as the literal does. -/
theorem prefix_of_closedBody? (h : closedBody? l = some b) : b <+: l.body := by
  rw [closedBody?] at h
  cases hc : l.closing with
  | balanced =>
    rw [hc] at h
    obtain rfl := Option.some.inj h
    exact List.prefix_rfl
  | heuristic =>
    rw [hc] at h
    obtain ⟨o, ho, hb⟩ := List.exists_of_findSome?_eq_some h
    have hb := (Option.filter_eq_some_iff.1 hb).1
    rcases List.mem_cons.1 ho with rfl | ho
    · obtain rfl := Option.some.inj hb
      exact List.prefix_rfl
    · rw [List.mem_singleton.1 ho] at hb
      exact (prefix_of_dropTrailing? hb).trans ((prefix_trimEnd _).trans
        ((prefix_dropTrailing _ _).trans (prefix_trimEnd _)))

variable (hl : firstLiteral? t = some l) (h : closedBody? l = some b)
include hl h

/-- A body that is taken over is balanced. -/
theorem isBalanced_of_closedBody? : isBalanced b = true := by
  rw [closedBody?] at h
  cases hc : l.closing with
  | balanced =>
    rw [hc] at h
    obtain rfl := Option.some.inj h
    exact (isBody_of_firstLiteral? hl hc).isBalanced
  | heuristic =>
    rw [hc] at h
    obtain ⟨_, -, hb⟩ := List.exists_of_findSome?_eq_some h
    exact (Option.filter_eq_some_iff.1 hb).2

/-- Quoted strings are closed in a body that is taken over. -/
theorem closesQuotes_of_closedBody? (hq : closesQuotes t = true) : closesQuotes b = true := by
  obtain ⟨a, r, rfl, ha, hpre, -⟩ := exists_eq_of_firstLiteral? hl
  obtain ⟨r', rfl⟩ := (prefix_of_closedBody? h).trans hpre
  rw [closesQuotes_append, ha, Bool.and_eq_true] at hq
  have hbody : (State.start.enclosed [.bracket]).closesQuotes (b ++ r') = true := by
    have := hq.2
    rw [State.closesQuotes, Bool.and_eq_true] at this
    exact this.2
  rw [State.closesQuotes_enclosed, State.closesQuotes_append, Bool.and_eq_true] at hbody
  exact hbody.1

end Body

/-- A closing bracket is no gap. -/
theorem isGap_of_closes {m : Mark} (h : closes 0 m = true) : isGap m = false := by
  rw [closes, Bool.and_eq_true, Bool.and_eq_true] at h
  rw [isGap, Bool.and_eq_false_iff]
  refine .inr ?_
  by_contra hb
  rw [Bool.not_eq_false] at hb
  rw [(State.ne_of_isBlank hb).2.2.2.2.2.2.2.2.2] at h
  exact absurd h.1.1 (by simp)

/-- Gaps do not matter to stray brackets. -/
theorem isStrayless_of_solid {ms : List Mark} (h : IsStrayless (solid ms)) : IsStrayless ms := by
  intro m hm
  by_contra hc
  rw [Bool.not_eq_false] at hc
  have := h m (List.mem_filter.2 ⟨hm, by simp [isGap_of_closes hc]⟩)
  rw [hc] at this
  cases this

section Indented

variable {w : Text} (hq : closesQuotes w = true)
include hq

/-- An indented body leaves the scan where it began. -/
theorem endState_indentBody (hb : isBalanced w = true) : endState (indentBody w) = .start :=
  (respaces_indentBody hb hq).run_eq.trans (Closed.endState (.inl (closedBy_newline hb)))

/-- An indented body has the solid marks of the body. -/
theorem solid_indentBody (hb : isBalanced w = true) :
    solid (marks (indentBody w)) = solid (marks w) := by
  have h := congrArg solid (respaces_indentBody hb hq).condense_eq
  rw [solid_condense, solid_condense] at h
  refine h.trans ?_
  show solid (marks (w ++ ['\n'])) = _
  rw [marks_concat (State.isTopLevelAt_newline hb) (by decide), solid_append]
  exact List.append_nil _

/-- A body can stand between braces after it has been indented if it could before. -/
theorem isBody_indentBody (h : IsBody w) : IsBody (indentBody w) := by
  constructor
  · refine isStrayless_of_solid ?_
    rw [solid_indentBody hq h.isBalanced]
    exact fun m hm => h.strayless m (List.mem_of_mem_filter hm)
  · rw [endState_indentBody hq h.isBalanced]
    exact ⟨rfl, rfl⟩

end Indented

/-! ### The kept statements -/

/-- The statements of a module that a conversion carries over. -/
def carriedOver (c : Context) (t : Text) : List Segment :=
  survivors c.registry.receiver ((firstLiteral? t).map ObjectLiteral.statement) (segments t)

/-- The side of the binding on which a statement stands. -/
def standsAhead (t : Text) (s : Segment) : Bool :=
  isAhead ((firstLiteral? t).map ObjectLiteral.statement) s

theorem mem_carriedOver {c : Context} {t : Text} {s : Segment} (h : s ∈ carriedOver c t) :
    s ∈ segments t ∧ s.kind ≠ .blank ∧ frameStandsFor c.registry.receiver s = false := by
  obtain ⟨hs, hc⟩ := mem_of_mem_survivors _ _ h
  simp only [isCarried, Bool.not_eq_true', Bool.or_eq_false_iff, decide_eq_false_iff_not] at hc
  exact ⟨hs, hc.1.1.2, hc.2⟩

theorem trimmed_ne_nil {t : Text} {s : Segment} (h : s ∈ segments t) (hk : s.kind ≠ .blank) :
    s.trimmed ≠ [] := by
  intro he
  refine hk ?_
  have ht : trim s.text = [] := he
  rw [(of_mem_segments h).2, shape, kindOf, chars_marks, ht]
  rfl

theorem joinWith_concat (ps : List Text) (p : Text) :
    joinWith ['\n'] (ps ++ [p]) = listing ps ++ p := by
  refine (List.append_left_inj ['\n']).1 ?_
  rw [Frame.joinWith_newline (by simp), listing_append, listing_cons, listing_nil, List.append_nil,
    List.append_assoc]

/-- Kept statements are joined to a text with something in it. -/
theorem Laid.joinWith_ne_nil {c : Context} {t : Text} {ps : List Text} {ss : List Segment}
    (h : Laid ps ss) (hs : ∀ s ∈ ss, s ∈ carriedOver c t) :
    ps = [] ∨ joinWith ['\n'] ps ≠ [] := by
  have hne : ∀ s ∈ ss, s.trimmed ≠ [] := fun s hm =>
    trimmed_ne_nil (mem_carriedOver (hs s hm)).1 (mem_carriedOver (hs s hm)).2.1
  have hcut : ∀ {ps : List Text} {p : Text} {s : Segment}, s.IsCut p → s.trimmed ≠ [] →
      joinWith ['\n'] (ps ++ [p]) ≠ [] := by
    intro ps p s hc hne he
    rw [joinWith_concat, List.append_eq_nil_iff] at he
    rw [← hc.trim_eq, he.2] at hne
    exact hne rfl
  cases h with
  | nil => exact .inl rfl
  | next _ cut => exact .inr (hcut cut (hne _ (by simp)))
  | @behindGap ps _ p s _ _ cut =>
    have hlast : joinWith ['\n'] ((ps ++ [[]]) ++ [p]) ≠ [] := hcut cut (hne s (by simp))
    exact .inr (by rwa [List.append_assoc] at hlast)

/-- Kept statements of a balanced module are entries. -/
theorem Laid.isEntry {c : Context} {t : Text} {ps : List Text} {ss : List Segment} (h : Laid ps ss)
    (hb : isBalanced t = true) (hq : closesQuotes t = true)
    (hs : ∀ s ∈ ss, s ∈ carriedOver c t) : ∀ p ∈ ps, p = [] ∨ IsEntry p := by
  intro p hp
  refine (h.mem p hp).imp id ?_
  rintro ⟨s, hm, hc⟩
  obtain ⟨hseg, hk, -⟩ := mem_carriedOver (hs s hm)
  exact hc.isEntry hb hq hseg hk

/-! ### The whole text -/

/-- What a conversion writes: a frame, a body and the statements that are kept. The body is scanned as
expected unless a quoted string is open at a line feed of the module. -/
structure Writes (c : Context) (t out : Text) (f : Frame) (body : Text)
    (imports leading trailing : List Text) : Prop where
  out_eq : out = listing (f.entriesAhead imports leading ++ f.bindingStatement body
    :: (f.entriesBehind trailing ++ [f.callLine, f.logLine]))
  preamble_eq : f.preamble (gatherKept c.registry.receiver
    ((firstLiteral? t).map ObjectLiteral.statement) (segments t))
      = listing (f.entriesAhead imports leading)
  registry : f.registry = c.registry
  library : f.library = c.library
  category : f.category = c.category
  isName : Script.isName f.identifier = true
  identifier : ∀ l ∈ firstLiteral? t, f.identifier = l.identifier
  endState_body : closesQuotes t = true → endState body = .start
  isBody : closesQuotes t = true → ∀ l ∈ firstLiteral? t, l.closing = .balanced → IsBody body
  imports : Laid imports ((carriedOver c t).filter isImport)
  leading : Laid leading ((carriedOver c t).filter fun s => !isImport s && standsAhead t s)
  trailing : Laid trailing ((carriedOver c t).filter fun s => !isImport s && !standsAhead t s)

namespace Writes

variable {c : Context} {t out : Text} {f : Frame} {body : Text} {imports leading trailing : List Text}
  (h : Writes c t out f body imports leading trailing) (hb : isBalanced t = true)
  (hq : closesQuotes t = true) (hr : Script.isName c.registry.receiver = true)
include h hb hq hr

/-- The entries in front of the binding. -/
theorem isEntry_ahead : ∀ p ∈ f.entriesAhead imports leading, p = [] ∨ IsEntry p :=
  Frame.isEntry_entriesAhead (h.registry ▸ hr)
    (h.imports.isEntry hb hq fun _ => List.mem_of_mem_filter)
    (h.leading.isEntry hb hq fun _ => List.mem_of_mem_filter)

omit hr in
/-- The entries between the binding and the registration. -/
theorem isEntry_behind : ∀ p ∈ f.entriesBehind trailing, p = [] ∨ IsEntry p :=
  Frame.isEntry_entriesBehind h.isName
    (h.trailing.isEntry hb hq fun _ => List.mem_of_mem_filter)

end Writes

theorem endState_placeholderNote : endState placeholderNote = .start := by decide +kernel

/-- What is kept of the text of a module. -/
theorem gatherKept_eq (c : Context) (t : Text) : ∃ imports leading trailing,
    gatherKept c.registry.receiver ((firstLiteral? t).map ObjectLiteral.statement) (segments t)
        = ⟨imports, joinWith ['\n'] leading, joinWith ['\n'] trailing⟩
      ∧ Laid imports ((carriedOver c t).filter isImport)
      ∧ Laid leading ((carriedOver c t).filter fun s => !isImport s && standsAhead t s)
      ∧ Laid trailing ((carriedOver c t).filter fun s => !isImport s && !standsAhead t s) :=
  have h := gathered_segments c.registry.receiver t
  ⟨_, _, _, rfl, h.imports, h.leading, h.trailing⟩

/-- What a conversion starts from: a draft with the names of the context and what is kept of the
text, without a body or with that of the first literal. -/
structure Drafts (c : Context) (t : Text) (d : Draft) : Prop where
  registry : d.registry = c.registry
  library : d.library = c.library
  category : d.category = c.category
  kept : d.kept = gatherKept c.registry.receiver
    ((firstLiteral? t).map ObjectLiteral.statement) (segments t)
  identifier : d.identifier = (firstLiteral? t).map ObjectLiteral.identifier
  body : d.body = (firstLiteral? t).bind closedBody?

theorem drafts_draftOf (c : Context) (t : Text) : Drafts c t (draftOf c t).1 := by
  unfold draftOf
  cases hl : firstLiteral? t with
  | none => exact ⟨rfl, rfl, rfl, by rw [hl], by rw [hl]; rfl, by rw [hl]; rfl⟩
  | some l =>
    cases hc : closedBody? l with
    | none => exact ⟨by simp [hc], by simp [hc], by simp [hc], by simp [hc, hl], by simp [hc, hl],
        by simp [hc, hl]⟩
    | some b => exact ⟨by simp [hc], by simp [hc], by simp [hc], by simp [hc, hl], by simp [hc, hl],
        by simp [hc, hl]⟩

namespace Drafts

variable {c : Context} {t : Text} {d : Draft} (h : Drafts c t d)
include h

theorem isName_boundName : isName d.boundName = true := by
  rw [Draft.boundName, h.identifier]
  cases hl : firstLiteral? t with
  | none => exact isName_toIdentifier _
  | some l => exact isName_identifier hl

/-- The body leaves the scan where it began. -/
theorem endState_keptBody (hq : closesQuotes t = true) : endState d.keptBody = .start := by
  rw [Draft.keptBody, h.body]
  cases hl : firstLiteral? t with
  | none => exact endState_placeholderNote
  | some l =>
    rw [Option.bind_some]
    cases hb : closedBody? l with
    | none => exact endState_placeholderNote
    | some b =>
      exact endState_indentBody
        (closesQuotes_withoutIdentity (closesQuotes_of_closedBody? hl hb hq))
        (isBalanced_withoutIdentity (isBalanced_of_closedBody? hl hb))

/-- The body of a closed literal can stand between braces again. -/
theorem isBody_keptBody (hq : closesQuotes t = true) {l : ObjectLiteral}
    (hl : firstLiteral? t = some l) (hc : l.closing = .balanced) : IsBody d.keptBody := by
  have hb := closedBody?_of_balanced hc
  rw [Draft.keptBody, h.body, hl, Option.bind_some, hb]
  exact isBody_indentBody (closesQuotes_withoutIdentity (closesQuotes_of_closedBody? hl hb hq))
    (isBody_withoutIdentity (isBody_of_firstLiteral? hl hc))

/-- A draft of a module writes what is kept of it. -/
theorem exists_writes : ∃ imports leading trailing,
    Writes c t d.synthesize d.frame d.keptBody imports leading trailing := by
  obtain ⟨imports, leading, trailing, he, hi, hl, ht⟩ := gatherKept_eq c t
  have hleading := hl.joinWith_ne_nil fun _ => List.mem_of_mem_filter
  refine ⟨imports, leading, trailing, ?_, ?_, h.registry, h.library, h.category, h.isName_boundName,
    fun l hlit => ?_, h.endState_keptBody, fun hq _ => h.isBody_keptBody hq, hi, hl, ht⟩
  · rw [Draft.synthesize, h.kept, he]
    exact Frame.render_eq_listing _ _ hleading
      (ht.joinWith_ne_nil fun _ => List.mem_of_mem_filter)
  · rw [he]
    exact d.frame.preamble_eq _ hleading
  · show d.boundName = _
    rw [Draft.boundName, h.identifier, Option.mem_def.1 hlit]
    rfl

end Drafts

/-- **What a conversion writes.** -/
theorem exists_writes {c : Context} {t out : Text} {k : Conversion}
    (h : convert? c t = some (out, k)) :
    ∃ f body imports leading trailing, Writes c t out f body imports leading trailing := by
  rw [convert?] at h
  split at h
  · cases h
  · obtain ⟨rfl, -⟩ := Prod.mk.inj (Option.some.inj h)
    exact ⟨_, _, (drafts_draftOf c t).exists_writes⟩

/-- A module with a statement in front of its binding. -/
def looseModule : Text := "foo();\nconst x = \x7b a: 1 \x7d;\n"

theorem exists_looseLiteral : ∃ l, firstLiteral? looseModule = some l ∧ l.closing = .balanced
    ∧ l.identifier = "x" :=
  ⟨⟨.const, "x", false, ⟨7, 26⟩, ⟨17, 25⟩, "\x7b a: 1 \x7d", " a: 1 ", ⟨2, 0, 7⟩, .balanced⟩,
    by decide, rfl, rfl⟩

/-- The same module in canonical form. -/
def framedModule : Text := ofLines
  ["/**", " * X", " * Library: a | Category: b", " */", "import \x7b r \x7d from 'r.js';", "", "foo();", "",
    "const x = \x7b", "  type: 'x',", "  library: 'a',", "  category: 'b',", "  label: 'X',", "  a: 1",
    "\x7d;", "", "export const descriptor = x;", "export default x;", "", "r.register(x);",
    "console.log('✔ [a] b/x');"]

theorem convert?_looseModule : convert? sampleContext looseModule = some (framedModule, .converted) := by
  decide +kernel

end ElementModules.Descriptor
