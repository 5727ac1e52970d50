import ElementModules.Proofs.Descriptor.Reading
import ElementModules.Proofs.Prefixes
import ElementModules.Proofs.Text.Trim

/-!
# What a repair leaves in place

Statements are compared by their **view**: their shape and their text without blanks around it. The
views of a balanced text go through a repair unchanged and in order, except for the statements that
give way; one pair of statements is added, the call and its diagnostic line, and the import of the
registry where no import mentions it (`repair_frame`).

The views are a reading of texts, so the proof is the reading of the draft, part by part.

## Main results

* `skipsNewline_viewOf`: a view does not see a line feed at the end of a statement.
* `repair_frame`: the statements of a repaired text.
-/

namespace ElementModules.Descriptor

open Text Script

/-- A statement as it is compared. -/
def view (s : Segment) : SegmentKind × Text := (s.kind, s.trimmed)

/-- The segments of a text that are not blank. -/
def statements (t : Text) : List Segment := (segments t).filter fun s => s.kind ≠ .blank

/-- The view of a statement, from its shape and its text. -/
def viewOf (p : SegmentKind × Text) : SegmentKind × Text := (p.1, trim p.2)

/-- Whether some import of a text mentions the receiver. -/
def importsReceiver (receiver t : Text) : Bool :=
  (segments t).any fun s => s.kind = .importDecl && s.mentions receiver

theorem importsReceiver_iff {receiver t : Text} :
    importsReceiver receiver t = true
      ↔ ∃ s ∈ segments t, s.kind = .importDecl ∧ s.mentions receiver = true := by
  simp only [importsReceiver, List.any_eq_true, Bool.and_eq_true, decide_eq_true_eq]

/-- A line feed at the end of a statement is not seen in its view. -/
theorem skipsNewline_viewOf : SkipsNewline viewOf := fun k p => by
  rw [viewOf, viewOf, trim_append_newline]

/-- The statements of a text without their places. -/
theorem map_content_statements (t : Text) :
    (statements t).map Segment.content = statementContents t := by
  have hf : (fun s : Segment => decide (s.kind ≠ .blank))
      = (fun p : SegmentKind × Text => decide (p.1 ≠ .blank)) ∘ Segment.content := rfl
  rw [statements, statementContents, ← map_content_segments, hf, List.filter_map]

theorem map_view_statements (t : Text) : (statements t).map view = readStatements viewOf t := by
  have hv : view = viewOf ∘ Segment.content := rfl
  rw [readStatements, ← map_content_statements, hv, List.map_map]

section Written

variable {c : Context} {t : Text} {l : ObjectLiteral} (hr : IsReceiver c.registry.receiver)
include hr

theorem views_canonicalStatements (hl : firstLiteral? t = some l) :
    readStatements viewOf (canonicalStatements c l)
      = [(.registration c.registry.receiver, registrationCall c.registry.receiver l.identifier),
        (.log, diagnosticOf c l)] := by
  have ht₁ := (shape_registrationCall hr (isName_identifier hl)).1
  have ht₂ := trim_diagnosticOf c l
  rw [trim_append_newline] at ht₁ ht₂
  rw [readStatements_canonicalStatements skipsNewline_viewOf hr hl, viewOf, viewOf, ht₁, ht₂]

theorem views_header (s : Segment) :
    readStatements viewOf (header c.registry s) = [(.importDecl, registryImport c.registry)] := by
  have ht := (shape_registryImport hr.isName).1
  rw [trim_append_newline] at ht
  rw [readStatements_header skipsNewline_viewOf hr.isName, viewOf, ht]

end Written

/-- The statements that stay in place. -/
theorem filter_statements (receiver t : Text) :
    (statements t).filter (fun s => !isSuperseded receiver s)
      = (segments t).filter (isKept receiver) := by
  rw [statements, List.filter_filter]
  exact List.filter_congr fun s _ => by rw [isKept, Bool.and_comm]

theorem isKept_of_comment {receiver : Text} {s : Segment} (h : s.kind = .comment) :
    isKept receiver s = true := by
  simp [isKept, isSuperseded, isRegistrationOn, h]

/-- The comments in front of all other statements stay in place, in front of the call. -/
theorem exists_leading_comments (receiver : Text) (front rest : List Segment) {site : Segment}
    (hb : site.kind ≠ .blank) (hc : site.kind ≠ .comment) :
    ∃ mid, (front ++ [site]).filter (isKept receiver)
      = ((front ++ site :: rest).filter fun s => s.kind ≠ .blank).takeWhile
          (fun s => s.kind = .comment) ++ mid := by
  have ht : ((front ++ site :: rest).filter fun s => s.kind ≠ .blank).takeWhile
      (fun s => s.kind = .comment)
      = (front.filter fun s => s.kind ≠ .blank).takeWhile fun s => s.kind = .comment := by
    rw [List.filter_append, List.filter_cons_of_pos (by simp [hb]),
      takeWhile_append_cons (by simp [hc])]
  have hf : (front.filter fun s => s.kind ≠ .blank).filter (isKept receiver)
      = front.filter (isKept receiver) := by
    rw [List.filter_filter]
    refine List.filter_congr fun s _ => ?_
    rw [isKept]
    cases decide (s.kind ≠ .blank) <;> simp
  obtain ⟨mid, hmid⟩ := takeWhile_prefix_filter (p := fun s : Segment => decide (s.kind = .comment))
    (q := isKept receiver) (fun s h => isKept_of_comment (by simpa using h))
    (front.filter fun s => s.kind ≠ .blank)
  refine ⟨mid ++ [site].filter (isKept receiver), ?_⟩
  rw [List.filter_append, ht, ← List.append_assoc, hmid, hf]

/-- Blank segments and comments in front of another statement are the leading comments. -/
theorem leading_comments_eq (receiver : Text) {lead : List Segment} (segs : List Segment)
    {m : Segment} (h : ∀ s ∈ lead, s.kind = .blank ∨ s.kind = .comment) (hb : m.kind ≠ .blank)
    (hc : m.kind ≠ .comment) :
    ((lead ++ m :: segs).filter fun s => s.kind ≠ .blank).takeWhile (fun s => s.kind = .comment)
      = lead.filter (isKept receiver) := by
  rw [List.filter_append, List.filter_cons_of_pos (by simp [hb]),
    takeWhile_append_cons (by simp [hc])]
  have hall : ∀ s ∈ lead.filter fun s => s.kind ≠ .blank, decide (s.kind = .comment) = true := by
    intro s hs
    rw [List.mem_filter] at hs
    exact decide_eq_true ((h s hs.1).resolve_left (by simpa using hs.2))
  rw [List.takeWhile_eq_self_iff.2 hall]
  refine List.filter_congr fun s hs => ?_
  rcases h s hs with hk | hk
  · simp [isKept, hk]
  · simp [isKept_of_comment hk, hk]

/-- Registrations are counted on the views. -/
theorem countP_isRegistrationOn (receiver t : Text) :
    (segments t).countP (isRegistrationOn receiver)
      = (readStatements viewOf t).countP fun v => v.1 = .registration receiver := by
  have hf : isRegistrationOn receiver
      = (fun v : SegmentKind × Text => decide (v.1 = .registration receiver)) ∘ view := rfl
  have hs : (segments t).countP (isRegistrationOn receiver)
      = (statements t).countP (isRegistrationOn receiver) := by
    rw [statements, List.countP_filter]
    refine List.countP_congr fun s _ => ?_
    simp only [isRegistrationOn, Bool.and_eq_true, decide_eq_true_eq]
    exact ⟨fun h => ⟨h, by simp [h]⟩, And.left⟩
  rw [hs, hf, ← List.countP_map, map_view_statements]

/-- Statements that stay in place are no registrations on the receiver. -/
theorem countP_views_kept (receiver : Text) (segs : List Segment) :
    ((segs.filter (isKept receiver)).map view).countP (fun v => v.1 = .registration receiver)
      = 0 := by
  rw [List.countP_eq_zero]
  intro v hv
  obtain ⟨s, hs, rfl⟩ := List.mem_map.1 hv
  have hk := (List.mem_filter.1 hs).2
  simp only [isKept, isSuperseded, isRegistrationOn, Bool.and_eq_true, Bool.not_eq_true',
    Bool.or_eq_false_iff, decide_eq_false_iff_not] at hk
  simp [view, hk.2.1]

section Repaired

variable {c : Context} {t : Text} {l : ObjectLiteral} {lead mid rest : List Segment}
  {site : Segment} {intro : Text}

/-- What the import adds to the views. -/
theorem Planned.views_intro (h : Planned c l t lead mid site rest intro)
    (hr : IsReceiver c.registry.receiver) :
    readStatements viewOf intro
      = if importsReceiver c.registry.receiver t then []
        else [(.importDecl, registryImport c.registry)] := by
  rcases h.intro_eq with ⟨hm, -, rfl⟩ | ⟨hno, s, -, -, -, rfl⟩
  · rw [if_pos (importsReceiver_iff.2 hm)]
    rfl
  · rw [views_header hr, if_neg (mt importsReceiver_iff.1 hno)]

/-- **The views of a repaired text**, along the cut of its plan. -/
theorem Planned.views_repaired (h : Planned c l t lead mid site rest intro)
    (hr : IsReceiver c.registry.receiver) (hb : isBalanced t = true)
    (hl : firstLiteral? t = some l) :
    readStatements viewOf (withoutBlankEnd (withLineEnd (draft c l t lead mid site rest intro)))
      = (lead.filter (isKept c.registry.receiver)).map view
        ++ (if importsReceiver c.registry.receiver t then []
          else [(.importDecl, registryImport c.registry)])
        ++ (mid.filter (isKept c.registry.receiver)).map view
        ++ ([site].filter (isKept c.registry.receiver)).map view
        ++ [(.registration c.registry.receiver,
            registrationCall c.registry.receiver l.identifier), (.log, diagnosticOf c l)]
        ++ (rest.filter (isKept c.registry.receiver)).map view := by
  rw [← h.views_intro hr, ← views_canonicalStatements hr hl]
  exact (finish_induct (readStatements_append_newline skipsNewline_viewOf) _).trans
    (h.readStatements_draft skipsNewline_viewOf hr.isName hb hl)

/-- A repaired text has one registration on the receiver. -/
theorem Planned.countP_isRegistrationOn_repaired (h : Planned c l t lead mid site rest intro)
    (hr : IsReceiver c.registry.receiver) (hb : isBalanced t = true)
    (hl : firstLiteral? t = some l) :
    (segments (withoutBlankEnd (withLineEnd (draft c l t lead mid site rest intro)))).countP
      (isRegistrationOn c.registry.receiver) = 1 := by
  have hintro : (if importsReceiver c.registry.receiver t then []
      else [((.importDecl, registryImport c.registry) : SegmentKind × Text)]).countP
        (fun v => v.1 = .registration c.registry.receiver) = 0 := by
    split <;> simp
  rw [countP_isRegistrationOn, h.views_repaired hr hb hl]
  simp only [List.countP_append, countP_views_kept, hintro]
  simp

end Repaired

/-- **Frame.** A repair of a balanced text keeps its statements and their order. The registrations
on the receiver and the diagnostic lines give way to one call with its diagnostic line. If no import
mentions the receiver, the import of the registry is added behind the leading comments. -/
theorem repair_frame {c : Context} {t out : Text} (hr : IsReceiver c.registry.receiver)
    (hb : isBalanced t = true) (h : repair c t = .ok out) :
    ∃ l lead mid rest, firstLiteral? t = some l
      ∧ lead = (statements t).takeWhile (fun s => s.kind = .comment)
      ∧ (statements t).filter (fun s => !isSuperseded c.registry.receiver s) = lead ++ mid ++ rest
      ∧ (statements out).map view = lead.map view
        ++ (if importsReceiver c.registry.receiver t then []
          else [(.importDecl, registryImport c.registry)])
        ++ mid.map view
        ++ [(.registration c.registry.receiver,
            registrationCall c.registry.receiver l.identifier), (.log, diagnosticOf c l)]
        ++ rest.map view
      ∧ isDiagnostic (diagnosticOf c l) = true
      ∧ (segments out).countP (isRegistrationOn c.registry.receiver) = 1 := by
  obtain ⟨l, lead, mid, site, rest, intro, hl, -, hp, rfl⟩ := repair_eq_ok h
  have hdiag := isDiagnostic_diagnosticOf c l
  have hcount := hp.countP_isRegistrationOn_repaired hr hb hl
  rw [map_view_statements, hp.views_repaired hr hb hl, filter_statements, statements, hp.segments_eq]
  rcases hp.intro_eq with ⟨hm, rfl, -⟩ | ⟨-, m, hm, hmb, hmc, -⟩
  · -- nothing is imported: the leading comments are in front of the call
    obtain ⟨mid', hmid⟩ := exists_leading_comments c.registry.receiver mid rest hp.site_kind.1
      hp.site_kind.2
    refine ⟨l, _, mid', rest.filter (isKept c.registry.receiver), hl, rfl, ?_, ?_, hdiag, hcount⟩
    · rw [List.nil_append, ← hmid, ← List.filter_append]
      simp
    · have hmap := congrArg (List.map view) hmid
      rw [List.filter_append, List.map_append, List.map_append] at hmap
      rw [if_pos (importsReceiver_iff.2 hm)]
      simp only [List.filter_nil, List.map_nil, List.nil_append, List.append_nil, hmap]
  · -- the import stands between the leading comments and the next statement
    have hlead := leading_comments_eq c.registry.receiver (mid ++ [site] ++ rest).tail hp.lead_kind
      hmb hmc
    have hsegs : m :: (mid ++ [site] ++ rest).tail = mid ++ site :: rest := by
      cases mid with
      | nil =>
        obtain rfl : site = m := by simpa using hm
        rfl
      | cons x mid =>
        obtain rfl : x = m := by simpa using hm
        simp
    rw [hsegs, ← List.append_assoc] at hlead
    refine ⟨l, _, (mid ++ [site]).filter (isKept c.registry.receiver),
      rest.filter (isKept c.registry.receiver), hl, rfl, ?_, ?_, hdiag, hcount⟩
    · rw [hlead, ← List.filter_append, ← List.filter_append]
      simp
    · rw [hlead]
      simp only [List.filter_append, List.map_append, List.append_assoc]

theorem repair_frame_sample :
    repair sampleContext sampleModule = .ok sampleRepaired
      ∧ (segments sampleRepaired).countP (isRegistrationOn sampleContext.registry.receiver) = 1 := by
  obtain ⟨l, lead, mid, rest, -, -, -, -, -, hcount⟩ :=
    repair_frame isReceiver_sampleContext (by decide) repair_sampleModule
  exact ⟨repair_sampleModule, hcount⟩

end ElementModules.Descriptor
