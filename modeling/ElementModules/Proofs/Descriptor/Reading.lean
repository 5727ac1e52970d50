import ElementModules.Proofs.Descriptor.Drafting
import ElementModules.Proofs.Script.Listings

/-!
# Readings of statements

What is read off each statement of a text, from its shape and its text, is a reading of the text if a
line feed at the end of a statement is not seen. The reading of a repaired text consists of what is
read off the statements that stay, off the import and off the two canonical statements
(`Planned.readStatements_draft`).

## Main results

* `isReading_readStatements`: what is read off the statements is a reading of the text.
* `Planned.readStatements_draft`: the reading of the draft of a balanced text.
-/

namespace ElementModules.Descriptor

open Text Script

/-- Whether a segment is a statement that stays in place. -/
def isKept (receiver : Text) (s : Segment) : Bool :=
  s.kind ≠ .blank && !isSuperseded receiver s

/-- What is read off the statements of a text. -/
def readStatements {β : Type} (g : SegmentKind × Text → β) (t : Text) : List β :=
  (statementContents t).map g

/-- A line feed at the end of a statement is not seen. -/
def SkipsNewline {β : Type} (g : SegmentKind × Text → β) : Prop :=
  ∀ k p, g (k, p ++ ['\n']) = g (k, p)

variable {β : Type} {g : SegmentKind × Text → β}

/-- What is read off a segment that stays or gives way. -/
theorem readKept_readStatements (receiver : Text) {t : Text} {s : Segment} (h : s ∈ segments t) :
    readKept receiver (readStatements g) s = if isKept receiver s then [g s.content] else [] := by
  obtain ⟨hp, hk⟩ := of_mem_segments h
  have hv : s.kind ≠ .blank → readStatements g s.text = [g s.content] := by
    intro hb
    rw [readStatements, hp.statementContents_eq, ← hk, if_neg hb]
    rfl
  rw [readKept, isKept]
  by_cases hb : s.kind = .blank
  · simp [hb]
  · cases hd : isSuperseded receiver s <;> simp [hb, hv]

theorem flatMap_readKept_readStatements {receiver t : Text} {segs : List Segment}
    (h : ∀ s ∈ segs, s ∈ segments t) :
    segs.flatMap (readKept receiver (readStatements g))
      = (segs.filter (isKept receiver)).map fun s => g s.content := by
  induction segs with
  | nil => rfl
  | cons s segs ih =>
    rw [List.flatMap_cons, readKept_readStatements receiver (h s List.mem_cons_self),
      ih fun x hx => h x (List.mem_cons_of_mem s hx), List.filter_cons]
    split <;> simp

section Skips

variable (hg : SkipsNewline g)
include hg

theorem readStatements_append_newline (t : Text) :
    readStatements g (t ++ ['\n']) = readStatements g t :=
  reading_append_newline hg t

/-- **What is read off the statements** is a reading of the text. -/
theorem isReading_readStatements : IsReading (readStatements g) where
  nil := rfl
  append h := by rw [readStatements, h.statementContents_append, List.map_append]; rfl
  newline _ := readStatements_append_newline hg _

/-- What is read off a line. -/
theorem readStatements_line {w : Text} (h : IsLine w) {k : SegmentKind}
    (hk : shape (w ++ ['\n']) = k) (hb : k ≠ .blank) :
    readStatements g (w ++ ['\n']) = [g (k, w)] := by
  rw [readStatements, h.isPiece.statementContents_eq, hk, if_neg hb, List.map_singleton, hg]

variable {c : Context} {t : Text} {l : ObjectLiteral}

section Name

variable (hr : isName c.registry.receiver = true)
include hr

/-- What is read off the canonical statements, also if the call is read as another statement. -/
theorem readStatements_canonicalStatements_eq (hl : firstLiteral? t = some l) :
    readStatements g (canonicalStatements c l)
      = [g (shape (registrationCall c.registry.receiver l.identifier),
          registrationCall c.registry.receiver l.identifier), g (.log, diagnosticOf c l)] := by
  have hcall := isLine_registrationCall hr (isName_identifier hl)
  have hlog := isLine_diagnosticOf c l
  have hk := shape_diagnosticOf c l
  rw [canonicalStatements_eq, (isReading_readStatements hg).append (.inl hcall.closedBy),
    readStatements_line hg hcall (shape_append_newline _) hcall.isEntry.shape_ne_blank,
    readStatements_line hg hlog hk (by simp)]
  rfl

theorem readStatements_header (s : Segment) :
    readStatements g (header c.registry s) = [g (.importDecl, registryImport c.registry)] := by
  have hk := (shape_registryImport hr).2
  have hline := readStatements_line hg (isLine_registryImport hr) hk (by simp)
  have hnewline := readStatements_append_newline hg
  rw [header_induct hnewline, ← hnewline, hline]

end Name

theorem readStatements_canonicalStatements (hr : IsReceiver c.registry.receiver)
    (hl : firstLiteral? t = some l) :
    readStatements g (canonicalStatements c l)
      = [g (.registration c.registry.receiver,
          registrationCall c.registry.receiver l.identifier), g (.log, diagnosticOf c l)] := by
  have hk := (shape_registrationCall hr (isName_identifier hl)).2
  rw [shape_append_newline] at hk
  rw [readStatements_canonicalStatements_eq hg hr.isName hl, hk]

/-- **The reading of the draft**, along the cut of its plan. -/
theorem Planned.readStatements_draft {lead mid rest : List Segment} {site : Segment} {intro : Text}
    (h : Planned c l t lead mid site rest intro) (hr : isName c.registry.receiver = true)
    (hb : isBalanced t = true) (hl : firstLiteral? t = some l) :
    readStatements g (draft c l t lead mid site rest intro)
      = ((lead.filter (isKept c.registry.receiver)).map fun s => g s.content)
        ++ readStatements g intro
        ++ ((mid.filter (isKept c.registry.receiver)).map fun s => g s.content)
        ++ (([site].filter (isKept c.registry.receiver)).map fun s => g s.content)
        ++ readStatements g (canonicalStatements c l)
        ++ ((rest.filter (isKept c.registry.receiver)).map fun s => g s.content) := by
  have hmem : ∀ s ∈ lead ++ mid ++ site :: rest, s ∈ segments t := fun s hs => h.segments_eq ▸ hs
  have hsite : site ∈ segments t := hmem site (by simp)
  have hcall : readCall c.registry.receiver (canonicalStatements c l) (readStatements g) site
      = (([site].filter (isKept c.registry.receiver)).map fun s => g s.content)
        ++ readStatements g (canonicalStatements c l) := by
    obtain ⟨hp, hne, -⟩ := h.site_text
    rw [(isReading_readStatements hg).readCall (startsWithLine_canonicalStatements hr hl)
      (isBalanced_of_mem_segments hb hsite) hne (ended_induct (readStatements_append_newline hg) _)]
    have hk := readKept_readStatements (g := g) c.registry.receiver hsite
    have hblank := h.site_kind.1
    rw [readKept] at hk
    simp only [hblank, decide_false, Bool.or_false] at hk
    rw [hk]
    cases hkept : isKept c.registry.receiver site <;> simp [hkept]
  rw [h.reading_draft (isReading_readStatements hg) hr hl, hcall,
    flatMap_readKept_readStatements (t := t) fun s hs => hmem s (by simp [hs]),
    flatMap_readKept_readStatements (t := t) fun s hs => hmem s (by simp [hs]),
    flatMap_readKept_readStatements (t := t) fun s hs => hmem s (by simp [hs])]
  simp only [List.append_assoc]

end Skips

end ElementModules.Descriptor
