import ElementModules.Proofs.Descriptor.Frame

/-!
# What a repair asks of a statement

Whether a statement gives way, and whether the registry is imported, is decided by what a repair asks
of each statement: its shape, whether it is a diagnostic line and whether it mentions the receiver.
The **answers** do not see a line feed at the end of a statement, so they are read statement by
statement. A repaired text has two statements that give way to a second repair, the call and its
diagnostic line, and it imports the registry.

## Main results

* `skipsNewline_answers`: the answers are read off the statements.
* `Planned.countP_repaired`: the statements of a repaired text that give way.
* `Planned.importsReceiver_repaired`: a repaired text imports the registry.
-/

namespace ElementModules.Descriptor

open Text Script

theorem contains_append_newline {w : Text} (hw : w ≠ []) (hn : '\n' ∉ w) (t : Text) :
    contains w (t ++ ['\n']) = contains w t := by
  have he : ∀ u : Text, w.isPrefixOf (u ++ ['\n']) = w.isPrefixOf u := fun u =>
    isPrefixOf_append_of_not_mem hn u []
  induction t with
  | nil =>
    have h₀ : w.isPrefixOf ['\n'] = w.isPrefixOf [] := he []
    cases w with
    | nil => exact absurd rfl hw
    | cons c w => simpa [contains] using h₀
  | cons c t ih =>
    have h₁ : w.isPrefixOf (c :: (t ++ ['\n'])) = w.isPrefixOf (c :: t) := he (c :: t)
    rw [List.cons_append, contains, contains, ih, h₁]

theorem isDiagnostic_append_newline (t : Text) : isDiagnostic (t ++ ['\n']) = isDiagnostic t := by
  have hm : ∀ w ∈ logMarkers, w ≠ [] ∧ '\n' ∉ w := by decide
  rw [isDiagnostic, isDiagnostic, Bool.eq_iff_iff, List.any_eq_true, List.any_eq_true]
  refine exists_congr fun w => and_congr_right fun hw => ?_
  rw [contains_append_newline (hm w hw).1 (hm w hw).2]

theorem mentionsFrom_append_newline {word : Text} (hw : isName word = true) (before : Option Char)
    (skip : Nat) (t : Text) :
    Segment.mentionsFrom word before skip (t ++ ['\n'])
      = Segment.mentionsFrom word before skip t := by
  have hn : '\n' ∉ word := fun h => absurd (isNameChar_of_mem hw h) (by decide)
  have he : word.isEmpty = false := List.isEmpty_eq_false_iff.2 (ne_nil_of_isName hw)
  have hp : ∀ u : Text, word.isPrefixOf (u ++ ['\n']) = word.isPrefixOf u := fun u =>
    isPrefixOf_append_of_not_mem hn u []
  induction t generalizing before skip with
  | nil =>
    have h₀ : word.isPrefixOf ['\n'] = false := by
      refine (hp []).trans ?_
      cases word with
      | nil => cases he
      | cons c word => rfl
    cases skip with
    | zero => simp [Segment.mentionsFrom, h₀, he]
    | succ skip => cases skip <;> simp [Segment.mentionsFrom, he]
  | cons c t ih =>
    cases skip with
    | succ skip => exact ih (some c) skip
    | zero =>
      have h₁ : word.isPrefixOf (c :: (t ++ ['\n'])) = word.isPrefixOf (c :: t) := hp (c :: t)
      rw [List.cons_append, Segment.mentionsFrom, Segment.mentionsFrom, h₁, ih, ih]
      split
      · rename_i hpre
        have hle := (List.isPrefixOf_iff_prefix.1 hpre).length_le
        have hd : (c :: (t ++ ['\n'])).drop word.length = (c :: t).drop word.length ++ ['\n'] := by
          rw [← List.cons_append, List.drop_append_of_le_length hle]
        rw [hd]
        have hc : Token.isNameChar '\n' = false := rfl
        cases (c :: t).drop word.length with
        | nil => simp [hc]
        | cons d u => rfl
      · rfl

/-- What a repair asks of a statement: its shape, whether it is a diagnostic line, and whether it
mentions the receiver. -/
def answers (receiver : Text) (p : SegmentKind × Text) : SegmentKind × Bool × Bool :=
  (p.1, isDiagnostic p.2, Segment.mentionsFrom receiver none 0 p.2)

/-- Whether a statement with these answers gives way. -/
def givesWay (receiver : Text) (a : SegmentKind × Bool × Bool) : Bool :=
  a.1 = .registration receiver || (a.1 = .log && a.2.1)

theorem skipsNewline_answers {receiver : Text} (hr : isName receiver = true) :
    SkipsNewline (answers receiver) := fun k p => by
  rw [answers, answers, isDiagnostic_append_newline, mentionsFrom_append_newline hr]

theorem givesWay_answers (receiver : Text) (s : Segment) :
    givesWay receiver (answers receiver s.content) = isSuperseded receiver s := rfl

/-- Statements that stay in place do not give way. -/
theorem countP_answers_kept (receiver : Text) (segs : List Segment) :
    ((segs.filter (isKept receiver)).map fun s => answers receiver s.content).countP
      (givesWay receiver) = 0 := by
  rw [List.countP_eq_zero]
  intro a ha
  obtain ⟨s, hs, rfl⟩ := List.mem_map.1 ha
  have hk := (List.mem_filter.1 hs).2
  simp only [isKept, Bool.and_eq_true, Bool.not_eq_true'] at hk
  rw [givesWay_answers, hk.2]
  simp

theorem importsReceiver_of_mem {receiver u : Text} {d : Bool}
    (h : (.importDecl, d, true) ∈ readStatements (answers receiver) u) :
    importsReceiver receiver u = true := by
  rw [readStatements, statementContents, ← map_content_segments] at h
  obtain ⟨p, hp, ha⟩ := List.mem_map.1 h
  obtain ⟨s, hs, rfl⟩ := List.mem_map.1 (List.mem_filter.1 hp).1
  obtain ⟨hk, hm⟩ := Prod.mk.inj ha
  exact importsReceiver_iff.2 ⟨s, hs, hk, (Prod.mk.inj hm).2⟩

theorem givesWay_of_countP {receiver u : Text}
    (h : (readStatements (answers receiver) u).countP (givesWay receiver) = 0)
    {p : SegmentKind × Text} (hp : p ∈ contents u) :
    givesWay receiver (answers receiver p) = false := by
  by_cases hb : p.1 = .blank
  · simp [givesWay, answers, hb]
  · have hmem : answers receiver p ∈ readStatements (answers receiver) u :=
      List.mem_map_of_mem (List.mem_filter.2 ⟨hp, by simpa using hb⟩)
    simpa using List.countP_eq_zero.1 h _ hmem

section Written

variable {c : Context} {t : Text} {l : ObjectLiteral} (hr : IsReceiver c.registry.receiver)
include hr

/-- The canonical statements give way. -/
theorem countP_canonicalStatements (hl : firstLiteral? t = some l) :
    (readStatements (answers c.registry.receiver) (canonicalStatements c l)).countP
      (givesWay c.registry.receiver) = 2 := by
  rw [readStatements_canonicalStatements (skipsNewline_answers hr.isName) hr hl]
  simp [answers, givesWay, isDiagnostic_diagnosticOf]

variable {lead mid rest : List Segment} {site : Segment} {intro : Text}

/-- **Two statements** of a repaired text give way to a second repair. -/
theorem Planned.countP_repaired (h : Planned c l t lead mid site rest intro)
    (hb : isBalanced t = true) (hl : firstLiteral? t = some l) :
    (readStatements (answers c.registry.receiver)
        (withoutBlankEnd (withLineEnd (draft c l t lead mid site rest intro)))).countP
      (givesWay c.registry.receiver) = 2 := by
  have hg := skipsNewline_answers hr.isName
  have hintro : (readStatements (answers c.registry.receiver) intro).countP
      (givesWay c.registry.receiver) = 0 := by
    rcases h.intro_eq with ⟨-, -, rfl⟩ | ⟨-, s, -, -, -, rfl⟩
    · rfl
    · rw [readStatements_header hg hr.isName]
      simp [answers, givesWay]
  rw [finish_induct (readStatements_append_newline hg), h.readStatements_draft hg hr.isName hb hl]
  simp only [List.countP_append, countP_answers_kept, hintro, countP_canonicalStatements hr hl]

/-- A repaired text imports the registry. -/
theorem Planned.importsReceiver_repaired (h : Planned c l t lead mid site rest intro)
    (hb : isBalanced t = true) (hl : firstLiteral? t = some l) :
    importsReceiver c.registry.receiver
      (withoutBlankEnd (withLineEnd (draft c l t lead mid site rest intro))) = true := by
  have hg := skipsNewline_answers hr.isName
  have hread := (finish_induct (readStatements_append_newline hg) _).trans
    (h.readStatements_draft hg hr.isName hb hl)
  rcases h.intro_eq with ⟨⟨s, hs, hk, hm⟩, -, -⟩ | ⟨-, s, -, -, -, rfl⟩
  · have hkept : isKept c.registry.receiver s = true := by
      simp [isKept, isSuperseded, isRegistrationOn, hk]
    have ha : answers c.registry.receiver s.content = (.importDecl, isDiagnostic s.text, true) :=
      Prod.ext hk (Prod.ext rfl hm)
    have hmem : ∀ segs : List Segment, s ∈ segs → (.importDecl, isDiagnostic s.text, true)
        ∈ (segs.filter (isKept c.registry.receiver)).map
          fun s => answers c.registry.receiver s.content :=
      fun segs hin => List.mem_map.2 ⟨s, List.mem_filter.2 ⟨hin, hkept⟩, ha⟩
    refine importsReceiver_of_mem (d := isDiagnostic s.text) ?_
    rw [hread]
    rw [h.segments_eq] at hs
    simp only [List.mem_append, List.mem_cons] at hs ⊢
    rcases hs with (hs | hs) | rfl | hs
    · exact .inl (.inl (.inl (.inl (.inl (hmem lead hs)))))
    · exact .inl (.inl (.inl (.inr (hmem mid hs))))
    · exact .inl (.inl (.inr (hmem [s] List.mem_cons_self)))
    · exact .inr (hmem rest hs)
  · have hm := mentions_registryImport hr.isName
    refine importsReceiver_of_mem (d := isDiagnostic (registryImport c.registry)) ?_
    rw [hread, readStatements_header hg hr.isName, answers, hm]
    simp

end Written

end ElementModules.Descriptor
