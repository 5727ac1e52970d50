import ElementModules.Proofs.Script.Declarations
import ElementModules.Proofs.Script.Statements

/-!
# Where a declaration stands

Segments are found by byte offsets. The segment that covers the offset of the first literal is the
one whose stretch holds the first word of the literal's statement; since that word is code, the
segment is neither blank nor a comment.

## Main results

* `findIdx?_covers`: the segment that covers the offset of a mark holds the mark.
* `exists_segment_at`: the segment of the first literal.
-/

namespace ElementModules.Script

open Text

/-- Whether a segment holds a byte offset. -/
def Segment.covers (offset : Nat) (s : Segment) : Bool :=
  s.span.start ≤ offset && offset < s.span.stop

theorem sizeOf_marks (t : Text) : sizeOf (marks t) = size t := by rw [sizeOf, chars_marks]

theorem sizeOf_append (a b : List Mark) : sizeOf (a ++ b) = sizeOf a + sizeOf b := by
  simp [sizeOf]

theorem sizeOf_cons (m : Mark) (ms : List Mark) : sizeOf (m :: ms) = m.size + sizeOf ms := by
  simp [sizeOf, chars, Mark.size]

/-- The stretch that holds a mark is the first one whose span covers the offset of the mark. -/
theorem findIdx?_covers {ms : List (List Mark)} {q u : List Mark} {m : Mark}
    (h : ms.flatten = q ++ m :: u) (offset : Nat) :
    ∃ pre p post, ms = pre ++ p :: post ∧ m ∈ p
      ∧ (segmentsOf offset ms).findIdx? (Segment.covers (offset + sizeOf q)) = some pre.length := by
  induction ms generalizing q offset with
  | nil => simp at h
  | cons p ms ih =>
    have hpos : 0 < m.size := m.char.utf8Size_pos
    rw [List.flatten_cons] at h
    have hcases : (∃ q', q = p ++ q' ∧ ms.flatten = q' ++ m :: u)
        ∨ ∃ z, p = q ++ m :: z := by
      rcases List.append_eq_append_iff.1 h with ⟨z, hq, hz⟩ | ⟨z, hp, hz⟩
      · exact .inl ⟨z, hq, hz⟩
      · cases z with
        | nil => exact .inl ⟨[], by rw [hp, List.append_nil, List.append_nil], hz.symm⟩
        | cons x z =>
          obtain ⟨rfl, -⟩ := List.cons.inj hz
          exact .inr ⟨z, hp⟩
    rcases hcases with ⟨q', rfl, hq'⟩ | ⟨z, rfl⟩
    · obtain ⟨pre, p', post, rfl, hm, hi⟩ := ih hq' (offset + sizeOf p)
      refine ⟨p :: pre, p', post, rfl, hm, ?_⟩
      have hno : Segment.covers (offset + sizeOf (p ++ q'))
          ⟨kindOf p, ⟨offset, offset + sizeOf p⟩, chars p⟩ = false := by
        simp [Segment.covers, sizeOf_append]
      rw [sizeOf_append, ← Nat.add_assoc] at hno ⊢
      rw [segmentsOf, List.findIdx?_cons, hno, hi]
      rfl
    · refine ⟨[], q ++ m :: z, ms, rfl, by simp, ?_⟩
      have hyes : Segment.covers (offset + sizeOf q)
          ⟨kindOf (q ++ m :: z), ⟨offset, offset + sizeOf (q ++ m :: z)⟩, chars (q ++ m :: z)⟩
            = true := by
        simp [Segment.covers, sizeOf_append, sizeOf_cons]
        omega
      rw [segmentsOf, List.findIdx?_cons, hyes]
      rfl

@[simp] theorem length_segmentsOf (offset : Nat) (ms : List (List Mark)) :
    (segmentsOf offset ms).length = ms.length := by
  induction ms generalizing offset with
  | nil => rfl
  | cons m ms ih => rw [segmentsOf, List.length_cons, List.length_cons, ih]

theorem span_of_segmentsOf_eq {offset : Nat} {ms : List (List Mark)} {pre post : List Segment}
    {s : Segment} (h : segmentsOf offset ms = pre ++ s :: post) :
    s.span.start = offset + size (pre.flatMap Segment.text)
      ∧ s.span.stop = s.span.start + size s.text := by
  induction ms generalizing offset pre with
  | nil => simp [segmentsOf] at h
  | cons m ms ih =>
    rw [segmentsOf] at h
    cases pre with
    | nil =>
      obtain ⟨rfl, -⟩ := List.cons.inj h
      exact ⟨rfl, rfl⟩
    | cons x pre =>
      obtain ⟨rfl, hrest⟩ := List.cons.inj h
      obtain ⟨hstart, hstop⟩ := ih hrest
      refine ⟨?_, hstop⟩
      rw [hstart, List.flatMap_cons, size_append, Nat.add_assoc]
      rfl

/-- A segment starts where those in front of it end. -/
theorem span_of_segments_eq {t : Text} {pre post : List Segment} {s : Segment}
    (h : segments t = pre ++ s :: post) :
    s.span.start = size (pre.flatMap Segment.text)
      ∧ s.span.stop = s.span.start + size s.text := by
  obtain ⟨hstart, hstop⟩ := span_of_segmentsOf_eq h
  exact ⟨by rw [hstart, Nat.zero_add], hstop⟩

/-- Segments do not overlap. -/
theorem span_stop_le_start {t : Text} {pre post : List Segment} {s x : Segment}
    (h : segments t = pre ++ s :: post) (hx : x ∈ post) : s.span.stop ≤ x.span.start := by
  obtain ⟨between, post, rfl⟩ := List.append_of_mem hx
  have hafter : segments t = (pre ++ s :: between) ++ x :: post := by
    rw [h, List.append_assoc, List.cons_append]
  obtain ⟨hstart, hstop⟩ := span_of_segments_eq h
  rw [(span_of_segments_eq hafter).1, hstop, hstart, List.flatMap_append, List.flatMap_cons,
    size_append, size_append, ← Nat.add_assoc]
  exact Nat.le_add_right _ _

/-- What a statement can be that is read as a binding. -/
theorem bindingKind_cases (exported : Bool) (t : Text) :
    bindingKind exported t = .other ∨ (∃ x, bindingKind exported t = .binding x exported)
      ∨ ∃ x, bindingKind exported t = .descriptorAlias x := by
  rw [bindingKind]
  split
  · exact .inl rfl
  · split_ifs
    · exact .inr (.inl ⟨_, rfl⟩)
    · split
      · exact .inl rfl
      · dsimp only
        split_ifs
        · exact .inr (.inr ⟨_, rfl⟩)
        · exact .inl rfl
    · exact .inl rfl

theorem bindingKind_ne (exported : Bool) (t : Text) :
    bindingKind exported t ≠ .blank ∧ bindingKind exported t ≠ .comment := by
  rcases bindingKind_cases exported t with h | ⟨x, h⟩ | ⟨x, h⟩ <;> rw [h] <;> simp

/-- A text that is recognised as a statement is neither blank nor a comment. -/
theorem statementKind_ne (t : Text) :
    statementKind t ≠ .blank ∧ statementKind t ≠ .comment := by
  rw [statementKind]
  split
  · exact ⟨by simp, by simp⟩
  · split
    · dsimp only
      split
      · exact ⟨by simp, by simp⟩
      · exact bindingKind_ne _ _
    · split
      · exact ⟨by simp, by simp⟩
      · split
        · exact ⟨by simp, by simp⟩
        · exact bindingKind_ne _ _

/-- A comment holds comments and blanks. -/
theorem blank_or_comment_of_shape {p : Text} (h : shape p = .comment) :
    ∀ m ∈ marks p, isAsciiBlank m.char = true ∨ m.layer = .comment := by
  have ho : holdsOnlyComments (marks p) = true := by
    rw [shape, kindOf] at h
    split at h
    · cases h
    · split at h
      · assumption
      · exact absurd h (statementKind_ne _).2
  simp only [holdsOnlyComments, Bool.and_eq_true, List.all_eq_true, List.mem_filter,
    decide_eq_true_eq, Bool.not_eq_true', and_imp] at ho
  intro m hm
  cases hb : isAsciiBlank m.char
  · exact .inr (ho.2 m hm hb)
  · exact .inl rfl

/-- A stretch with a solid character of code is a statement. -/
theorem kindOf_ne {ms : List Mark} {m : Mark} (hm : m ∈ ms) (hc : m.isCode = true)
    (hb : isBlank m.char = false) : kindOf ms ≠ .blank ∧ kindOf ms ≠ .comment := by
  have ht : trim (chars ms) ≠ [] := by
    rw [Ne, trim_eq_nil]
    intro h
    rw [h m.char (List.mem_map_of_mem hm)] at hb
    cases hb
  have ha : isAsciiBlank m.char = false := by
    cases h : isAsciiBlank m.char
    · rfl
    · rw [isBlank_of_isAsciiBlank h] at hb
      cases hb
  have ho : holdsOnlyComments ms = false := by
    simp only [holdsOnlyComments, Bool.and_eq_false_iff, List.all_eq_false]
    refine .inr ⟨m, List.mem_filter.2 ⟨hm, by simp [ha]⟩, ?_⟩
    simp only [Mark.isCode, decide_eq_true_eq] at hc
    simp [hc]
  rw [kindOf, ho, if_neg (by simpa using ht), if_neg (by simp)]
  exact statementKind_ne _

/-- **The segment of the first literal** is a statement. -/
theorem exists_segment_at {t : Text} {l : ObjectLiteral} (h : firstLiteral? t = some l) :
    ∃ pre s post, segments t = pre ++ s :: post ∧ s.kind ≠ .blank ∧ s.kind ≠ .comment
      ∧ (segments t).findIdx? (Segment.covers l.statement.start) = some pre.length := by
  obtain ⟨q, hq, hl⟩ := firstLiteral?_eq t
  rw [hl] at h
  obtain ⟨⟨l', n⟩, hb, rfl⟩ := Option.map_eq_some_iff.1 h
  have hstart : l'.statement.start = sizeOf q := (boundLiteral?_eq_some hb).2.1
  have hne : firstHead none (marks t) ≠ [] := by
    intro he
    rw [he] at hb
    cases hb
  obtain ⟨b, hs⟩ := startsBinding_firstHead hne
  cases hu : firstHead none (marks t) with
  | nil => exact absurd hu hne
  | cons m u =>
    rw [hu, startsBinding, Bool.and_eq_true] at hs
    rw [hu] at hq
    have hm := hs.1
    simp only [mayStartBinding, Mark.isTopLevel, Bool.and_eq_true, Bool.or_eq_true,
      decide_eq_true_eq] at hm
    have hblank : isBlank m.char = false := by
      rcases hm.1.1 with ((hc | hc) | hc) | hc <;> rw [hc] <;> decide
    obtain ⟨pre, p, post, hms, hmp, hi⟩ :=
      findIdx?_covers ((flatten_stretches (marks t)).trans hq) 0
    obtain ⟨hk₁, hk₂⟩ := kindOf_ne hmp hm.1.2.1 hblank
    rw [Nat.zero_add] at hi
    have hseg : ∃ s post', segments t = segmentsOf 0 pre ++ s :: post' ∧ s.kind = kindOf p :=
      ⟨_, _, by rw [segments, hms, segmentsOf_append, segmentsOf], rfl⟩
    obtain ⟨s, post', hseg, hk⟩ := hseg
    refine ⟨segmentsOf 0 pre, s, post', hseg, hk ▸ hk₁, hk ▸ hk₂, ?_⟩
    rw [segments, hstart, hi, length_segmentsOf]

end ElementModules.Script
