import ElementModules.Proofs.Descriptor.Answers
import ElementModules.Proofs.Descriptor.Tidy
import ElementModules.Proofs.Script.Declaring
import Mathlib.Data.List.DropRight

/-!
# A second repair

A text is in **repaired form** if it is tidy, imports the registry, and no statement gives way but
the canonical ones, which stand behind the first literal. A second repair of such a text finds the
same place for the call and writes nothing but the canonical statements anew (`Repaired.repair_eq`).
So it changes nothing if and only if the text leads to these statements (`Repaired.repair_iff`).

## Main results

* `statementsFor?_congr`: what a text declares decides its canonical statements.
* `Repaired.anchor_eq`: the place of the call.
* `Repaired.repair_eq`, `Repaired.repair_iff`: a second repair.
-/

namespace ElementModules.Descriptor

open Text Script

/-! ### Canonical statements -/

/-- The canonical statements depend on the name and the body of the literal. -/
theorem canonicalStatements_congr {c : Context} {l l' : ObjectLiteral}
    (hi : l.identifier = l'.identifier) (hb : l.body = l'.body) :
    canonicalStatements c l = canonicalStatements c l' := by
  have hs : ∀ key, l.stringField? key = l'.stringField? key := fun key => by
    rw [ObjectLiteral.stringField?, ObjectLiteral.stringField?, hb]
  rw [canonicalStatements, canonicalStatements, hi, hs, hs, hs]

/-- The canonical statements for a text, if its first literal is closed. -/
def statementsFor? (c : Context) (t : Text) : Option Text :=
  ((firstLiteral? t).filter fun l => l.closing = .balanced).map (canonicalStatements c)

theorem statementsFor?_eq_some {c : Context} {t k : Text} :
    statementsFor? c t = some k
      ↔ ∃ l, firstLiteral? t = some l ∧ l.closing = .balanced ∧ canonicalStatements c l = k := by
  simp [statementsFor?, Option.filter_eq_some_iff, and_assoc]

/-- Texts that declare the same have the same canonical statements. -/
theorem statementsFor?_congr {t u : Text} (h : declaration? t = declaration? u) (c : Context) :
    statementsFor? c t = statementsFor? c u := by
  have hle : ∀ {t u : Text}, declaration? t = declaration? u → ∀ k, statementsFor? c t = some k →
      statementsFor? c u = some k := by
    intro t u h k hk
    obtain ⟨l, hl, hc, rfl⟩ := statementsFor?_eq_some.1 hk
    rw [declaration?, hl] at h
    obtain ⟨l', hl', hd⟩ := Option.map_eq_some_iff.1 h.symm
    have hbody : (if l'.closing = .balanced then some l'.body else none) = some l.body := by
      have := congrArg Declaration.body hd
      simpa [ObjectLiteral.declaration, hc] using this
    split at hbody
    · rename_i hc'
      exact statementsFor?_eq_some.2 ⟨l', hl', hc',
        canonicalStatements_congr (congrArg Declaration.identifier hd) (Option.some.inj hbody)⟩
    · cases hbody
  exact Option.ext fun k => ⟨hle h k, hle h.symm k⟩

/-! ### Repaired form -/

theorem lay_append {z : Text} (hz : 2 ≤ z.length) (x p : Text) :
    lay (x ++ z) p = x ++ lay z p := by
  rw [lay, lay]
  split
  · exact withBlankLine_append hz x
  · rw [List.append_assoc]

/-- What is written behind a text of two characters depends on these only. -/
theorem layText_append_left {z : Text} (hz : 2 ≤ z.length) (x t : Text) :
    layText (x ++ z) t = x ++ layText z t := by
  rw [layText, layText]
  generalize pieces t = ps
  induction ps generalizing z with
  | nil => rfl
  | cons p ps ih =>
    rw [List.foldl_cons, List.foldl_cons, lay_append hz]
    exact ih (Nat.le_trans hz (prefix_lay z p).length_le)

/-- A text in repaired form: the canonical statements for the first literal `l` of some text stand
between `front` and `back`. -/
structure Repaired (c : Context) (t front : Text) (l : ObjectLiteral) (back : Text) : Prop where
  first : firstLiteral? t = some l
  tidy : IsTidy (front ++ (canonicalStatements c l ++ back))
  closed : ClosedBy '\n' front
  declares : (declaration? front).isSome = true
  gives : ∀ p ∈ contents front ++ contents back,
    givesWay c.registry.receiver (answers c.registry.receiver p) = false
  imports : importsReceiver c.registry.receiver (front ++ (canonicalStatements c l ++ back)) = true
  finished : withoutBlankEnd (withLineEnd (front ++ (canonicalStatements c l ++ back)))
    = front ++ (canonicalStatements c l ++ back)

/-- The segment of the first literal is one of those that a closed first part with a head is cut
into. -/
theorem segmentAt_lt {a b : Text} {l : ObjectLiteral} (h : ClosedBy '\n' a)
    (hd : (declaration? a).isSome = true) (hl : firstLiteral? (a ++ b) = some l) :
    segmentAt l.statement.start (segments (a ++ b)) < (pieces a).length := by
  rw [declaration?_isSome_iff] at hd
  obtain ⟨q, hq, hlit⟩ := firstLiteral?_eq (a ++ b)
  rw [hl] at hlit
  obtain ⟨⟨l', n⟩, hb, rfl⟩ := Option.map_eq_some_iff.1 hlit.symm
  have hstart := (boundLiteral?_eq_some hb).2.1
  rw [Closed.marks_append (.inl h), firstHead_append hd, ← List.append_assoc] at hq
  have ha := List.append_cancel_right hq
  obtain ⟨m, u, hu⟩ := List.exists_cons_of_ne_nil hd
  rw [hu] at ha
  obtain ⟨pre, p, post, hms, -, hi⟩ :=
    findIdx?_covers ((flatten_stretches (marks a)).trans ha) 0
  have hlen : pre.length < (pieces a).length := by
    rw [pieces, List.length_map, hms]
    simp
  have hseam : Seam a b := .inl h
  have hat : segmentAt (Script.sizeOf q) (segments (a ++ b)) = pre.length := by
    refine segmentAt_of_findIdx? ?_
    rw [segments, hseam.stretches_append, segmentsOf_append, List.findIdx?_append,
      ← Nat.zero_add (Script.sizeOf q), hi]
    rfl
  rw [hstart, hat]
  exact hlen

theorem foldl_put_eq_foldl_lay {receiver : Text} {segs : List Segment}
    (hs : ∀ s ∈ segs, isSuperseded receiver s = false ∧ s.kind = shape s.text) (out : Text) :
    segs.foldl (put receiver) out = (segs.map Segment.text).foldl lay out := by
  induction segs generalizing out with
  | nil => rfl
  | cons s segs ih =>
    obtain ⟨hd, hk⟩ := hs s List.mem_cons_self
    have hput : put receiver out s = lay out s.text := by
      rw [put, if_neg (by simp [hd]), lay, hk]
    rw [List.foldl_cons, List.map_cons, List.foldl_cons, hput]
    exact ih (fun x hx => hs x (List.mem_cons_of_mem s hx)) _

theorem withLineEnd_of_getLast? {out : Text} (h : out.getLast? = some '\n') :
    withLineEnd out = out := by
  rw [withLineEnd, h, if_pos (by simp)]

namespace Repaired

variable {c : Context} {t front back : Text} {l : ObjectLiteral} (h : Repaired c t front l back)
include h

/-- The call is written at its place. -/
theorem anchor_eq {l' : ObjectLiteral}
    (hl : firstLiteral? (front ++ (canonicalStatements c l ++ back)) = some l')
    {segs rest : List Segment} {call : Segment}
    (hsegs : segments (front ++ (canonicalStatements c l ++ back)) = segs ++ call :: rest)
    (htext : segs.map Segment.text = pieces front)
    (hcall : call.kind = .registration c.registry.receiver)
    (hkept : ∀ s ∈ segs, isSuperseded c.registry.receiver s = false) :
    (repairPlan c l' (segments (front ++ (canonicalStatements c l ++ back)))).anchor
      = segs.length := by
  have hlt := segmentAt_lt h.closed h.declares hl
  rw [← htext, List.length_map] at hlt
  show anchorIndex c.registry.receiver (segmentAt l'.statement.start
    (segments (front ++ (canonicalStatements c l ++ back)))) _ = _
  generalize segmentAt l'.statement.start (segments (front ++ (canonicalStatements c l ++ back))) = b
    at hlt ⊢
  have hnone : (segs.drop (b + 1)).findIdx? (isRegistrationOn c.registry.receiver) = none := by
    rw [List.findIdx?_eq_none_iff]
    intro s hs
    have := hkept s (List.mem_of_mem_drop hs)
    rw [isSuperseded, Bool.or_eq_false_iff] at this
    exact this.1
  have hyes : isRegistrationOn c.registry.receiver call = true := by simp [isRegistrationOn, hcall]
  have hfind : ((segs ++ call :: rest).drop (b + 1)).findIdx?
      (isRegistrationOn c.registry.receiver) = some (segs.length - (b + 1)) := by
    rw [List.drop_append_of_le_length hlt, List.findIdx?_append, hnone, List.findIdx?_cons, hyes]
    simp
  rw [hsegs, anchorIndex, hfind]
  show b + 1 + (segs.length - (b + 1)) = segs.length
  omega

/-- The end of a text in repaired form is tidied up already. -/
theorem finish_eq (l' : ObjectLiteral) :
    withoutBlankEnd (withLineEnd (front ++ (canonicalStatements c l' ++ back)))
      = front ++ (canonicalStatements c l' ++ back) := by
  have hend : ∀ (l : ObjectLiteral), ∃ q, front ++ (canonicalStatements c l ++ back)
        = q ++ ';' :: '\n' :: back
      ∧ withoutBlankEnd (withLineEnd (q ++ ';' :: '\n' :: back))
        = q ++ ';' :: withoutBlankEnd (withLineEnd ('\n' :: back)) := by
    intro l
    obtain ⟨q, hq⟩ := exists_canonicalStatements_eq c l
    refine ⟨front ++ q, by rw [hq]; simp, ?_⟩
    have hline : withLineEnd (front ++ q ++ ';' :: '\n' :: back)
        = front ++ q ++ ';' :: withLineEnd ('\n' :: back) := by
      have := withLineEnd_append (z := '\n' :: back) (by simp) (front ++ q ++ [';'])
      simpa using this
    rw [hline, withoutBlankEnd_append (by decide)]
  obtain ⟨q, hq, hfin⟩ := hend l
  obtain ⟨q', hq', hfin'⟩ := hend l'
  have hback := h.finished
  rw [hq, hfin] at hback
  have hnl := (List.cons.inj (List.append_cancel_left hback)).2
  rw [hq', hfin', hnl]

variable (hr : IsReceiver c.registry.receiver)
include hr

/-- The segments of a text in repaired form. -/
theorem exists_segments_eq :
    ∃ segs call log rest, segments (front ++ (canonicalStatements c l ++ back))
        = segs ++ call :: log :: rest
      ∧ segs.map Segment.text = pieces front ∧ rest.map Segment.text = pieces back
      ∧ call.kind = .registration c.registry.receiver
      ∧ isSuperseded c.registry.receiver log = true ∧ log.endsLine = true
      ∧ ∀ s ∈ segs ++ rest, isSuperseded c.registry.receiver s = false := by
  have hx := isName_identifier h.first
  have hcall := isLine_registrationCall hr.isName hx
  have hlog := isLine_diagnosticOf c l
  have hk₁ := (shape_registrationCall hr hx).2
  have hk₂ := shape_diagnosticOf c l
  have hclosed : ClosedBy '\n' (canonicalStatements c l) :=
    closedBy_canonicalStatements hr.isName h.first
  have hcontents : contents (canonicalStatements c l)
      = [(.registration c.registry.receiver,
          registrationCall c.registry.receiver l.identifier ++ ['\n']),
        (.log, diagnosticOf c l ++ ['\n'])] := by
    rw [canonicalStatements_eq, Seam.contents_append (.inl hcall.closedBy), hcall.isPiece.contents_eq,
      hlog.isPiece.contents_eq, hk₁, hk₂]
    rfl
  have hmap := map_content_segments (front ++ (canonicalStatements c l ++ back))
  rw [Seam.contents_append (.inl h.closed), Seam.contents_append (.inl hclosed), hcontents] at hmap
  obtain ⟨segs, more, hsegs, hfront, hmore⟩ := List.map_eq_append_iff.1 hmap
  obtain ⟨call, more, rfl, hc, hmore⟩ := List.map_eq_cons_iff.1 hmore
  obtain ⟨log, rest, rfl, hd, hback⟩ := List.map_eq_cons_iff.1 hmore
  have htexts : ∀ (ss : List Segment) (u : Text), ss.map Segment.content = contents u →
      ss.map Segment.text = pieces u := by
    intro ss u hu
    have hs : Segment.text = Prod.snd ∘ Segment.content := rfl
    rw [hs, ← List.map_map, hu, contents_eq, List.map_map]
    simp [Function.comp_def]
  have hlogKind : log.kind = .log := congrArg Prod.fst hd
  have hlogText : log.text = diagnosticOf c l ++ ['\n'] := congrArg Prod.snd hd
  refine ⟨segs, call, log, rest, hsegs, htexts segs front hfront, htexts rest back hback,
    congrArg Prod.fst hc, ?_, ?_, ?_⟩
  · rw [isSuperseded, hlogKind, hlogText, isDiagnostic_append_newline, isDiagnostic_diagnosticOf]
    simp
  · rw [Segment.endsLine, hlogText, List.getLast?_concat]
    rfl
  · intro s hs
    rw [← givesWay_answers]
    have hback' : rest.map Segment.content = contents back := hback
    refine h.gives s.content ?_
    rw [← hfront, ← hback', ← List.map_append]
    exact List.mem_map_of_mem hs

/-- What stands behind the call is written as it is behind all canonical statements. -/
theorem layText_back (l' : ObjectLiteral) :
    layText (front ++ canonicalStatements c l') back
      = front ++ (canonicalStatements c l' ++ back) := by
  obtain ⟨q, hq⟩ := exists_canonicalStatements_eq c l
  obtain ⟨q', hq'⟩ := exists_canonicalStatements_eq c l'
  have hseam : Seam (front ++ canonicalStatements c l) back :=
    .inl (.append (Closed.endState (.inl h.closed)) (closedBy_canonicalStatements hr.isName h.first))
  have htidy := h.tidy
  rw [← List.append_assoc] at htidy
  have hlay := htidy.layText_eq hseam
  have hback : layText [';', '\n'] back = [';', '\n'] ++ back := by
    rw [hq, ← List.append_assoc, layText_append_left (by simp),
      List.append_assoc (front ++ q)] at hlay
    exact List.append_cancel_left hlay
  rw [hq', ← List.append_assoc, layText_append_left (by simp), hback]
  simp

/-- **A second repair** writes the canonical statements anew, and nothing else. -/
theorem repair_eq {l' : ObjectLiteral}
    (hl : firstLiteral? (front ++ (canonicalStatements c l ++ back)) = some l')
    (hc : l'.closing = .balanced) :
    repair c (front ++ (canonicalStatements c l ++ back))
      = .ok (front ++ (canonicalStatements c l' ++ back)) := by
  obtain ⟨segs, call, log, rest, hsegs, htext, hback, hcall, hlog, hline, hkept⟩ :=
    h.exists_segments_eq hr
  have hcut : Cut (repairPlan c l' (segments (front ++ (canonicalStatements c l ++ back)))) [] segs
      call [] := by
    refine ⟨?_, .inl ⟨?_, rfl, rfl⟩⟩
    · rw [h.anchor_eq hl hsegs htext hcall fun s hs => hkept s (List.mem_append_left _ hs)]
      simp
    · exact if_pos h.imports
  have hshape : ∀ s ∈ segs ++ call :: log :: rest, s.kind = shape s.text := fun s hs =>
    (of_mem_segments (hsegs ▸ hs)).2
  have hfront : segs.foldl (put c.registry.receiver) [] = front := by
    rw [foldl_put_eq_foldl_lay fun s hs => ⟨hkept s (List.mem_append_left _ hs),
      hshape s (List.mem_append_left _ hs)⟩, htext]
    exact IsTidy.of_seam (.inl h.closed) h.tidy
  have hcallSup : isSuperseded c.registry.receiver call = true := by
    simp [isSuperseded, isRegistrationOn, hcall]
  obtain ⟨q', hq'⟩ := exists_canonicalStatements_eq c l'
  have hlast : (front ++ canonicalStatements c l').getLast? = some '\n' := by
    rw [hq']
    simp
  have hwritten : writtenCall
      (repairPlan c l' (segments (front ++ (canonicalStatements c l ++ back)))) [] segs call []
      = front ++ canonicalStatements c l' := by
    have : writtenCall (repairPlan c l' (segments (front ++ (canonicalStatements c l ++ back))))
        [] segs call [] = putCall c.registry.receiver (canonicalStatements c l')
          (segs.foldl (put c.registry.receiver) []) call := rfl
    rw [this, hfront, putCall_of_superseded hcallSup, withLineEnd_of_getLast? h.closed.getLast?]
  have hlogPut : put c.registry.receiver (front ++ canonicalStatements c l') log
      = front ++ canonicalStatements c l' := by
    rw [put, if_pos hlog, if_pos hline, withLineEnd_of_getLast? hlast]
  have hrest : rest.foldl (put c.registry.receiver) (front ++ canonicalStatements c l')
      = front ++ (canonicalStatements c l' ++ back) := by
    rw [foldl_put_eq_foldl_lay fun s hs => ⟨hkept s (List.mem_append_right _ hs),
      hshape s (by simp [hs])⟩, hback]
    exact h.layText_back hr l'
  rw [repair, hl]
  simp only [hc]
  rw [RepairPlan.apply]
  have hfold := hcut.foldl_write (log :: rest)
  rw [List.nil_append, ← hsegs, hwritten, List.foldl_cons] at hfold
  rw [hfold]
  show Except.ok (withoutBlankEnd (withLineEnd (rest.foldl (put c.registry.receiver)
    (put c.registry.receiver (front ++ canonicalStatements c l') log)))) = _
  rw [hlogPut, hrest, h.finish_eq l']

/-- **A second repair changes nothing** if and only if the text leads to the canonical statements that
stand in it. -/
theorem repair_iff :
    repair c (front ++ (canonicalStatements c l ++ back))
        = .ok (front ++ (canonicalStatements c l ++ back))
      ↔ statementsFor? c (front ++ (canonicalStatements c l ++ back))
        = some (canonicalStatements c l) := by
  rw [statementsFor?_eq_some]
  constructor
  · intro h₂
    obtain ⟨l₂, _, _, _, _, _, hl₂, hc₂, -, -⟩ := repair_eq_ok h₂
    rw [h.repair_eq hr hl₂ hc₂, Except.ok.injEq] at h₂
    exact ⟨l₂, hl₂, hc₂, List.append_cancel_right (List.append_cancel_left h₂)⟩
  · rintro ⟨l₂, hl₂, hc₂, he⟩
    rw [h.repair_eq hr hl₂ hc₂, he]

end Repaired

/-- Tidying up the end twice is tidying it up once. -/
theorem finish_finish (d : Text) :
    withoutBlankEnd (withLineEnd (withoutBlankEnd (withLineEnd d)))
      = withoutBlankEnd (withLineEnd d) := by
  have hend : withLineEnd d = [] ∨ ∃ u, withLineEnd d = u ++ ['\n'] := by
    rcases withLineEnd_cases d with ⟨he, rfl | hl⟩ | he
    · exact .inl he
    · obtain ⟨u, x, hu⟩ := (List.eq_nil_or_concat d).resolve_left (by rintro rfl; cases hl)
      rw [List.concat_eq_append] at hu
      rw [hu, List.getLast?_concat] at hl
      exact .inr ⟨u, by rw [he, hu, Option.some.inj hl]⟩
    · exact .inr ⟨d, he⟩
  rcases hend with he | ⟨u, hu⟩
  · rw [he]
    rfl
  · obtain ⟨body, hb⟩ : ∃ body, ((u ++ ['\n']).reverse.dropWhile (· = '\n')).reverse = body :=
      ⟨_, rfl⟩
    have hrev : (body ++ ['\n']).reverse.dropWhile (· = '\n') = body.reverse := by
      rw [← hb, List.reverse_append, List.reverse_reverse]
      exact (List.dropWhile_cons_of_pos (by simp)).trans (List.dropWhile_idempotent _ _)
    have hlen : body.length < (u ++ ['\n']).length := by
      have := (List.dropWhile_suffix (l := (u ++ ['\n']).reverse) (· = '\n')).length_le
      rw [← hb]
      simp only [List.reverse_append, List.reverse_singleton, List.singleton_append,
        List.length_reverse]
      rw [List.dropWhile_cons_of_pos (by simp)]
      have := (List.dropWhile_suffix (l := u.reverse) (· = '\n')).length_le
      simp at this ⊢
      omega
    have hy : withoutBlankEnd (withLineEnd d) = body ++ ['\n'] := by
      rw [hu, withoutBlankEnd, hb, if_pos hlen]
    rw [hy, withLineEnd_of_getLast? (by simp), withoutBlankEnd, hrev, List.reverse_reverse,
      if_pos (by simp)]

end ElementModules.Descriptor
