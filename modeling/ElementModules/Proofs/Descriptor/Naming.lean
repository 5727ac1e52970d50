import ElementModules.Proofs.Descriptor.Agreement

/-!
# The name of a converted module

A conversion writes the binding of the frame under the name of the first literal. It stands behind
the header, the imports and the kept statements, and it is a statement of the converted module if
and only if a line outside all brackets ends there (`convert?_binds`). What is kept of the statements
in front of the binding never leaves a bracket open, but an import is kept in front of it wherever it
stood.

The binding is exported if the literal was taken over and the binding of the source is exported. A
literal that cannot be taken over leaves its name behind, but not the word in front of it
(`convert?_drops_export`).

## Main results

* `statementKind_bindingHead`: the binding of the frame is read as a binding.
* `isBalanced_of_standsAhead`: statements in front of the binding are balanced.
* `convert?_binds`: the name of a converted module.
-/

namespace ElementModules.Script

open Text

/-- Marks that end no segment belong to the stretch that follows. -/
theorem stretches_append_of_unbound {a b p : List Mark} {ps : List (List Mark)}
    (h : ∀ m ∈ a, ¬ m.IsBound) (hb : stretches b = p :: ps) :
    stretches (a ++ b) = (a ++ p) :: ps := by
  induction a with
  | nil => exact hb
  | cons m a ih =>
    have hends : endsSegment m (a ++ b) = false := by
      cases he : endsSegment m (a ++ b) with
      | false => rfl
      | true => exact absurd (isBound_of_endsSegment he) (h m List.mem_cons_self)
    exact stretches_cons_of_not_ends hends (ih fun x hx => h x (List.mem_cons_of_mem _ hx))

theorem getLast?_listing {ps : List Text} (h : ps ≠ []) : (listing ps).getLast? = some '\n' := by
  obtain ⟨qs, q, rfl⟩ := (List.eq_nil_or_concat ps).resolve_left h
  rw [List.concat_eq_append, listing_append, listing_cons, listing_nil, List.append_nil,
    ← List.append_assoc, List.getLast?_concat]

/-- A stretch of code that starts with a character that is not blank has the shape of its text. -/
theorem kindOf_eq_statementKind {m : Mark} {ms : List Mark} (hm : isBlank m.char = false)
    (hc : m.layer = .code) :
    kindOf (m :: ms) = statementKind (trim (chars (m :: ms))) := by
  have hne : trim (chars (m :: ms)) ≠ [] := by
    intro he
    have := trim_eq_nil.1 he m.char (List.mem_map_of_mem List.mem_cons_self)
    rw [hm] at this
    cases this
  have hascii : isAsciiBlank m.char = false := by
    cases ha : isAsciiBlank m.char with
    | false => rfl
    | true => rw [isBlank_of_isAsciiBlank ha] at hm; cases hm
  have hcomments : holdsOnlyComments (m :: ms) = false := by
    simp only [holdsOnlyComments, Bool.and_eq_false_iff, List.all_eq_false]
    exact .inr ⟨m, List.mem_filter.2 ⟨List.mem_cons_self, by simp [hascii]⟩, by simp [hc]⟩
  rw [kindOf, hcomments]
  simp [hne]

/-- The first stretch of marks that start with one that ends no segment. -/
theorem exists_stretches_cons {m : Mark} (h : ¬ m.IsBound) (ms : List Mark) :
    ∃ p ps, stretches (m :: ms) = (m :: p) :: ps := by
  have hends : endsSegment m ms = false := by
    by_contra he
    exact h (isBound_of_endsSegment (by simpa using he))
  rw [stretches, if_neg (by simp [hends])]
  cases stretches ms with
  | nil => exact ⟨_, _, rfl⟩
  | cons p ps => exact ⟨_, _, rfl⟩

end ElementModules.Script

namespace ElementModules.Descriptor

open Text Script

/-- A segment that is not the last one is balanced. -/
theorem isBalanced_of_stop_lt {t : Text} {s x : Segment} (hs : s ∈ segments t) (hx : x ∈ segments t)
    (hlt : s.span.stop < x.span.stop) : isBalanced s.text = true := by
  obtain ⟨pre, post, h⟩ := List.append_of_mem hs
  cases post with
  | cons y post =>
    have hc := isChain_text_segments t
    rw [h, List.map_append, List.map_cons, List.map_cons, List.append_cons] at hc
    have hfront : ((pre ++ [s]).map Segment.text ++ y.text :: post.map Segment.text).IsChain Seam := by
      simpa using hc
    exact (closed_of_isChain hfront s (by simp)).isBalanced
  | nil =>
    rw [h, List.mem_append, List.mem_singleton] at hx
    rcases hx with hx | rfl
    · obtain ⟨before, between, rfl⟩ := List.append_of_mem hx
      have hsplit : segments t = before ++ x :: (between ++ [s]) := by rw [h]; simp
      have hle := span_stop_le_start hsplit (x := s) (by simp)
      have hstop := (span_of_segments_eq h).2
      omega
    · exact absurd hlt (Nat.lt_irrefl _)

namespace Frame

variable {f : Frame} (hid : isName f.identifier = true)
include hid

/-- The words of a binding, in front of its brace, are read as a binding. -/
theorem bindingKind_const (exported : Bool) (r : Text) :
    bindingKind exported (("const " : Text) ++ (f.identifier ++ ' ' :: '=' :: ' ' :: '\x7b' :: r))
      = .binding f.identifier exported := by
  obtain ⟨c, n, hn⟩ := List.exists_cons_of_ne_nil (ne_nil_of_isName hid)
  have hc := isNameChar_of_mem hid (hn ▸ List.mem_cons_self)
  have hword : Token.word? "const" (("const " : Text)
      ++ (f.identifier ++ ' ' :: '=' :: ' ' :: '\x7b' :: r))
        = some (' ' :: (f.identifier ++ ' ' :: '=' :: ' ' :: '\x7b' :: r)) := rfl
  have hkeyword : (["const", "let", "var"] : List Text).find? (fun k => (Token.word? k (("const " : Text)
      ++ (f.identifier ++ ' ' :: '=' :: ' ' :: '\x7b' :: r))).isSome) = some ("const" : Text) :=
    List.find?_cons_of_pos (by rw [hword]; rfl)
  have hblanks : Token.someBlanks? (' ' :: (f.identifier ++ ' ' :: '=' :: ' ' :: '\x7b' :: r))
      = some (f.identifier ++ ' ' :: '=' :: ' ' :: '\x7b' :: r) := by
    have hsome : Token.someBlanks? (' ' :: (f.identifier ++ ' ' :: '=' :: ' ' :: '\x7b' :: r))
        = some (Token.blanks (f.identifier ++ ' ' :: '=' :: ' ' :: '\x7b' :: r)) := rfl
    rw [hsome, Token.blanks, hn, List.cons_append,
      List.dropWhile_cons_of_neg (by simp [(isHeadChar_of_isNameChar hc).1])]
  have hname : Token.name? (f.identifier ++ ' ' :: '=' :: ' ' :: '\x7b' :: r)
      = some (f.identifier, ' ' :: '=' :: ' ' :: '\x7b' :: r) := Token.name?_append hid rfl
  have hequals : Token.char? '=' (Token.blanks (' ' :: '=' :: ' ' :: '\x7b' :: r))
      = some (' ' :: '\x7b' :: r) := rfl
  have hvalue : (Token.blanks (' ' :: '\x7b' :: r)).head? = some '\x7b' := rfl
  simp only [bindingKind, hkeyword, hword, hblanks, hname, hequals, Option.bind_eq_bind,
    Option.bind_some]
  exact if_pos hvalue

/-- **The binding of the frame** is read as a binding of its name. -/
theorem statementKind_bindingHead (r : Text) :
    statementKind (f.bindingHead ++ '\x7b' :: r)
      = .binding f.identifier (f.exported || f.identifier = exportName) := by
  have hwords : f.bindingHead ++ '\x7b' :: r = f.bindingWords
      ++ ' ' :: (f.identifier ++ ' ' :: '=' :: ' ' :: '\x7b' :: r) := by
    simp [bindingHead]
  have hone : ("const" : Text) ++ ' ' :: (f.identifier ++ ' ' :: '=' :: ' ' :: '\x7b' :: r)
      = ("const " : Text) ++ (f.identifier ++ ' ' :: '=' :: ' ' :: '\x7b' :: r) := rfl
  have htwo : ("export const" : Text) = ("export " : Text) ++ ("const" : Text) := by decide
  rw [hwords, bindingWords]
  cases f.exported || f.identifier = exportName with
  | true =>
    have hblanks : Token.blanks (("const " : Text)
        ++ (f.identifier ++ ' ' :: '=' :: ' ' :: '\x7b' :: r))
          = ("const " : Text) ++ (f.identifier ++ ' ' :: '=' :: ' ' :: '\x7b' :: r) := rfl
    have hdefault : Token.word? "default" (("const " : Text)
        ++ (f.identifier ++ ' ' :: '=' :: ' ' :: '\x7b' :: r)) = none := rfl
    rw [if_pos rfl, htwo, List.append_assoc, hone, statementKind_export_eq, hblanks, hdefault]
    exact bindingKind_const hid true r
  | false =>
    rw [if_neg Bool.false_ne_true, hone, statementKind_const_eq hid]
    exact bindingKind_const hid false r

/-- The first stretch of the binding is read as a binding. -/
theorem exists_stretch_binding (body r : Text) :
    ∃ p ps, stretches (marks (f.bindingStatement body ++ r)) = p :: ps
      ∧ kindOf p = .binding f.identifier (f.exported || f.identifier = exportName) := by
  obtain ⟨c, v, hhead, hblank⟩ : ∃ c v, f.bindingHead = c :: v ∧ isBlank c = false := by
    rw [bindingHead, bindingWords]
    split <;> exact ⟨_, _, rfl, rfl⟩
  obtain ⟨p, ps, hps⟩ := exists_stretches_cons (m := ⟨'\x7b', .code, 0⟩) (by simp [Mark.IsBound])
    (marksFrom (State.start.step '\x7b') (f.inside body ++ ['\x7d', ';'] ++ r))
  have hmarks : marks (f.bindingStatement body ++ r) = codeMarks 0 f.bindingHead
      ++ ⟨'\x7b', .code, 0⟩
        :: marksFrom (State.start.step '\x7b') (f.inside body ++ ['\x7d', ';'] ++ r) := by
    have hplain := (Scans.plain (isPlain_bindingHead hid) []).marks
      ('\x7b' :: (f.inside body ++ ['\x7d', ';'] ++ r))
    rw [bindingStatement, List.append_assoc]
    exact hplain
  have hbound : ∀ m ∈ codeMarks 0 f.bindingHead, ¬ m.IsBound := by
    intro m hm
    obtain ⟨c, hc, rfl⟩ := List.mem_map.1 hm
    have := ne_bound_bindingHead hid c hc
    simp [Mark.IsBound, this.1, this.2]
  refine ⟨codeMarks 0 f.bindingHead ++ ⟨'\x7b', .code, 0⟩ :: p, ps, ?_, ?_⟩
  · rw [hmarks]
    exact stretches_append_of_unbound hbound hps
  · have hchars : chars (codeMarks 0 f.bindingHead ++ ⟨'\x7b', .code, 0⟩ :: p)
        = f.bindingHead ++ '\x7b' :: chars p := by
      rw [chars_append, chars_codeMarks]
      rfl
    obtain ⟨r', hr'⟩ := exists_trimEnd_append (x := '\x7b') rfl f.bindingHead (chars p)
    have htrim : trim (f.bindingHead ++ '\x7b' :: chars p) = f.bindingHead ++ '\x7b' :: r' := by
      rw [trim, trimStart, hhead, List.cons_append, List.dropWhile_cons_of_neg (by simp [hblank]),
        ← List.cons_append, ← hhead, hr']
    rw [← statementKind_bindingHead hid r', ← htrim, ← hchars, hhead]
    exact kindOf_eq_statementKind hblank rfl

/-- **The binding of the frame stands at the start of a statement** behind a text if and only if the
text ends its last line. -/
theorem exists_segment_binding_iff {a : Text} (ha : a.getLast? = some '\n') (body r : Text) :
    ClosedBy '\n' a ↔ ∃ s ∈ segments (a ++ (f.bindingStatement body ++ r)),
      s.span.start = size a
        ∧ s.kind = .binding f.identifier (f.exported || f.identifier = exportName) := by
  constructor
  · intro hclosed
    obtain ⟨p, ps, hrest, hkind⟩ := exists_stretch_binding hid body r
    have hsegments : segments (a ++ (f.bindingStatement body ++ r))
        = segments a ++ segmentsOf (size a) (p :: ps) := by
      have hseam : Seam a (f.bindingStatement body ++ r) := .inl hclosed
      rw [segments, hseam.stretches_append, segmentsOf_append, flatten_stretches, sizeOf_marks,
        Nat.zero_add, hrest]
      rfl
    rw [hsegments]
    exact ⟨_, List.mem_append_right _ List.mem_cons_self, rfl, hkind⟩
  · rintro ⟨s, hs, hstart, -⟩
    obtain ⟨pre, post, h⟩ := List.append_of_mem hs
    have htext := flatMap_text_segments (a ++ (f.bindingStatement body ++ r))
    have hfront : pre.flatMap Segment.text = a := by
      rw [(span_of_segments_eq h).1] at hstart
      have hpre : pre.flatMap Segment.text <+: a ++ (f.bindingStatement body ++ r) := by
        rw [← htext, h, List.flatMap_append]
        exact List.prefix_append _ _
      have ha := List.prefix_append a (f.bindingStatement body ++ r)
      exact (prefix_of_size_le hpre ha hstart.le).eq_of_length_le
        (prefix_of_size_le ha hpre hstart.ge).length_le
    rcases hfront ▸ isFresh_of_segments_eq h with he | he | he
    · rw [he] at ha
      cases ha
    · exact he
    · rw [he.getLast?] at ha
      cases ha

end Frame

/-- What is kept in front of the binding is balanced. -/
theorem isBalanced_of_standsAhead {c : Context} {t : Text} {l : ObjectLiteral}
    (hl : firstLiteral? t = some l) {s : Segment} (hs : s ∈ carriedOver c t)
    (ha : standsAhead t s = true) : isBalanced s.text = true := by
  obtain ⟨x, hx, hcovers⟩ : ∃ x ∈ segments t, x.covers l.statement.start = true := by
    obtain ⟨pre, x, post, h, -, -, hi⟩ := exists_segment_at hl
    have := List.findIdx?_eq_some_iff_getElem.1 hi
    exact ⟨_, List.getElem_mem this.choose, this.choose_spec.1⟩
  have hle := stop_le_of_standsAhead hl hs ha
  rw [Segment.covers, Bool.and_eq_true, decide_eq_true_eq, decide_eq_true_eq] at hcovers
  exact isBalanced_of_stop_lt (mem_carriedOver hs).1 hx (by omega)

/-- What is written in front of the binding ends its last line, unless an import that is carried over
leaves something open. -/
theorem Writes.closedBy_ahead {c : Context} {t out : Text} {f : Frame} {body : Text}
    {imports leading trailing : List Text} (h : Writes c t out f body imports leading trailing)
    (hr : Script.isName c.registry.receiver = true) (hq : closesQuotes t = true) {l : ObjectLiteral}
    (hl : firstLiteral? t = some l)
    (himports : ∀ s ∈ carriedOver c t, isImport s = true → isBalanced s.text = true) :
    ClosedBy '\n' (listing (f.entriesAhead imports leading)) := by
  obtain ⟨hi, hl⟩ := h.forall_ahead (P := fun p => p = [] ∨ IsEntry p) (.inl rfl)
    fun s hs hside p hc => by
      obtain ⟨hseg, hk, -⟩ := mem_carriedOver hs
      have hbalanced : isBalanced s.text = true :=
        hside.elim (himports s hs) (isBalanced_of_standsAhead hl hs)
      exact .inr (hc.isEntry_of_text hbalanced hq hseg hk)
  have hentries := Frame.isEntry_entriesAhead (h.registry ▸ hr) hi hl
  exact closedBy_listing (isBalanced_of_entries hentries) (by simp [Frame.entriesAhead])

/-- **The name of a converted module.** The binding is written under the name of the first literal,
behind `textAhead`. It is a statement of its own if and only if the last line in front of it ends
outside all brackets, in particular if the imports that are carried over are balanced. It is exported
if its name is `descriptor`, or if the literal is taken over and was exported: a literal that is not
taken over loses its export. -/
theorem convert?_binds {c : Context} {t out : Text} {k : Conversion} {l : ObjectLiteral}
    (hl : firstLiteral? t = some l) (h : convert? c t = some (out, k)) :
    (k = .converted ↔ (closedBody? l).isSome = true)
      ∧ (ClosedBy '\n' (textAhead c t) ↔ ∃ s ∈ segments out, s.span.start = size (textAhead c t)
        ∧ s.kind = .binding l.identifier
          (k = .converted && l.exported || l.identifier = exportName))
      ∧ (isName c.registry.receiver = true → closesQuotes t = true →
        (∀ s ∈ carriedOver c t, isImport s = true → isBalanced s.text = true) →
          ClosedBy '\n' (textAhead c t)) := by
  obtain ⟨hout, hk⟩ := eq_of_convert? h
  obtain ⟨imports, leading, trailing, r, hw, hahead, hr⟩ := exists_textAhead c t
  rw [← hout] at hr
  have hkind : (k = .converted ↔ (closedBody? l).isSome = true)
      ∧ (draftOf c t).1.exported = (k = .converted && l.exported) := by
    rw [hk, draftOf, hl]
    cases hc : closedBody? l <;> simp [hc]
  have hlast : (textAhead c t).getLast? = some '\n' := by
    rw [hahead]
    exact getLast?_listing (by simp [Frame.entriesAhead])
  refine ⟨hkind.1, ?_, fun hrec hq himports => ?_⟩
  · have hbinding := (Frame.exists_segment_binding_iff hw.isName hlast
      (draftOf c t).1.keptBody r)
    have hexported : (draftOf c t).1.frame.exported = (k = .converted && l.exported) := hkind.2
    rwa [hexported, hw.identifier l hl, ← hr] at hbinding
  · rw [hahead]
    exact hw.closedBy_ahead hrec hq hl himports

theorem convert?_binds_sample : ∃ s ∈ segments framedModule, s.kind = .binding "x" false := by
  obtain ⟨l, hl, -, hi⟩ := exists_looseLiteral
  obtain ⟨-, hbinds, hends⟩ := convert?_binds hl convert?_looseModule
  obtain ⟨s, hs, -, hkind⟩ := hbinds.1 (hends (by decide) (by decide) (by decide))
  refine ⟨s, hs, ?_⟩
  have hexported : l.exported = false := by
    have h : ((firstLiteral? looseModule).all fun l => !l.exported) = true := by decide
    simpa [hl] using h
  rw [hkind, hi, hexported]
  decide

/-- A module that exports its binding, in which a bracket is open. -/
def openModule : Text := "export const x = \x7b\n  a: (\n\x7d;\n"

/-- The module in canonical form. -/
def standInModule : Text := ofLines
  ["/**", " * X", " * Library: a | Category: b", " */", "import \x7b r \x7d from 'r.js';", "",
    "const x = \x7b", "  type: 'x',", "  library: 'a',", "  category: 'b',", "  label: 'X',",
    "  // No definition could be recovered from the original module.",
    "  // Add defaults, propertySchema, svgRender, and codeGenerator.", "\x7d;", "",
    "export const descriptor = x;", "export default x;", "", "r.register(x);",
    "console.log('✔ [a] b/x');"]

/-- A placeholder keeps the name of an exported binding, but it is not exported any more. -/
theorem convert?_drops_export :
    (segments openModule).map Segment.kind = [.binding "x" true]
      ∧ ((firstLiteral? openModule).any fun l => l.identifier = ("x" : Text) && l.exported) = true
      ∧ convert? sampleContext openModule = some (standInModule, .placeholder)
      ∧ (.binding "x" false) ∈ (segments standInModule).map Segment.kind
      ∧ ∀ s ∈ segments standInModule, s.kind ≠ .binding "x" true := by
  refine ⟨?_, ?_, ?_, ?_, ?_⟩ <;> decide +kernel

end ElementModules.Descriptor
