import ElementModules.Proofs.Descriptor.Converting
import ElementModules.Proofs.Descriptor.Declared
import ElementModules.Proofs.Descriptor.ReadBack
import ElementModules.Proofs.Script.Content

/-!
# The fields of a synthesized descriptor

A body goes through three changes before it stands in a module again: the identity fields are taken
out of it, what is left is indented, and the frame is put around it. None of them changes the other
fields but for the length of their gaps. The first takes out whole pieces (`cores_withoutIdentity`),
the second leaves the condensed marks as they are (`cores_indentBody`), and behind the identity
fields of the frame the scan of the body starts anew (`Frame.cores_inside`). Since nothing is
declared in front of the binding (`Frame.isInert_entriesAhead`), its literal is the first one.

## Main results

* `cores_keptBody`: the fields that are kept of a body.
* `Draft.fields_synthesize`: the fields of a synthesized descriptor.
-/

namespace ElementModules.Script

open Text

/-! ### Literals -/

/-- A body between braces. -/
def braced (b : Text) : Text := '\x7b' :: (b ++ ['\x7d'])

/-- What stands between braces of which the first is closed by the last can be a body. -/
theorem isBody_of_closeOffset? {b : Text}
    (h : closeOffset? (marks (braced b)) 0 = some (size ('\x7b' :: b))) : IsBody b := by
  have hfrom : fromOffset 0 (marks (braced b)) = marks (braced b) := fromOffset_eq [] _
  rw [closeOffset?, hfrom] at h
  obtain ⟨k, hk, hsize⟩ := Option.map_eq_some_iff.1 h
  have hown : sizeOf ((marks (braced b)).take (b.length + 1)) = size ('\x7b' :: b) := by
    rw [sizeOf, chars, List.map_take, ← chars, chars_marks]
    simp [braced]
  have hlength : ((marks (braced b)).take k).length
      = ((marks (braced b)).take (b.length + 1)).length := by
    rw [Nat.zero_add, ← hown] at hsize
    have hpre := fun n => List.take_prefix n (marks (braced b))
    exact Nat.le_antisymm (prefix_of_sizeOf_le (hpre _) (hpre _) hsize.le).length_le
      (prefix_of_sizeOf_le (hpre _) (hpre _) hsize.ge).length_le
  obtain rfl : k = b.length + 1 := by
    simp [marks, braced] at hlength
    omega
  have hbody : bodyAt? (marksFrom .start ('\x7b' :: (b ++ ['\x7d']))) = some b := by
    rw [bodyAt?, ← braced, ← marks, hk, Option.bind_some, chars_marks]
    simp [braced]
  exact (isBody_of_bodyAt? hbody).1

section Braced

variable {b : Text}

theorem closesQuotes_of_braced (h : closesQuotes (braced b) = true) : closesQuotes b = true := by
  have hinside : (State.start.enclosed [.bracket]).closesQuotes (b ++ ['\x7d']) = true := by
    rw [closesQuotes, braced, State.closesQuotes, Bool.and_eq_true] at h
    exact h.2
  rw [State.closesQuotes_enclosed, State.closesQuotes_append, Bool.and_eq_true] at hinside
  exact hinside.1

theorem IsBody.hasPlainBlanks (hb : IsBody b) (h : HasPlainBlanks (marks (braced b))) :
    HasPlainBlanks (marks b) := by
  have hmarks : marks (braced b) = ⟨'\x7b', .code, 0⟩ :: ((marks b).map (Mark.deeper 1)
      ++ [⟨'\x7d', .code, 1⟩]) := congrArg (_ :: ·) (hb.marks_close [] [])
  intro m hm
  refine h (m.deeper 1) ?_
  rw [hmarks]
  exact List.mem_cons_of_mem _ (List.mem_append_left _ (List.mem_map_of_mem hm))

end Braced

end ElementModules.Script

namespace ElementModules.Descriptor

open Text Script

/-! ### The fields that are kept -/

/-- A line feed at the start is a gap at the start. -/
theorem condense_newline (w : Text) :
    condense true (marks ('\n' :: w)) = condense true (marks w) := rfl

section Kept

variable {w : Text} (hb : isBalanced w = true) (hq : closesQuotes w = true)
  (hp : HasPlainBlanks (marks w))
include hb hq hp

/-- **Indentation** keeps the fields of a body. -/
theorem cores_indentBody : cores ('\n' :: indentBody w) = cores w := by
  have hr := respaces_indentBody hb hq
  have hlit : (endState w).isInLiteral = false := State.isInLiteral_of_isSettled hb
  have hline : (endState (w ++ ['\n'])).isInLiteral = false := by
    rw [Closed.endState (.inl (closedBy_newline hb))]
    rfl
  have hblanks : HasPlainBlanks (marks (w ++ ['\n'])) := by
    obtain ⟨x, hx, hm⟩ := marks_append_newline_eq w
    intro m hmem
    rw [hm, List.mem_append, List.mem_singleton] at hmem
    rcases hmem with hmem | rfl
    · exact hp m hmem
    · intro _ _
      rw [hx]
      rfl
  have hbefore : IsReadable (w ++ ['\n']) := by
    refine ⟨hblanks, ?_, hline⟩
    rw [closesQuotes_append, hq, Bool.true_and, State.closesQuotes, not_isQuoted hlit]
    rfl
  have hafter : IsReadable ('\n' :: indentBody w) := by
    refine ⟨fun m hm hl hc => ?_, hr.quotes, ?_⟩
    · rcases List.mem_cons.1 hm with rfl | hm
      · rfl
      · exact (hr.mem m hm).elim id fun hm => hblanks m hm hl hc
    · rw [← hline]
      exact congrArg State.isInLiteral hr.run_eq
  rw [cores_congr hafter hbefore ((condense_newline _).trans hr.condense_eq), cores_append_newline]

end Kept

/-- The fields of a body by their cores, without the identity fields. -/
theorem filter_cores (t : Text) : (cores t).filter (fun c => !isIdentityCore c)
    = ((fields t).filter fun f => !isIdentityField f).map Field.core := by
  rw [cores, List.filter_map]
  rfl

/-- **What is kept of a body** has the fields that are no identity fields. -/
theorem cores_keptBody {b : Text} (h : IsBody b) (hq : closesQuotes b = true)
    (hp : HasPlainBlanks (marks b)) : cores ('\n' :: indentBody (withoutIdentity b))
      = ((fields b).filter fun f => !isIdentityField f).map Field.core := by
  rw [cores_indentBody (isBalanced_withoutIdentity h.isBalanced) (closesQuotes_withoutIdentity hq)
    fun m hm => hp m (mem_marks_withoutIdentity hm), cores_withoutIdentity, filter_cores]

/-! ### The module around them -/

namespace Frame

/-- The fields between the braces of the binding, by their cores. -/
theorem cores_inside (f : Frame) (body : Text) : cores (f.inside body)
    = f.identityValues.map (coreOf ∘ identityGist) ++ cores ('\n' :: body) := by
  rw [cores_eq, cores_eq, gists_inside, List.map_append, List.map_map]

/-- Nothing that is written in front of the binding has a part in its head but what is kept. -/
theorem isInert_entriesAhead {f : Frame} (hr : isName f.registry.receiver = true)
    {imports leading : List Text} (hi : ∀ p ∈ imports, IsInert p) (hl : ∀ p ∈ leading, IsInert p) :
    ∀ p ∈ f.entriesAhead imports leading, IsInert p := by
  intro p hp
  rcases mem_entriesAhead hp with rfl | rfl | rfl | hp | hp
  · exact isInert_nil
  · obtain ⟨hentry, hshape⟩ := f.isEntry_headerComment
    exact isInert_of_isQuiet hentry.balanced (isQuiet_of_comment hshape)
  · exact isInert_of_isQuiet (isLine_registryImport hr).isEntry.balanced (isQuiet_registryImport hr)
  · exact hi p hp
  · exact hl p hp

/-- A module without kept statements declares its binding. -/
theorem declaration?_render {f : Frame} (hid : isName f.identifier = true)
    (hr : isName f.registry.receiver = true) {body : Text} (h : IsBody body) :
    declaration? (f.render body {}) = some ⟨.const, f.identifier,
      f.exported || f.identifier = exportName, some (f.inside body)⟩ := by
  have hnone : ({} : KeptStatements) = ⟨[], joinWith ['\n'] [], joinWith ['\n'] []⟩ := rfl
  rw [hnone, f.render_eq_listing body (.inl rfl) (.inl rfl), listing_append, listing_cons, List.append_assoc,
    declaration?_listing_append (isInert_entriesAhead hr (by simp) (by simp)),
    declaration?_bindingStatement hid h]

end Frame

namespace Draft

/-- What an identity field is written as. -/
def identityCore (v : Text × Text) : Option Text × FieldKind × List Mark :=
  (some v.1, .property, solid (marks (v.1 ++ ':' :: ' ' :: quote v.2)))

/-- **The fields of a synthesized descriptor** are the identity fields followed by those of the
source that are no identity fields: each with its key, its kind and its text up to the gaps. -/
theorem fields_synthesize {d : Draft} {x b : Text} (hx : d.identifier = some x)
    (hname : isName x = true) (hb : d.body = some b)
    (hclose : closeOffset? (marks (braced b)) 0 = some (size ('\x7b' :: b)))
    (hquotes : closesQuotes (braced b) = true) (hblanks : HasPlainBlanks (marks (braced b)))
    (hkept : d.kept = {}) (hr : isName d.registry.receiver = true) :
    ∃ l, firstLiteral? d.synthesize = some l ∧ l.closing = .balanced ∧ l.identifier = x
      ∧ l.fields.map Field.core
        = ([("type", x), ("library", d.library), ("category", d.category),
            ("label", d.resolvedLabel)] : List (Text × Text)).map identityCore
          ++ ((fields b).filter fun f => !isIdentityField f).map Field.core := by
  have hbody := isBody_of_closeOffset? hclose
  have hq := closesQuotes_of_braced hquotes
  have hid : d.frame.identifier = x := by
    show d.boundName = x
    rw [boundName, hx]
    rfl
  have hkeptBody : d.keptBody = indentBody (withoutIdentity b) := by rw [keptBody, hb]
  have hdecl := Frame.declaration?_render (f := d.frame) (hid ▸ hname) hr
    (isBody_indentBody (closesQuotes_withoutIdentity hq) (isBody_withoutIdentity hbody))
  rw [← hkeptBody, ← hkept] at hdecl
  obtain ⟨l, hl, hc, hi, hlb⟩ := exists_of_declaration? hdecl rfl
  refine ⟨l, hl, hc, hi.trans hid, ?_⟩
  have hcores : l.fields.map Field.core = cores (d.frame.inside d.keptBody) := by rw [← hlb]; rfl
  rw [hcores, Frame.cores_inside, hkeptBody, cores_keptBody hbody hq (hbody.hasPlainBlanks hblanks),
    Frame.identityValues, hid]
  rfl

/-- A draft with identity fields, a comment, a template and blanks of several kinds in its body. -/
def sample : Draft where
  fileId := "x"
  identifier := some "x"
  body := some "type: 'old',\n    n: 'a  b', // c\n\t...rest, f(a,  b) \x7b return \x60,\n \x60; \x7d,\n\"k\" : 1, label: 'L'"
  library := "a"
  category := "b"
  registry := sampleContext.registry

theorem fields_synthesize_sample : ∃ l, firstLiteral? sample.synthesize = some l
    ∧ l.closing = .balanced ∧ l.identifier = "x"
    ∧ l.fields.map Field.key = ([some "type", some "library", some "category", some "label",
      some "n", none, some "f", some "k"] : List (Option Text)) := by
  obtain ⟨l, hl, hc, hi, hf⟩ := fields_synthesize (d := sample) rfl (by decide) rfl
    (by decide) (by decide) (by decide) rfl (by decide)
  have hkeys := congrArg (List.map Prod.fst) hf
  rw [List.map_map] at hkeys
  exact ⟨l, hl, hc, hi, hkeys.trans (by decide)⟩

end Draft

end ElementModules.Descriptor
