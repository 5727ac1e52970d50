import ElementModules.Proofs.Descriptor.Naming

/-!
# Which converted modules can be repaired

A repair looks for the first object literal of a module and for the brace that closes it. So a
converted module can be repaired if its binding is found and closed: nothing in front of it declares
anything, and the first stray bracket of its body is a brace, if there is one
(`repair_converted_iff`).

A body that is taken over is balanced, but a balanced text may hold stray brackets. The body of a
closed literal holds none; that of a literal which a parenthesis or a square bracket closes holds this
bracket, unless it stands in an identity field, which is left out (`repair_rejects_strayModule`).

## Main results

* `repair_eq_ok_iff`, `repair_eq_error_iff`: what a text must declare to be repaired.
* `repair_converted_iff`: which converted modules can be repaired.
-/

namespace ElementModules.Descriptor

open Text Script

/-! ### What a repair looks for -/

section Repair

variable {c : Context} {t : Text}

/-- A module can be repaired if it declares a literal with its body. -/
theorem repair_eq_ok_iff :
    (∃ u, repair c t = .ok u) ↔ ∃ d, declaration? t = some d ∧ d.body.isSome = true := by
  rw [repair, declaration?]
  cases hl : firstLiteral? t with
  | none => simp
  | some l => cases hc : l.closing <;> simp [hc, ObjectLiteral.declaration]

/-- The error for a literal that is not closed. -/
theorem repair_eq_error_iff {x : Text} : repair c t = .error (.unbalancedLiteral x)
    ↔ ∃ d, declaration? t = some d ∧ d.identifier = x ∧ d.body = none := by
  rw [repair, declaration?]
  cases hl : firstLiteral? t with
  | none => simp
  | some l => cases hc : l.closing <;> simp [hc, ObjectLiteral.declaration]

/-- Texts that declare the same can be repaired alike. -/
theorem repair_eq_ok_congr {u : Text} (h : declaration? t = declaration? u) :
    (∃ v, repair c t = .ok v) ↔ ∃ v, repair c u = .ok v := by
  rw [repair_eq_ok_iff, repair_eq_ok_iff, h]

end Repair

/-! ### Stray brackets of a body -/

/-- A body without stray brackets keeps none when the identity fields are left out. -/
theorem strayBracket?_withoutIdentity {b : Text} (h : strayBracket? b = none) :
    strayBracket? (withoutIdentity b) = none := by
  rw [strayBracket?_eq_none_iff] at h ⊢
  exact fun m hm => h m (mem_marks_withoutIdentity hm)

/-- Indentation keeps the first stray bracket of a body. -/
theorem strayBracket?_indentBody {w : Text} (hq : closesQuotes w = true) (hb : isBalanced w = true) :
    strayBracket? (indentBody w) = strayBracket? w := by
  have hsolid : ∀ ms : List Mark, (solid ms).find? (closes 0) = ms.find? (closes 0) := by
    intro ms
    rw [solid, List.find?_filter]
    congr 1
    funext m
    cases hc : closes 0 m with
    | false => simp
    | true => simp [isGap_of_closes hc]
  rw [strayBracket?, strayBracket?, ← hsolid, solid_indentBody hq hb, hsolid]

/-! ### Converted modules -/

section Converted

variable {c : Context} {t : Text}

/-- The body that is taken over, as it is written. -/
theorem Drafts.keptBody_eq {d : Draft} (h : Drafts c t d) {l : ObjectLiteral} {b : Text}
    (hl : firstLiteral? t = some l) (hb : closedBody? l = some b) :
    d.keptBody = indentBody (withoutIdentity b) := by
  rw [Draft.keptBody, h.body, hl, Option.bind_some, hb]

/-- **Which converted modules can be repaired.** The literal is taken over if it has a usable body. If
the text in front of the binding ends outside all brackets and declares nothing, the module can be
repaired if and only if the first stray bracket of what is kept of the body is a brace, if there is
one; otherwise its literal is not closed. If that text declares something, the module can be repaired
if and only if the text can. The body of a closed literal has no stray bracket. -/
theorem repair_converted_iff {out : Text} {k : Conversion} {l : ObjectLiteral}
    (hr : isName c.registry.receiver = true) (hq : closesQuotes t = true)
    (hl : firstLiteral? t = some l) (h : convert? c t = some (out, k)) :
    (k = .converted ↔ (closedBody? l).isSome = true)
      ∧ (∀ b ∈ closedBody? l, l.closing = .balanced → strayBracket? (withoutIdentity b) = none)
      ∧ ((∀ s ∈ carriedOver c t, isImport s = true → isBalanced s.text = true) →
        ClosedBy '\n' (textAhead c t))
      ∧ (ClosedBy '\n' (textAhead c t) → ∀ b ∈ closedBody? l,
        (declaration? (textAhead c t) = none →
          (∀ x ∈ strayBracket? (withoutIdentity b), x = '\x7d') ∧ (∃ u, repair c out = .ok u)
            ∨ (∃ x ∈ strayBracket? (withoutIdentity b), x ≠ '\x7d')
              ∧ repair c out = .error (.unbalancedLiteral l.identifier))
        ∧ (declaration? (textAhead c t) ≠ none →
          ((∃ u, repair c out = .ok u) ↔ ∃ u, repair c (textAhead c t) = .ok u))) := by
  obtain ⟨hbound, -, hclosed⟩ := convert?_binds hl h
  obtain ⟨rfl, -⟩ := eq_of_convert? h
  obtain ⟨imports, leading, trailing, r, hw, -, hout⟩ := exists_textAhead c t
  refine ⟨hbound, fun b hb hc => ?_, hclosed hr hq, fun ha b hb => ⟨fun hn => ?_, fun hd => ?_⟩⟩
  · obtain rfl : l.body = b := Option.some.inj ((closedBody?_of_balanced hc).symm.trans hb)
    exact strayBracket?_withoutIdentity
      (strayBracket?_eq_none_iff.2 (isBody_of_firstLiteral? hl hc).strayless)
  · -- the binding is the first literal
    obtain ⟨d, hd, hi, hbody⟩ :=
      Frame.exists_declaration?_append hw.isName ha hn (draftOf c t).1.keptBody r
    rw [← hout] at hd
    have hiff := Frame.isSome_bodyAt?_inside_iff (hw.endState_body hq) (draftOf c t).1.frame r
    rw [← hbody, (drafts_draftOf c t).keptBody_eq hl hb,
      strayBracket?_indentBody (closesQuotes_withoutIdentity (closesQuotes_of_closedBody? hl hb hq))
        (isBalanced_withoutIdentity (isBalanced_of_closedBody? hl hb))] at hiff
    by_cases hs : d.body.isSome = true
    · exact .inl ⟨hiff.1 hs, repair_eq_ok_iff.2 ⟨d, hd, hs⟩⟩
    · refine .inr ⟨by simpa using mt hiff.2 hs, repair_eq_error_iff.2 ⟨d, hd, ?_, ?_⟩⟩
      · rw [hi, hw.identifier l hl]
      · simpa using hs
  · -- something in front of the binding is the first literal
    refine repair_eq_ok_congr ?_
    rw [hout]
    exact ha.declaration?_append hd _

end Converted

/-- A module whose literal is never closed. -/
def unclosedModule : Text := "const x = \x7b a: 1\nexport default x;\n"

theorem repair_converted_unclosedModule :
    (convert? sampleContext unclosedModule).map Prod.snd = some .converted
      ∧ ∃ out u, convert? sampleContext unclosedModule = some (out, .converted)
        ∧ repair sampleContext out = .ok u := by
  have hk : (convert? sampleContext unclosedModule).map Prod.snd = some .converted := by
    decide +kernel
  obtain ⟨⟨out, k⟩, h, rfl⟩ := Option.map_eq_some_iff.1 hk
  have hl : firstLiteral? unclosedModule = some ⟨.const, "x", false, ⟨0, 16⟩, ⟨10, 16⟩,
      "\x7b a: 1", " a: 1", ⟨1, 0, 0⟩, .heuristic⟩ := by decide
  obtain ⟨-, -, hclosed, hrepair⟩ := repair_converted_iff (by decide) (by decide) hl h
  have hnone : declaration? (textAhead sampleContext unclosedModule) = none := by decide +kernel
  rcases (hrepair (hclosed (by decide)) " a: 1" (by decide)).1 hnone with
    ⟨-, u, hu⟩ | ⟨⟨x, hx, -⟩, -⟩
  · exact ⟨hk, out, u, h, hu⟩
  · have hs : strayBracket? (withoutIdentity " a: 1") = none := by decide
    rw [hs] at hx
    cases hx

/-- A module whose literal a parenthesis closes. -/
def strayModule : Text := "const x = \x7b a: 1 ), b: 2 \x7d;\n"

/-- The module in canonical form. The parenthesis stands in the body. -/
def strayConverted : Text := ofLines
  ["/**", " * X", " * Library: a | Category: b", " */", "import \x7b r \x7d from 'r.js';", "",
    "const x = \x7b", "  type: 'x',", "  library: 'a',", "  category: 'b',", "  label: 'X',",
    "  a: 1 ), b: 2", "\x7d;", "", "export const descriptor = x;", "export default x;", "",
    "r.register(x);", "console.log('✔ [a] b/x');"]

/-- A literal is taken over, and the module cannot be repaired. -/
theorem repair_rejects_strayModule :
    isName sampleContext.registry.receiver = true
      ∧ convert? sampleContext strayModule = some (strayConverted, .converted)
      ∧ repair sampleContext strayConverted = .error (.unbalancedLiteral "x") := by
  refine ⟨?_, ?_, ?_⟩ <;> decide +kernel

end ElementModules.Descriptor
