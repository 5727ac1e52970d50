import ElementModules.Proofs.Descriptor.Agreement
import ElementModules.Proofs.Descriptor.Recognizing
import ElementModules.Proofs.Descriptor.Synthesis
import ElementModules.Proofs.Script.Runs

/-!
# The literal of a synthesized module

The first literal of a synthesized module is the one that the frame binds, unless something in front
of it declares another one (`Draft.BindsFirst`). Whatever the body was, a literal that is closed holds
the identity fields of the frame, and behind them what is left of the body up to the brace that closes
it (`Frame.exists_inside_of_bodyAt?`).

The frame means its fields to be the only ones with their keys, and to take over a label of the body.
Both have exceptions. Only properties are taken out of a body, so a method, an accessor or a key that
cannot be read as one of a property stays, and overrides the field of the frame in the host language
(`Draft.ownsKeys_synthesize_iff`). And a label is read off a string only if it has no escapes, so one
that the frame itself would write with an escape is lost (`Draft.label_synthesize_iff`).

## Main results

* `Draft.exists_literal`: the first literal of a synthesized module.
* `Draft.ownsKeys_synthesize_iff`: when each identity key has one field.
* `Draft.label_synthesize_iff`: when the label of the body survives.
-/

namespace ElementModules.Descriptor

open Text Script

/-! ### The binding of a frame -/

namespace Frame

/-- No bracket of the identity fields is stray. -/
theorem closes_identityFields (f : Frame) :
    ∀ m ∈ marks (identityFields f.identityValues), closes 0 m = false := by
  obtain ⟨ms, hs, hfree⟩ := scans_identityFields f.isPlain_identityValues []
  have hmarks := hs.marks []
  rw [List.append_nil] at hmarks
  intro m hm
  refine hfree m ?_
  have : marks (identityFields f.identityValues) = ms ++ [] := hmarks
  rwa [this, List.append_nil] at hm

/-- **A binding that is closed** holds the identity fields, whatever its body is. -/
theorem exists_inside_of_bodyAt? (f : Frame) {body r w : Text}
    (h : bodyAt? (marks ('\x7b' :: (f.inside body ++ '\x7d' :: ';' :: r))) = some w) :
    ∃ w', w = f.inside w' := by
  obtain ⟨hw, -, rest, hrest⟩ := isBody_of_bodyAt? h
  rw [inside, List.append_assoc] at hrest
  rcases List.append_eq_append_iff.1 hrest with ⟨u, hu, hbehind⟩ | ⟨u, hu, hbehind⟩
  · cases u with
    | nil => cases hbehind
    | cons c u =>
      obtain ⟨rfl, -⟩ := List.cons.inj hbehind
      exact ⟨u, hu⟩
  · cases u with
    | nil => cases hbehind
    | cons c u =>
      obtain ⟨rfl, -⟩ := List.cons.inj hbehind
      -- the closing brace cannot stand in the identity fields
      obtain ⟨q, -, hmarks⟩ := marks_append_cons w '\x7d' u
      have hcode : (endState w).layer '\x7d' u.head? = .code := by
        rw [State.layer_of_ne_slash (by decide) _ _ none]
        exact hw.topLevel.1
      have hdepth : (endState w).depth = 0 := congrArg List.length hw.topLevel.2
      have hfree := f.closes_identityFields ⟨'\x7d', .code, 0⟩ (by
        rw [hu, hmarks, hcode, hdepth]
        simp)
      cases hfree

end Frame

namespace Draft

/-- Nothing in front of the binding is declared, and no statement runs on into the binding. -/
structure BindsFirst (d : Draft) : Prop where
  closed : ClosedBy '\n' (d.frame.preamble d.kept)
  declares : declaration? (d.frame.preamble d.kept) = none

/-- Without kept imports and statements nothing in front of the binding is declared. -/
theorem bindsFirst {d : Draft} (hr : isName d.registry.receiver = true)
    (himports : d.kept.imports = []) (hleading : d.kept.leading = []) : d.BindsFirst := by
  have hahead : d.frame.preamble d.kept = listing (d.frame.entriesAhead [] []) := by
    rw [← d.frame.preamble_eq d.kept.trailing (.inl rfl), Frame.preamble, Frame.preamble, himports,
      hleading]
    rfl
  have hinert : ∀ p ∈ d.frame.entriesAhead [] [], IsInert p :=
    Frame.isInert_entriesAhead hr (by simp) (by simp)
  have hentries : ∀ p ∈ d.frame.entriesAhead [] [], p = [] ∨ IsEntry p :=
    Frame.isEntry_entriesAhead hr (by simp) (by simp)
  constructor <;> rw [hahead]
  · exact closedBy_listing (isBalanced_of_entries hentries) (by simp [Frame.entriesAhead])
  · have hdecl := declaration?_listing_append hinert []
    rw [List.append_nil] at hdecl
    exact hdecl

/-- **The first literal of a synthesized module** is the one that the frame binds. -/
theorem exists_literal {d : Draft} (hname : isName d.boundName = true) (hfirst : d.BindsFirst) :
    ∃ l, firstLiteral? d.synthesize = some l ∧ l.identifier = d.boundName
      ∧ (l.closing = .balanced → ∃ w, l.body = d.frame.inside w)
      ∧ (IsBody d.keptBody → l.closing = .balanced ∧ l.body = d.frame.inside d.keptBody) := by
  obtain ⟨e, he, hid, hbody⟩ := Frame.exists_declaration?_append (f := d.frame) hname
    hfirst.closed hfirst.declares d.keptBody ('\n' :: '\n' :: d.frame.closing d.kept)
  have hout : d.synthesize = d.frame.preamble d.kept ++ (d.frame.bindingStatement d.keptBody
      ++ '\n' :: '\n' :: d.frame.closing d.kept) := by
    rw [synthesize, Frame.render_eq, Frame.binding_eq]
    simp
  rw [← hout] at he
  obtain ⟨l, hl, rfl⟩ := Option.map_eq_some_iff.1 he
  rw [ObjectLiteral.declaration] at hbody
  refine ⟨l, hl, hid, fun hc => ?_, fun hkept => ?_⟩
  · simp only [if_pos hc] at hbody
    exact d.frame.exists_inside_of_bodyAt? hbody.symm
  · rw [Frame.bodyAt?_inside hkept] at hbody
    split at hbody
    · exact ⟨‹_›, Option.some.inj hbody⟩
    · cases hbody

end Draft

/-! ### The fields with identity keys -/

/-- Whether a field has the key of one that the frame writes, in whatever form. -/
def hasIdentityKey (f : Field) : Bool := f.key.any fun key => identityFieldKeys.contains key

theorem isIdentityField_eq (f : Field) :
    isIdentityField f = (decide (f.kind = .property) && hasIdentityKey f) := rfl

namespace Frame

/-- The fields that a literal has under the key of an identity field are the one that the frame
writes. -/
def OwnsKeys (f : Frame) (l : ObjectLiteral) : Prop :=
  ∀ v ∈ f.identityValues, (l.fields.map Field.gist).filter (fun g => g.1 = some v.1)
    = [identityGist v]

instance (f : Frame) (l : ObjectLiteral) : Decidable (f.OwnsKeys l) :=
  @List.decidableBAll _ _ (fun _ => instDecidableEqList _ _) f.identityValues

/-- **A frame owns the identity keys** if the rest of the body has none of them. -/
theorem ownsKeys_iff {f : Frame} {l : ObjectLiteral} {w : Text} (h : l.body = f.inside w) :
    f.OwnsKeys l ↔ ∀ g ∈ fields w, hasIdentityKey g = false := by
  have hgists : l.fields.map Field.gist = f.identityValues.map identityGist ++ gists w := by
    have := f.gists_inside w
    rwa [gists_newline, gists, ← h] at this
  have hone : f.OwnsKeys l ↔ ∀ v ∈ f.identityValues, ∀ g ∈ fields w, g.key ≠ some v.1 := by
    refine forall₂_congr fun v hv => ?_
    rw [hgists, List.filter_append, f.filter_identityGists hv, List.append_right_eq_self, List.filter_eq_nil_iff,
      gists, List.forall_mem_map]
    exact forall₂_congr fun g _ => not_congr decide_eq_true_iff
  rw [hone]
  have hmap : f.identityValues.map Prod.fst = identityFieldKeys := rfl
  constructor
  · intro hno g hg
    rw [hasIdentityKey]
    cases hk : g.key with
    | none => rfl
    | some key =>
      rw [Option.any_some, List.contains_eq_mem, decide_eq_false_iff_not, ← hmap, List.mem_map]
      rintro ⟨v, hv, rfl⟩
      exact hno v hv g hg hk
  · intro hno v hv g hg hk
    have hkey := hno g hg
    rw [hasIdentityKey, hk, Option.any_some, List.contains_eq_mem, decide_eq_false_iff_not] at hkey
    exact hkey (f.mem_identityFieldKeys v hv)

end Frame

/-- **What is kept of a body** has no identity keys if only properties of the body have them. -/
theorem hasIdentityKey_indentBody {b : Text} (h : IsBody b) (hq : closesQuotes b = true)
    (hp : HasPlainBlanks (marks b)) :
    (∀ g ∈ fields (indentBody (withoutIdentity b)), hasIdentityKey g = false)
      ↔ ∀ g ∈ fields b, hasIdentityKey g = true → g.kind = .property := by
  have hread : ∀ fs : List Field, (∀ g ∈ fs, hasIdentityKey g = false)
      ↔ ∀ c ∈ fs.map Field.core, (c.1.any fun key => identityFieldKeys.contains key) = false :=
    fun _ => by rw [List.forall_mem_map]; rfl
  have hcores : (fields (indentBody (withoutIdentity b))).map Field.core
      = ((fields b).filter fun f => !isIdentityField f).map Field.core := by
    have hkept := cores_keptBody h hq hp
    rwa [cores_eq, gists_newline, ← cores_eq, cores] at hkept
  rw [hread, hcores, ← hread]
  refine forall_congr' fun g => ?_
  rw [List.mem_filter, isIdentityField_eq]
  cases hasIdentityKey g <;> simp

namespace Draft

variable {d : Draft} {x b : Text} (hx : d.identifier = some x) (hname : isName x = true)
  (hb : d.body = some b)
  (hclose : closeOffset? (marks (braced b)) 0 = some (size ('\x7b' :: b)))
include hx hname hb hclose

/-- The first literal of a module that is made of a closed one. -/
theorem exists_literal_of_braced (hfirst : d.BindsFirst) :
    ∃ l, firstLiteral? d.synthesize = some l ∧ l.identifier = x
      ∧ (l.closing = .balanced → ∃ w, l.body = d.frame.inside w)
      ∧ (closesQuotes (braced b) = true → l.closing = .balanced
        ∧ l.body = d.frame.inside (indentBody (withoutIdentity b))) := by
  have hbound : d.boundName = x := by
    rw [boundName, hx]
    rfl
  have hkept : d.keptBody = indentBody (withoutIdentity b) := by rw [keptBody, hb]
  obtain ⟨l, hl, hid, hinside, hbody⟩ := d.exists_literal (hbound ▸ hname) hfirst
  refine ⟨l, hl, hid.trans hbound, hinside, fun hquotes => ?_⟩
  rw [← hkept]
  refine hbody ?_
  rw [hkept]
  exact isBody_indentBody (closesQuotes_withoutIdentity (closesQuotes_of_braced hquotes))
    (isBody_withoutIdentity (isBody_of_closeOffset? hclose))

/-- **The identity keys** of a synthesized literal are those of the frame alone if nothing that is
kept of the body has one: no field with an identity key in the body may be anything but a property. -/
theorem ownsKeys_synthesize_iff (hfirst : d.BindsFirst) :
    ∃ l, firstLiteral? d.synthesize = some l ∧ l.identifier = x
      ∧ (l.closing = .balanced → ∃ w, l.body = d.frame.inside w
        ∧ (d.frame.OwnsKeys l ↔ ∀ g ∈ fields w, hasIdentityKey g = false))
      ∧ (closesQuotes (braced b) = true → l.closing = .balanced
        ∧ (HasPlainBlanks (marks (braced b)) →
          (d.frame.OwnsKeys l ↔ ∀ g ∈ fields b, hasIdentityKey g = true → g.kind = .property))) := by
  obtain ⟨l, hl, hid, hinside, hkept⟩ := exists_literal_of_braced hx hname hb hclose hfirst
  refine ⟨l, hl, hid, fun hc => ?_, fun hquotes => ⟨(hkept hquotes).1, fun hblanks => ?_⟩⟩
  · obtain ⟨w, hw⟩ := hinside hc
    exact ⟨w, hw, Frame.ownsKeys_iff hw⟩
  · have hbody := isBody_of_closeOffset? hclose
    rw [Frame.ownsKeys_iff (hkept hquotes).2]
    exact hasIdentityKey_indentBody hbody (closesQuotes_of_braced hquotes)
      (hbody.hasPlainBlanks hblanks)

end Draft

namespace Draft

theorem ownsKeys_synthesize_sample :
    ∃ l, firstLiteral? sample.synthesize = some l ∧ sample.frame.OwnsKeys l := by
  obtain ⟨l, hl, -, -, hquotes⟩ := ownsKeys_synthesize_iff (d := sample) rfl (by decide) rfl
    (by decide) (bindsFirst (by decide) rfl rfl)
  exact ⟨l, hl, ((hquotes (by decide)).2 (by decide)).2 (by decide)⟩

/-- A draft with a method under an identity key. -/
def overriding : Draft := { sample with body := some " type() \x7b\x7d " }

/-- A method under an identity key stays in the body, behind the field of the frame. -/
theorem not_ownsKeys_overriding :
    isName "x" = true
      ∧ closeOffset? (marks (braced " type() \x7b\x7d ")) 0 = some (size ("\x7b type() \x7b\x7d " : Text))
      ∧ ∃ l ∈ firstLiteral? overriding.synthesize, l.closing = .balanced
        ∧ ¬ overriding.frame.OwnsKeys l := by
  refine ⟨?_, ?_, ?_⟩ <;> decide +kernel

end Draft

/-! ### The label of the body -/

theorem quote_injective {s t : Text} (h : quote s = quote t) : s = t := by
  rw [← quotedContents_quote s, h, quotedContents_quote]

theorem backslash_mem_escape {t : Text} (h : ¬ IsVerbatim t) : '\\' ∈ escape t := by
  simp only [IsVerbatim, not_forall] at h
  obtain ⟨c, hc, hne⟩ := h
  rw [escape, List.mem_flatMap]
  refine ⟨c, hc, ?_⟩
  rw [escapeChar]
  split_ifs
  · simp
  · simp
  · simp
  · simp
  · exact absurd ⟨‹_›, ‹_›, ‹_›, ‹_›⟩ hne

/-- **A quoted text** is read as a plain string if it is written without escapes. -/
theorem unquoted?_quote_eq (t : Text) :
    Field.unquoted? (quote t) = if IsVerbatim t then some t else none := by
  split
  · exact unquoted?_quote ‹_›
  · have hinner : ((quote t).drop 1).dropLast = escape t := by
      rw [quote]
      exact List.dropLast_concat
    have hhead : (quote t).head? = some '\'' := rfl
    rw [Field.unquoted?, hhead]
    simp only [Option.bind_eq_bind, Option.bind_some, hinner]
    simp [backslash_mem_escape ‹_›]

namespace Draft

/-- The label of a module whose body begins its labels with a quoted text. -/
theorem resolvedLabel_eq {d : Draft} {x b s : Text} {g : Field} (hx : d.identifier = some x)
    (hb : d.body = some b)
    (hg : (fields b).find? (fun f => f.key = some ("label" : Text)) = some g)
    (hkind : g.kind = .property) (hvalue : g.value = some (quote s)) :
    d.resolvedLabel = if IsVerbatim s then s else d.label.getD (Script.label x) := by
  have hfind : (fields b).find?
      (fun f => f.kind = .property && f.key = some ("label" : Text)) = some g := by
    rw [List.find?_eq_some_iff_append] at hg ⊢
    obtain ⟨hkey, front, back, hsplit, hnone⟩ := hg
    refine ⟨by simp [hkind, of_decide_eq_true hkey], front, back, hsplit, fun f hf => ?_⟩
    have hne := hnone f hf
    rw [Bool.not_eq_true'] at hne ⊢
    rw [hne, Bool.and_false]
  have hauthored : authoredLabel? b = if IsVerbatim s then some s else none := by
    rw [authoredLabel?, hfind, Option.bind_some, Field.stringValue?, hvalue, Option.bind_some,
      unquoted?_quote_eq]
  rw [resolvedLabel, hb, Option.bind_some, hauthored, boundName, hx]
  split <;> rfl

/-- **The label of the body** is that of the synthesized literal if it is written without escapes, or
by chance. Otherwise the supplied label is used, or the one made from the bound name. -/
theorem label_synthesize_iff {d : Draft} {x b s : Text} {g : Field} (hx : d.identifier = some x)
    (hname : isName x = true) (hb : d.body = some b)
    (hclose : closeOffset? (marks (braced b)) 0 = some (size ('\x7b' :: b)))
    (hfirst : d.BindsFirst)
    (hg : (fields b).find? (fun f => f.key = some ("label" : Text)) = some g)
    (hkind : g.kind = .property) (hvalue : g.value = some (quote s)) :
    d.resolvedLabel = (if IsVerbatim s then s else d.label.getD (Script.label x))
      ∧ ∃ l, firstLiteral? d.synthesize = some l ∧ l.identifier = x
        ∧ (closesQuotes (braced b) = true → l.closing = .balanced)
        ∧ (l.closing = .balanced →
          ((l.fields.find? fun f => f.key = some ("label" : Text)).bind Field.value = some (quote s)
            ↔ IsVerbatim s ∨ d.label.getD (Script.label x) = s)) := by
  have hlabel := resolvedLabel_eq hx hb hg hkind hvalue
  obtain ⟨l, hl, hid, hinside, hkept⟩ := exists_literal_of_braced hx hname hb hclose hfirst
  refine ⟨hlabel, l, hl, hid, fun hquotes => (hkept hquotes).1, fun hc => ?_⟩
  obtain ⟨w, hw⟩ := hinside hc
  have hfield : (l.fields.find? fun f => f.key = some ("label" : Text)).bind Field.value
      = some (quote d.resolvedLabel) := by
    have hmem : (("label", d.frame.label) : Text × Text) ∈ d.frame.identityValues := by
      simp [Frame.identityValues]
    have hfind : (gists (d.frame.inside w)).find? (fun g => g.1 = some ("label" : Text))
        = some (identityGist ("label", d.frame.label)) :=
      d.frame.find?_inside hmem
    rw [← hw, gists, List.find?_map] at hfind
    obtain ⟨f, hf, hgist⟩ := Option.map_eq_some_iff.1 hfind
    have hf' : l.fields.find? (fun f => f.key = some ("label" : Text)) = some f := hf
    rw [hf', Option.bind_some]
    exact congrArg (fun g => g.2.2.2) hgist
  rw [hfield, hlabel, Option.some_inj]
  constructor
  · intro hq
    have hs := quote_injective hq
    split at hs
    · exact .inl ‹_›
    · exact .inr hs
  · rintro (hs | hs)
    · rw [if_pos hs]
    · split
      · rfl
      · rw [hs]

/-- The label of the sample survives. -/
theorem label_synthesize_sample :
    sample.resolvedLabel = "L" ∧ ∃ l, firstLiteral? sample.synthesize = some l
      ∧ (l.fields.find? fun f => f.key = some ("label" : Text)).bind Field.value = some (quote "L") := by
  have hsome : ((fields (sample.body.getD [])).find?
      fun f => f.key = some ("label" : Text)).isSome = true := by decide
  obtain ⟨g, hg⟩ := Option.isSome_iff_exists.1 hsome
  have hlabel : ∀ g ∈ (fields (sample.body.getD [])).find? (fun f => f.key = some ("label" : Text)),
      g.kind = .property ∧ g.value = some (quote "L") := by decide
  obtain ⟨hkind, hvalue⟩ := hlabel g hg
  obtain ⟨h, l, hl, -, hquotes, hc⟩ := label_synthesize_iff (d := sample) (s := "L") rfl (by decide)
    rfl (by decide) (bindsFirst (by decide) rfl rfl) hg hkind hvalue
  exact ⟨h, l, hl, (hc (hquotes (by decide))).2 (.inl (by decide))⟩

/-- A draft whose body has a label that is written with an escape. -/
def escapedLabel : Draft := { sample with body := some " label: 'it\\'s' " }

/-- A label that is written with an escape is lost. -/
theorem label_lost_escapedLabel :
    closeOffset? (marks (braced " label: 'it\\'s' ")) 0 = some (size ("\x7b label: 'it\\'s' " : Text))
      ∧ (∃ g ∈ (fields " label: 'it\\'s' ").find? fun f => f.key = some ("label" : Text),
        g.kind = .property ∧ g.value = some (quote "it's"))
      ∧ escapedLabel.resolvedLabel = "X"
      ∧ ∃ l ∈ firstLiteral? escapedLabel.synthesize, l.closing = .balanced
        ∧ (l.fields.find? fun f => f.key = some ("label" : Text)).bind Field.value
          = some (quote "X") := by
  refine ⟨?_, ?_, ?_, ?_⟩ <;> decide +kernel

end Draft

end ElementModules.Descriptor
