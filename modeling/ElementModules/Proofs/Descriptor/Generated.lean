import ElementModules.Descriptor.Generation
import ElementModules.Proofs.Descriptor.Agreement
import ElementModules.Proofs.Descriptor.Exporting
import ElementModules.Proofs.Json.Scanning
import ElementModules.Proofs.Script.Runs

/-!
# Generated modules

A generated module is a frame around fields that are written one behind the other. A label, an icon
and a drawing tag are written as quoted strings and the default values as JSON, so nothing that a
table says gets out of its place (`isFieldRun_generatedBody`). The rest is what every framed module
is: balanced, exported as the descriptor, and in repaired form. A repair finds the library and the
category in the literal as long as they are written without escapes, so it needs the registry of its
context only.

## Main results

* `isFieldRun_generatedBody`: the fields of a generated module.
* `generate_canonical`: generated modules are in canonical form.
-/

namespace ElementModules.Json

open Text Script

/-- Lines may be indented between tokens. -/
theorem Spells.indentLines {tokens : List Token} {t : Text} (h : Spells tokens t) :
    Spells tokens (Descriptor.indentLines t) := by
  have hsame : ∀ {w : Text}, '\n' ∉ w → Descriptor.indentLines w = w := by
    intro w hw
    induction w with
    | nil => rfl
    | cons c w ih =>
      obtain ⟨hc, hw⟩ := not_or.1 (mt List.mem_cons.2 hw)
      rw [Descriptor.indentLines, List.flatMap_cons, if_neg (Ne.symm hc)]
      exact congrArg (c :: ·) (ih hw)
  induction h with
  | nil => exact .nil
  | @cons tokens t b token blanks _ ih =>
    have hsplit : Descriptor.indentLines (token.render ++ b ++ t)
        = token.render ++ Descriptor.indentLines b ++ Descriptor.indentLines t := by
      rw [Descriptor.indentLines, List.flatMap_append, List.flatMap_append]
      congr 2
      exact hsame (newline_not_mem_render token)
    rw [hsplit]
    refine .cons token (fun c hc => ?_) ih
    obtain ⟨x, hx, hc⟩ := List.mem_flatMap.1 hc
    split at hc
    · simp only [List.mem_cons, List.not_mem_nil, or_false] at hc
      rcases hc with rfl | rfl | rfl <;> simp
    · rw [List.mem_singleton.1 hc]
      exact blanks x hx

end ElementModules.Json

namespace ElementModules.Descriptor

open Text Script

/-! ### The fields -/

/-- A field with a quoted string. -/
theorem isFieldRun_quoted (key : Text) {a r : Text} (ha : a = ' ' :: ' ' :: (key ++ ':' :: r))
    (hk : isName key = true) (hm : key ∉ (["async", "get", "set"] : List Text))
    (hfits : Fits.holds [] a [] = true) (v : Text) : IsFieldRun [key] (a ++ quote v ++ ",\n") := by
  have hend : EndsField [] ",\n" := .of_holds (by decide)
  have hw : a ++ quote v ++ ",\n" = ' ' :: ' ' :: (key ++ ':' :: (r ++ quote v ++ ",\n")) := by
    simp [ha]
  exact .of_key hw hk hm (.inl rfl) (.behind ((Fits.of_holds [] hfits).append (.quote v [])) hend)

/-- The default values. -/
theorem isFieldRun_defaultsField (defaults : List (Text × Json)) :
    IsFieldRun ["defaults"] (defaultsField defaults) := by
  obtain ⟨ms, hs, hi, hc⟩ := Json.exists_scans_object
    (Json.spells_layered 0 (Json.toTokens (.object defaults))).indentLines []
  have hvalue : Fits [] (indentLines (Json.pretty (.object defaults))) [] := by
    refine ⟨ms, hs, fun m hm => ?_⟩
    have hcloses : closes 0 m = false := (hi m hm).2
    simp [isHarmless, hc m hm, hcloses]
  have hfront : Fits [] "  defaults: " [] := .of_holds [] (by decide)
  have hend : EndsField [] ",\n" := .of_holds (by decide)
  exact .of_key rfl (by decide) (by decide) (.inl rfl)
    (.behind (hfront.append hvalue) hend)

/-- The fields that say how an element is edited and checked. -/
theorem isFieldRun_editingFields : IsFieldRun ["propertySchema", "validate"] editingFields := by
  rw [editingFields]
  repeat rw [ofLines_cons]
  exact .of_holds (by decide +kernel)

/-- The field that draws an element. -/
theorem isFieldRun_procedure (d : Drawing) (icon : Text) :
    IsFieldRun ["svgRender"] (d.procedure icon) := by
  cases d with
  | box =>
    rw [Drawing.procedure, Drawing.boxProcedure]
    repeat rw [ofLines_cons]
    refine .of_key rfl (by decide +kernel) (by decide +kernel) (.inr rfl) (.behind
      (.append (.append (.append (.of_holds [.bracket, .bracket] ?_)
        (.of_holds [.bracket, .bracket, .bracket] ?_)) (.quote icon _))
        (.of_holds [.bracket, .bracket] ?_)) (.of_holds ?_)) <;> decide +kernel
  | zigzag =>
    rw [Drawing.procedure, Drawing.zigzagProcedure]
    repeat rw [ofLines_cons]
    exact .of_holds (by decide +kernel)
  | plates =>
    rw [Drawing.procedure, Drawing.platesProcedure]
    repeat rw [ofLines_cons]
    exact .of_holds (by decide +kernel)

/-- The field that writes an element as part of a circuit. -/
theorem isFieldRun_circuitProcedure (tag : Text) :
    IsFieldRun ["codeGenerator"] (circuitProcedure tag) := by
  rw [circuitProcedure]
  repeat rw [ofLines_cons]
  refine .of_key rfl (by decide +kernel) (by decide +kernel) (.inr rfl) (.behind
    (.append (.append (.append (.of_holds [.bracket] ?_)
      (.of_holds [.bracket, .bracket] ?_)) (.quote tag _))
      (.of_holds [.bracket] ?_)) (.of_holds ?_)) <;> decide +kernel

/-- The fields of a generated module, one behind the other. -/
theorem generatedBody_eq (library name : Text) (row : ElementRow) :
    generatedBody library name row = "  id: " ++ quote (library ++ ":" ++ name) ++ ",\n"
      ++ ("  icon: " ++ quote row.icon ++ ",\n" ++ (defaultsField row.defaults ++ (editingFields
        ++ ((Drawing.ofName name).procedure row.icon ++ circuitProcedure row.drawingTag)))) := by
  have hjoin : (",\n  icon: " : Text) = ",\n" ++ "  icon: " := by decide
  unfold generatedBody
  rw [hjoin]
  -- no step below may compute the characters of a literal
  generalize ("  id: " : Text) = a, (",\n" : Text) = b, ("  icon: " : Text) = c, editingFields = d
  simp only [List.append_assoc]

/-- **The fields of a generated module** that the frame does not write. -/
theorem isFieldRun_generatedBody (library name : Text) (row : ElementRow) :
    IsFieldRun ["id", "icon", "defaults", "propertySchema", "validate", "svgRender", "codeGenerator"]
      (generatedBody library name row) := by
  have hid := isFieldRun_quoted "id" (a := "  id: ") rfl (by decide)
    (by decide) (by decide) (library ++ ":" ++ name)
  have hicon := isFieldRun_quoted "icon" (a := "  icon: ") rfl (by decide)
    (by decide) (by decide) row.icon
  rw [generatedBody_eq]
  exact hid.append (hicon.append ((isFieldRun_defaultsField row.defaults).append
    (isFieldRun_editingFields.append ((isFieldRun_procedure (Drawing.ofName name) row.icon).append
      (isFieldRun_circuitProcedure row.drawingTag)))))

/-! ### The canonical statements -/

/-- A text that is written without escapes. -/
def IsVerbatim (t : Text) : Prop := ∀ c ∈ t, c ≠ '\'' ∧ c ≠ '\\' ∧ c ≠ '\n' ∧ c ≠ '\r'

instance : DecidablePred IsVerbatim := fun t => List.decidableBAll _ t

/-- A text that is written without escapes is read back. -/
theorem unquoted?_quote {t : Text} (h : IsVerbatim t) : Field.unquoted? (quote t) = some t := by
  have hescape : escape t = t := by
    induction t with
    | nil => rfl
    | cons c t ih =>
      obtain ⟨h1, h2, h3, h4⟩ := h c List.mem_cons_self
      rw [escape_cons, ih fun d hd => h d (List.mem_cons_of_mem c hd), escapeChar, if_neg h2,
        if_neg h1, if_neg h3, if_neg h4]
      rfl
  have hinner : ((quote t).drop 1).dropLast = t := by
    rw [quote, hescape]
    exact List.dropLast_concat
  have hquote : '\'' ∉ t := fun hc => (h _ hc).1 rfl
  have hslash : '\\' ∉ t := fun hc => (h _ hc).2.1 rfl
  have hhead : (quote t).head? = some '\'' := rfl
  have hlast : (quote t).getLast? = some '\'' := getLast?_append_quote [] t
  have hlength : 2 ≤ (quote t).length := by simp [quote]
  rw [Field.unquoted?, hhead]
  simp only [Option.bind_eq_bind, Option.bind_some, hinner, hlast]
  simp [hquote, hslash, hlength]

/-- **The canonical statements** for the literal of a frame need the registry only, if the library and
the category are written without escapes. -/
theorem canonicalStatements_verbatim {c : Context} {f : Frame} {body : Text} {l : ObjectLiteral}
    (hr : f.registry = c.registry) (hlib : IsVerbatim f.library) (hcat : IsVerbatim f.category)
    (hid : l.identifier = f.identifier) (hbody : l.body = f.inside body) :
    canonicalStatements c l = listing [f.callLine, f.logLine] := by
  have hkey : ∀ v ∈ f.identityValues, IsVerbatim v.2 → ∀ d, (l.stringField? v.1).getD d = v.2 := by
    intro v hv hverbatim d
    rw [ObjectLiteral.stringField?, hbody, f.stringField?_inside hv, unquoted?_quote hverbatim]
    rfl
  exact canonicalStatements_eq_listing hbody hr hid
    (hkey ("library", f.library) (by simp [Frame.identityValues]) hlib _)
    (hkey ("category", f.category) (by simp [Frame.identityValues]) hcat _)

/-! ### The whole module -/

namespace Frame

variable {f : Frame} {body : Text} (hid : isName f.identifier = true)
  (hr : IsReceiver f.registry.receiver)
include hid hr

/-- A module without kept statements is a listing of entries. -/
theorem render_entries (body : Text) :
    f.render body {} = listing (f.entriesAhead [] [] ++ f.bindingStatement body
        :: (f.entriesBehind [] ++ [f.callLine, f.logLine]))
      ∧ (∀ p ∈ f.entriesAhead [] [], p = [] ∨ IsEntry p)
      ∧ ∀ p ∈ f.entriesBehind [], p = [] ∨ IsEntry p :=
  ⟨@render_eq_listing f body [] [] [] (.inl rfl) (.inl rfl),
    isEntry_entriesAhead hr.isName (by simp) (by simp), isEntry_entriesBehind hid (by simp)⟩

variable (hend : endState body = .start) (hbody : IsBody body)
include hend

theorem exportsDescriptor_render : exportsDescriptor (f.render body {}) = true := by
  obtain ⟨hrender, hahead, hbehind⟩ := render_entries hid hr body
  rw [hrender]
  exact exportsDescriptor_listing hid hend (isBalanced_of_entries hahead)
    (isBalanced_of_entries hbehind)

include hbody

theorem isBalanced_render : isBalanced (f.render body {}) = true := by
  obtain ⟨hrender, hahead, hbehind⟩ := render_entries hid hr body
  have hcall := (isLine_registrationCall (r := f.registry.receiver) hr.isName hid).isEntry.balanced
  have hlog := (isLine_diagnosticLine f.library f.category f.identifier).isEntry.balanced
  rw [hrender]
  refine Closed.isBalanced (.inl (closedBy_listing (fun p hp => ?_) (by simp)))
  simp only [List.mem_append, List.mem_cons, List.not_mem_nil, or_false] at hp
  rcases hp with hp | rfl | hp | rfl | rfl
  · exact isBalanced_of_entries hahead p hp
  · exact (isEntry_bindingStatement hid hend hbody).balanced
  · exact isBalanced_of_entries hbehind p hp
  · exact hcall
  · exact hlog

/-- **A repair of a module without kept statements** changes nothing, if its canonical statements are
those of its literal. -/
theorem repair_render {c : Context} (hreg : f.registry = c.registry)
    (hown : ∀ l : ObjectLiteral, l.identifier = f.identifier → l.body = f.inside body →
      canonicalStatements c l = listing [f.callLine, f.logLine]) :
    repair c (f.render body {}) = .ok (f.render body {}) := by
  have hr' : IsReceiver c.registry.receiver := hreg ▸ hr
  obtain ⟨hrender, hahead, hbehind⟩ := render_entries hid hr body
  obtain ⟨u, front, l, hrep, hcanonical, hout⟩ :=
    exists_repaired hid hend hbody hreg hr' hahead hbehind
      (stays_entries hid hbody hreg hr' (by simp) (by simp) (by simp))
      (isSpaced_entries hid hr.isName body .nil .nil .nil) hown
  obtain ⟨l', hl', hc', hi', hb'⟩ :=
    exists_of_declaration? (declaration?_render hid hr.isName hbody) rfl
  have hfor := statementsFor?_eq_some.2 ⟨l', hl', hc', hown l' hi' hb'⟩
  rw [hrender, hout] at hfor ⊢
  exact (hrep.repair_iff hr').2 (hcanonical ▸ hfor)

end Frame

/-- The keys of a generated module. -/
def generatedKeys : List Text :=
  ["type", "library", "category", "label", "id", "icon", "defaults", "propertySchema", "validate",
    "svgRender", "codeGenerator"]

/-- The frame of a generated module. -/
def generatedFrame (table : ElementTable) (registry : Registry) (name : Text) (row : ElementRow) :
    Frame :=
  ⟨name, false, table.library, table.category, generatedLabel name row, registry⟩

theorem generate_eq {table : ElementTable} {registry : Registry} {name : Text} (row : ElementRow)
    (hname : isIdentifier name = true) :
    generate table registry name row = .ok ⟨name, moduleFile name,
      (generatedFrame table registry name row).render (generatedBody table.library name row) {}⟩ :=
  if_pos hname

/-- The keys between the braces are those of the frame and those behind them. -/
theorem fieldKeys_inside {f : Frame} {body : Text} {keys : List Text} (h : IsFieldRun keys body) :
    fieldKeys (f.inside body) = (identityFieldKeys ++ keys).map some := by
  rw [fieldKeys_eq, f.gists_inside, List.map_append, gists_newline, ← fieldKeys_eq, h.keys,
    List.map_append]
  rfl

/-- **Generated modules are in canonical form.** Whatever a table says about an element, its module is
balanced, exports a descriptor, and declares a closed literal under the name of the element with
exactly the fields of a generated module. A repair changes nothing, whatever its context says apart
from the registry. -/
theorem generate_canonical {table : ElementTable} {registry : Registry} {name : Text}
    (row : ElementRow) (hname : isIdentifier name = true) (hlib : IsVerbatim table.library)
    (hcat : IsVerbatim table.category) (hr : IsReceiver registry.receiver) :
    ∃ m, generate table registry name row = .ok m ∧ isBalanced m.text = true
      ∧ exportsDescriptor m.text = true
      ∧ (∃ l, firstLiteral? m.text = some l ∧ l.closing = .balanced ∧ l.identifier = name
        ∧ l.fields.map Field.key = generatedKeys.map some)
      ∧ ∀ c : Context, c.registry = registry → repair c m.text = .ok m.text := by
  have hid : isName name = true := (Bool.and_eq_true_iff.1 hname).1
  have hrun := isFieldRun_generatedBody table.library name row
  have hend := hrun.endState_eq
  set f := generatedFrame table registry name row with hf
  refine ⟨_, generate_eq row hname, f.isBalanced_render hid hr hend hrun.isBody,
    f.exportsDescriptor_render hid hr hend, ?_, fun c hc => ?_⟩
  · obtain ⟨l, hl, hc, hi, hb⟩ :=
      exists_of_declaration? (f.declaration?_render hid hr.isName hrun.isBody) rfl
    refine ⟨l, hl, hc, hi, ?_⟩
    have hkeys : l.fields.map Field.key = fieldKeys l.body := rfl
    rw [hkeys, hb, fieldKeys_inside hrun]
    rfl
  · exact f.repair_render hid hr hend hrun.isBody hc.symm
      fun l hi hb => canonicalStatements_verbatim hc.symm hlib hcat hi hb

/-- An element whose texts have marks of other literals in them. -/
def strayRow : ElementRow :=
  ⟨"\'", "$\x7b", "*/", [("a", .string "\n\x7d\""), ("b", .array [.null])]⟩

theorem generate_canonical_strayRow :
    isIdentifier "diode" = true ∧ IsVerbatim ({} : ElementTable).library
      ∧ IsVerbatim ({} : ElementTable).category ∧ IsReceiver sampleContext.registry.receiver
      ∧ ∃ m, generate {} sampleContext.registry "diode" strayRow = .ok m ∧ isBalanced m.text = true
        ∧ exportsDescriptor m.text = true
        ∧ (∃ l, firstLiteral? m.text = some l ∧ l.closing = .balanced ∧ l.identifier = "diode"
          ∧ l.fields.map Field.key = generatedKeys.map some)
        ∧ ∀ c : Context, c.registry = sampleContext.registry → repair c m.text = .ok m.text := by
  have hname : isIdentifier "diode" = true := by decide
  have hlib : IsVerbatim ({} : ElementTable).library := by decide +kernel
  have hcat : IsVerbatim ({} : ElementTable).category := by decide +kernel
  have hr : IsReceiver sampleContext.registry.receiver := isReceiver_sampleContext
  exact ⟨hname, hlib, hcat, hr, generate_canonical strayRow hname hlib hcat hr⟩

end ElementModules.Descriptor
