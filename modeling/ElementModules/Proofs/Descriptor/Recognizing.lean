import ElementModules.Proofs.Descriptor.Carrying
import ElementModules.Proofs.Descriptor.Generated
import ElementModules.Proofs.Descriptor.Naming

/-!
# What a rendered module is read as

A module that is rendered without further fields is its frame alone: a comment, an import, the
binding, its exports, the registration and the diagnostic line. Label, library, category and import
path are written into a comment, into strings and into a message; they may hold the marks that end
comments and strings, line ends and the marks of templates. Each reading of the module gives back what
was written all the same (`Frame.recognized_render`): the statements have the shapes that the frame
gives them, and the fields of the first literal hold the texts of the frame.

Each statement of the frame is an entry of a listing, so it is enough to tell the shapes of the
entries one by one (`Frame.statementContents_render`).

## Main results

* `Frame.shape_aliasLines`, `Frame.shape_defaultLine`, `Frame.shape_bindingStatement`: the shapes of the
  binding and its exports.
* `quotedContents_quote`: a quoted text stands for the text.
* `Frame.recognized_render`: what a rendered module is read as.
-/

namespace ElementModules.Descriptor

open Text Script

/-! ### Quoted values -/

/-- What a quoted value stands for: the text between its quote marks, its escapes undone. -/
def quotedContents (value : Text) : Text := unescape (value.drop 1).dropLast

theorem quotedContents_quote (t : Text) : quotedContents (quote t) = t := by
  have hinner : ((quote t).drop 1).dropLast = escape t := by
    rw [quote]
    exact List.dropLast_concat
  rw [quotedContents, hinner, unescape_escape]

/-! ### The shapes of the frame -/

namespace Frame

/-- The kinds of the statements of a module without further fields. -/
def statementKinds (f : Frame) : List SegmentKind :=
  .comment :: .importDecl
    :: .binding f.identifier (f.exported || f.identifier = exportName)
    :: (if f.identifier = exportName then [] else [.descriptorAlias f.identifier])
    ++ [SegmentKind.exportDefault, .registration f.registry.receiver, .log]

section Shapes

variable {f : Frame} (hid : isName f.identifier = true)
include hid

/-- The words of the alias are read as one of the name behind them. -/
theorem bindingKind_alias :
    bindingKind true (("const descriptor = " : Text) ++ (f.identifier ++ [';']))
      = .descriptorAlias f.identifier := by
  obtain ⟨c, n, hn⟩ := List.exists_cons_of_ne_nil (ne_nil_of_isName hid)
  have hc := isNameChar_of_mem hid (hn ▸ List.mem_cons_self)
  have hword : Token.word? "const" (("const descriptor = " : Text) ++ (f.identifier ++ [';']))
      = some ((" descriptor = " : Text) ++ (f.identifier ++ [';'])) := rfl
  have hkeyword : (["const", "let", "var"] : List Text).find? (fun k => (Token.word? k
      (("const descriptor = " : Text) ++ (f.identifier ++ [';']))).isSome) = some ("const" : Text) :=
    List.find?_cons_of_pos (by rw [hword]; rfl)
  have hblanks : Token.someBlanks? ((" descriptor = " : Text) ++ (f.identifier ++ [';']))
      = some (("descriptor = " : Text) ++ (f.identifier ++ [';'])) := rfl
  have hname : Token.name? (("descriptor = " : Text) ++ (f.identifier ++ [';']))
      = some (("descriptor" : Text), (" = " : Text) ++ (f.identifier ++ [';'])) := rfl
  have hequals : Token.char? '=' (Token.blanks ((" = " : Text) ++ (f.identifier ++ [';'])))
      = some (' ' :: (f.identifier ++ [';'])) := rfl
  have hvalue : Token.blanks (' ' :: (f.identifier ++ [';'])) = f.identifier ++ [';'] := by
    rw [Token.blanks, List.dropWhile_cons_of_pos rfl, hn, List.cons_append,
      List.dropWhile_cons_of_neg (by simp [(isHeadChar_of_isNameChar hc).1])]
  have hbrace : ¬ (f.identifier ++ [';']).head? = some '\x7b' := by
    rw [hn, List.cons_append, List.head?_cons, Option.some.injEq]
    exact ne_of_class hc rfl
  have htarget : Token.name? (f.identifier ++ [';']) = some (f.identifier, [';']) :=
    Token.name?_append hid rfl
  have hend : (Token.blanks ((Token.char? ';' (Token.blanks [';'])).getD (Token.blanks [';']))).isEmpty
      = true := rfl
  simp only [bindingKind, Option.bind_eq_bind]
  rw [hkeyword, Option.bind_some, hword, Option.bind_some, hblanks, Option.bind_some, hname,
    Option.bind_some, hequals, Option.bind_some, hvalue, Option.pure_def]
  dsimp only
  rw [if_neg hbrace, if_pos (by decide), htarget]
  exact if_pos hend

theorem statementKind_alias :
    statementKind (("export const descriptor = " : Text) ++ f.identifier ++ [';'])
      = .descriptorAlias f.identifier := by
  have hsplit : ("export const descriptor = " : Text)
      = ("export " : Text) ++ ("const descriptor = " : Text) := by decide
  have hblanks : Token.blanks (("const descriptor = " : Text) ++ (f.identifier ++ [';']))
      = ("const descriptor = " : Text) ++ (f.identifier ++ [';']) := rfl
  have hdefault : Token.word? "default" (("const descriptor = " : Text) ++ (f.identifier ++ [';']))
      = none := rfl
  rw [hsplit, List.append_assoc, List.append_assoc, statementKind_export_eq, hblanks, hdefault]
  exact bindingKind_alias hid

theorem shape_aliasLines : ∀ w ∈ f.aliasLines, shape w = .descriptorAlias f.identifier := by
  intro w hw
  have hline := isLine_aliasLines hid w hw
  rw [aliasLines] at hw
  split at hw
  · cases hw
  · obtain rfl := List.mem_singleton.1 hw
    rw [shape_eq_statementKind hline, statementKind_alias hid]
    intro c hc
    obtain rfl : 'e' = c := Option.some.inj hc
    rfl

theorem shape_defaultLine : shape f.defaultLine = .exportDefault := by
  have hsplit : ("export default " : Text) = ("export " : Text) ++ ("default " : Text) := by decide
  have hline : f.defaultLine = ("export default " : Text) ++ f.identifier ++ [';'] := rfl
  have hwords : f.defaultLine
      = ("export " : Text) ++ (("default " : Text) ++ (f.identifier ++ [';'])) := by
    rw [hline, hsplit, List.append_assoc, List.append_assoc]
  have hdefault : (Token.word? "default" (Token.blanks (("default " : Text)
      ++ (f.identifier ++ [';'])))).isSome = true := rfl
  rw [shape_eq_statementKind (isLine_defaultLine hid), hwords, statementKind_export_eq,
    if_pos hdefault]
  intro c hc
  obtain rfl : 'e' = c := Option.some.inj hc
  rfl

/-- **The binding** has the shape of its head, whatever its body holds. -/
theorem shape_bindingStatement {body : Text} (h : IsBody body) : shape (f.bindingStatement body)
    = .binding f.identifier (f.exported || f.identifier = exportName) := by
  have hhead : ∀ c ∈ (f.bindingStatement body).head?, isBlank c = false := by
    rw [bindingStatement, bindingHead, bindingWords]
    split
    · intro c hc
      obtain rfl : 'e' = c := Option.some.inj hc
      rfl
    · intro c hc
      obtain rfl : 'c' = c := Option.some.inj hc
      rfl
  rw [(shape_of_semicolon (marks_bindingStatement hid h) hhead).2, bindingStatement,
    statementKind_bindingHead hid]

end Shapes

/-! ### The statements of the frame -/

section Rendered

variable {f : Frame} (hid : isName f.identifier = true) (hr : IsReceiver f.registry.receiver)
include hid hr

/-- **The statements of a module without further fields** are those of the frame. -/
theorem statementContents_render : statementContents (f.render [] {})
    = (f.opening ++ f.bindingStatement [] :: f.ending).map fun p => (shape p, p ++ ['\n']) := by
  obtain ⟨hrender, hahead, hbehind⟩ := render_entries hid hr []
  have hbinding := isEntry_bindingStatement hid endState_nil isBody_nil
  have hentries : ∀ p ∈ f.entriesAhead [] [] ++ f.bindingStatement []
      :: (f.entriesBehind [] ++ [f.callLine, f.logLine]), p = [] ∨ IsEntry p := by
    intro p hp
    simp only [List.mem_append, List.mem_cons, List.not_mem_nil, or_false] at hp
    rcases hp with hp | rfl | hp | rfl | rfl
    · exact hahead p hp
    · exact .inr hbinding
    · exact hbehind p hp
    · exact .inr (isLine_registrationCall hr.isName hid).isEntry
    · exact .inr (isLine_diagnosticLine _ _ _).isEntry
  have hfilter : ∀ {ps : List Text}, AreTrimmed ps → ps.filter (· ≠ []) = ps := fun h =>
    List.filter_eq_self.2 fun p hp => by simpa using (h p hp).1
  rw [hrender, statementContents_listing hentries, List.filter_append,
    List.filter_cons_of_pos (by simpa using hbinding.ne_nil), filter_entriesAhead,
    filter_entriesBehind]
  simp only [List.append_nil, List.nil_append]
  rw [hfilter (areTrimmed_opening hr.isName), hfilter (areTrimmed_ending hid hr.isName)]

/-- The shapes of the statements of the frame. -/
theorem map_shape_statements :
    (f.opening ++ f.bindingStatement [] :: f.ending).map shape = f.statementKinds := by
  have hheader := f.isEntry_headerComment.2
  have himport := (shape_registryImport (r := f.registry) hr.isName).2
  have hcall := (shape_registrationCall hr hid).2
  have hlog := (shape_diagnosticLine f.library f.category f.identifier).2
  have halias : f.aliasLines.map shape
      = if f.identifier = exportName then [] else [.descriptorAlias f.identifier] := by
    have hshapes := shape_aliasLines hid
    rw [aliasLines] at hshapes ⊢
    split_ifs at hshapes ⊢
    · rfl
    · rw [List.map_singleton, hshapes _ List.mem_cons_self]
  rw [shape_append_newline] at himport hcall hlog
  simp only [opening, ending, callLine, logLine, statementKinds, List.map_append, List.map_cons,
    List.map_nil, List.cons_append, List.nil_append, hheader, himport, hcall, hlog, halias,
    shape_bindingStatement hid isBody_nil, shape_defaultLine hid]

/-- The only log line of the frame is the diagnostic line. -/
theorem isDiagnostic_of_shape {p : Text} (hp : p ∈ f.opening ++ f.bindingStatement [] :: f.ending)
    (hlog : shape p = .log) : isDiagnostic p = true := by
  have hsplit : f.opening ++ f.bindingStatement [] :: f.ending = (f.opening ++ f.bindingStatement []
      :: (f.aliasLines ++ [f.defaultLine, f.callLine])) ++ [f.logLine] := by
    simp [ending]
  have hfront := congrArg List.dropLast (map_shape_statements hid hr)
  rw [hsplit, List.map_append, List.map_singleton, List.dropLast_concat] at hfront
  rw [hsplit, List.mem_append, List.mem_singleton] at hp
  rcases hp with hp | rfl
  · have hmem := hfront ▸ List.mem_map_of_mem (f := shape) hp
    rw [hlog, statementKinds] at hmem
    split_ifs at hmem <;> simp at hmem
  · exact isDiagnostic_diagnosticLine _ _ _

end Rendered

/-- The fields of a module without further fields. -/
theorem gists_render (f : Frame) : gists (f.inside []) = f.identityValues.map identityGist := by
  have hnil : gists ['\n'] = [] := rfl
  rw [gists_inside, hnil, List.append_nil]

/-- **Metadata cannot break the frame.** Whatever texts library, category, label and import path are,
the statements of a module without further fields have the kinds of the frame, the log line is the
diagnostic line, the module is balanced, and its first literal is closed and has exactly the identity
fields, whose quoted values stand for the texts of the frame. -/
theorem recognized_render {f : Frame} (hid : isIdentifier f.identifier = true)
    (hr : IsReceiver f.registry.receiver) :
    (statements (f.render [] {})).map Segment.kind = f.statementKinds
      ∧ (∀ s ∈ statements (f.render [] {}), s.kind = .log → isDiagnostic s.text = true)
      ∧ isBalanced (f.render [] {}) = true
      ∧ ∃ l, firstLiteral? (f.render [] {}) = some l ∧ l.closing = .balanced
        ∧ l.identifier = f.identifier
        ∧ l.fields.map Field.gist = f.identityValues.map identityGist
        ∧ l.fields.map (fun g => (g.key, g.value.map quotedContents))
          = f.identityValues.map fun v => (some v.1, some v.2) := by
  have hname : isName f.identifier = true := (Bool.and_eq_true_iff.1 hid).1
  refine ⟨?_, fun s hs hlog => ?_, isBalanced_render hname hr endState_nil isBody_nil, ?_⟩
  · have hkind : Segment.kind = Prod.fst ∘ Segment.content := rfl
    rw [hkind, ← List.map_map, map_content_statements, statementContents_render hname hr,
      List.map_map, ← map_shape_statements hname hr]
    rfl
  · have hcontent : s.content ∈ statementContents (f.render [] {}) :=
      map_content_statements _ ▸ List.mem_map_of_mem hs
    rw [statementContents_render hname hr] at hcontent
    obtain ⟨p, hp, he⟩ := List.mem_map.1 hcontent
    obtain ⟨hk, ht⟩ := Prod.mk.inj he
    rw [← ht, isDiagnostic_append_newline]
    exact isDiagnostic_of_shape hname hr hp (hk.trans hlog)
  · obtain ⟨l, hl, hc, hi, hb⟩ :=
      exists_of_declaration? (declaration?_render hname hr.isName isBody_nil) rfl
    have hgists : l.fields.map Field.gist = f.identityValues.map identityGist := by
      rw [← f.gists_render, ← hb]
      rfl
    have hread : (fun g : Field => (g.key, g.value.map quotedContents))
        = (fun x : Option Text × FieldKind × Text × Option Text => (x.1, x.2.2.2.map quotedContents))
          ∘ Field.gist := rfl
    refine ⟨l, hl, hc, hi, hgists, ?_⟩
    rw [hread, ← List.map_map, hgists, List.map_map]
    refine List.map_congr_left fun v _ => ?_
    simp [identityGist, quotedContents_quote]

/-- A frame whose texts hold the marks that end a comment, a string and a template. -/
def strayFrame : Frame :=
  ⟨"x", false, "*/", "'\n$\x7b\\", "**/ \u2028\x60", ⟨"r", "\r\n');//", "i.js"⟩⟩

theorem recognized_render_strayFrame :
    isIdentifier strayFrame.identifier = true ∧ IsReceiver strayFrame.registry.receiver
      ∧ (statements (strayFrame.render [] {})).map Segment.kind
        = [.comment, .importDecl, .binding "x" false, .descriptorAlias "x", .exportDefault,
          .registration "r", .log]
      ∧ ∃ l, firstLiteral? (strayFrame.render [] {}) = some l
        ∧ l.fields.map (fun g => g.value.map quotedContents)
          = (["x", "*/", "'\n$\x7b\\", "**/ \u2028\x60"] : List Text).map some := by
  have hid : isIdentifier strayFrame.identifier = true := by decide
  have hr : IsReceiver strayFrame.registry.receiver := isReceiver_sampleContext
  obtain ⟨hkinds, -, -, l, hl, -, -, -, hfields⟩ := recognized_render hid hr
  have hvalues := congrArg (List.map Prod.snd) hfields
  rw [List.map_map, List.map_map] at hvalues
  exact ⟨hid, hr, hkinds, l, hl, hvalues⟩

end Frame

end ElementModules.Descriptor
