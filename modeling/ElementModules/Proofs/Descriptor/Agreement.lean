import ElementModules.Proofs.Descriptor.Convergence
import ElementModules.Proofs.Descriptor.Spacing
import ElementModules.Proofs.Descriptor.Synthesis

/-!
# Conversions and repairs

A conversion writes the registry import, the canonical statements and the blank lines where a repair
would: a converted module is in repaired form (`Writes.exists_repaired`), whatever statements are
kept. So a repair of a converted module changes nothing if and only if the first literal of the module
is the binding of the frame, or leads to the same canonical statements.

It is the binding if nothing in front of it is declared: a head that begins there ends with the name
and the brace of the binding (`Frame.exists_declaration?_append`). A statement that declares nothing
in the source may declare something in the converted module, since its head can go on in the line
behind it when the lines in between are left out.

## Main results

* `Writes.exists_repaired`: converted modules are in repaired form.
* `repair_convert?_iff`: when a repair of a converted module changes nothing.
-/

namespace ElementModules.Descriptor

open Text Script

/-! ### Statements that stay -/

/-- A statement that does not give way. -/
def Stays (receiver p : Text) : Prop :=
  shape p ≠ .registration receiver ∧ (shape p = .log → isDiagnostic p = false)

theorem givesWay_of_stays {receiver p : Text} (h : Stays receiver p) :
    givesWay receiver (answers receiver (shape p, p ++ ['\n'])) = false := by
  rw [givesWay, answers, isDiagnostic_append_newline, Bool.or_eq_false_iff]
  refine ⟨by simpa using h.1, ?_⟩
  rw [Bool.and_eq_false_iff, decide_eq_false_iff_not]
  by_cases hk : shape p = .log
  · exact .inr (h.2 hk)
  · exact .inl hk

theorem stays_of_ne {receiver p : Text} {k : SegmentKind} (h : shape p = k)
    (hk : k ≠ .log ∧ ∀ r, k ≠ .registration r) : Stays receiver p :=
  ⟨h ▸ hk.2 receiver, fun hl => absurd (h.symm.trans hl) hk.1⟩

theorem bindingKind_ne_call (exported : Bool) (t : Text) :
    bindingKind exported t ≠ .log ∧ ∀ r, bindingKind exported t ≠ .registration r := by
  rcases bindingKind_cases exported t with h | ⟨x, h⟩ | ⟨x, h⟩ <;> rw [h] <;> simp

/-- The shape of what starts with the word `export`. -/
theorem statementKind_export_eq (t : Text) :
    statementKind (("export " : Text) ++ t)
      = if (Token.word? "default" (Token.blanks t)).isSome then .exportDefault
        else bindingKind true (Token.blanks t) := by
  have himport : Token.word? "import" (("export " : Text) ++ t) = none := rfl
  have hexport : Token.word? "export" (("export " : Text) ++ t) = some (' ' :: t) := rfl
  have hblanks : Token.blanks (' ' :: t) = Token.blanks t := rfl
  rw [statementKind, himport, hexport]
  simp only [Option.isSome_none, Bool.false_eq_true, if_false, hblanks]

/-- What starts with the word `export` is neither a log line nor a registration. -/
theorem statementKind_export (t : Text) :
    statementKind (("export " : Text) ++ t) ≠ .log
      ∧ ∀ r, statementKind (("export " : Text) ++ t) ≠ .registration r := by
  rw [statementKind_export_eq]
  split
  · simp
  · exact bindingKind_ne_call _ _

/-- The shape of what starts with the word `const`. -/
theorem statementKind_const_eq {x : Text} (hx : isName x = true) (t : Text) :
    statementKind (("const " : Text) ++ (x ++ t)) = bindingKind false (("const " : Text) ++ (x ++ t)) := by
  have himport : Token.word? "import" (("const " : Text) ++ (x ++ t)) = none := rfl
  have hexport : Token.word? "export" (("const " : Text) ++ (x ++ t)) = none := rfl
  have hlog : startsWith (("const " : Text) ++ (x ++ t)) "console." = false := rfl
  have hcall : registrationReceiver? (("const " : Text) ++ (x ++ t)) = none := by
    obtain ⟨c, n, rfl⟩ := List.exists_cons_of_ne_nil (ne_nil_of_isName hx)
    have hc := isNameChar_of_mem hx List.mem_cons_self
    have hname : Token.name? (("const " : Text) ++ (c :: n ++ t))
        = some (("const" : Text), ' ' :: (c :: n ++ t)) := rfl
    have hblanks : Token.blanks (' ' :: (c :: n ++ t)) = c :: n ++ t := by
      rw [Token.blanks, List.dropWhile_cons_of_pos rfl, List.cons_append,
        List.dropWhile_cons_of_neg (by simp [(isHeadChar_of_isNameChar hc).1])]
    have hdot : Token.char? '.' (c :: n ++ t) = none := by
      rw [List.cons_append, Token.char?, if_neg (ne_of_class hc rfl)]
    simp only [registrationReceiver?, hname, hblanks, hdot, Option.bind_eq_bind, Option.bind_some,
      Option.bind_none]
  rw [statementKind, himport, hexport, hlog, hcall]
  rfl

/-- What starts with the word `const` is neither a log line nor a registration. -/
theorem statementKind_const {x : Text} (hx : isName x = true) (t : Text) :
    statementKind (("const " : Text) ++ (x ++ t)) ≠ .log
      ∧ ∀ r, statementKind (("const " : Text) ++ (x ++ t)) ≠ .registration r := by
  rw [statementKind_const_eq hx]
  exact bindingKind_ne_call _ _

/-- The statements that a conversion keeps stay. -/
theorem Laid.stays {c : Context} {t : Text} {ps : List Text} {ss : List Segment} (h : Laid ps ss)
    (hs : ∀ s ∈ ss, s ∈ carriedOver c t) : ∀ p ∈ ps, Stays c.registry.receiver p := by
  intro p hp
  rcases h.mem p hp with rfl | ⟨s, hm, hc⟩
  · exact stays_of_ne (k := .blank) (by decide) (by simp)
  · obtain ⟨hseg, hk, hframe⟩ := mem_carriedOver (hs s hm)
    rcases hc.shape_eq hseg hk with hshape | hshape
    · rw [frameStandsFor] at hframe
      refine ⟨fun hreg => ?_, fun hlog => ?_⟩
      · rw [← hshape, hreg] at hframe
        simp at hframe
      · rw [← hshape, hlog] at hframe
        obtain ⟨b, b', he, -, -⟩ := hc.exists_blanks
        by_contra hd
        rw [Bool.not_eq_false] at hd
        have hinfix : p <:+: s.text := ⟨b, b', he.symm⟩
        simp [isDiagnostic_of_part hinfix hd] at hframe
    · exact stays_of_ne hshape (by simp)

namespace Frame

variable {f : Frame} (hid : isName f.identifier = true)
include hid

/-- The binding stays. -/
theorem stays_bindingStatement {body : Text} (h : IsBody body) (receiver : Text) :
    Stays receiver (f.bindingStatement body) := by
  have hwords : f.bindingStatement body
        = ("export " : Text) ++ (("const " : Text)
          ++ (f.identifier ++ [' ', '=', ' ', '\x7b'] ++ f.inside body ++ ['\x7d', ';']))
      ∨ f.bindingStatement body = ("const " : Text)
          ++ (f.identifier ++ ([' ', '=', ' ', '\x7b'] ++ f.inside body ++ ['\x7d', ';'])) := by
    have hexport : ("export const" : Text) = ("export " : Text) ++ ("const" : Text) := by
      decide
    have hconst : ("const " : Text) = ("const" : Text) ++ [' '] := by decide
    rw [bindingStatement, bindingHead, bindingWords, hconst]
    split
    · rw [hexport]
      exact .inl (by simp)
    · exact .inr (by simp)
  have hhead : ∀ c ∈ (f.bindingStatement body).head?, isBlank c = false := by
    rcases hwords with hw | hw <;> rw [hw] <;> rintro c hc <;>
      rw [← Option.some.inj (Option.mem_def.1 hc)] <;> rfl
  have hshape := (shape_of_semicolon (marks_bindingStatement hid h) hhead).2
  refine stays_of_ne hshape ?_
  rcases hwords with hw | hw <;> rw [hw]
  · exact statementKind_export _
  · exact statementKind_const hid _

/-- The exports behind the binding stay. -/
theorem stays_exports (receiver : Text) :
    (∀ w ∈ f.aliasLines, Stays receiver w) ∧ Stays receiver f.defaultLine := by
  have hexport : ∀ {w t : Text}, IsLine w → w = ("export " : Text) ++ t → Stays receiver w := by
    rintro w t hw rfl
    have hk := (shape_line hw (fun c hc => by
      rw [← Option.some.inj (Option.mem_def.1 hc)]; rfl)).2
    rw [shape_append_newline] at hk
    exact stays_of_ne hk (statementKind_export t)
  constructor
  · intro w hw
    have hline := isLine_aliasLines hid w hw
    rw [aliasLines] at hw
    split at hw
    · cases hw
    · exact hexport hline (List.mem_singleton.1 hw)
  · exact hexport (isLine_defaultLine hid) rfl

end Frame

/-! ### Repaired form -/

/-- Behind a statement the end of a text is tidied up already. -/
theorem finish_semicolon (q : Text) :
    withoutBlankEnd (withLineEnd (q ++ ';' :: ['\n'])) = q ++ ';' :: ['\n'] := by
  have hlast : (q ++ ';' :: ['\n']).getLast? = some '\n' := by simp
  have hend : withoutBlankEnd ['\n'] = ['\n'] := by decide
  rw [withLineEnd_of_getLast? hlast, withoutBlankEnd_append (by decide), hend]

/-- Entries with the import of the registry import the receiver. -/
theorem importsReceiver_listing {r : Registry} (hr : isName r.receiver = true) {ps : List Text}
    (hps : ∀ p ∈ ps, p = [] ∨ IsEntry p) (h : registryImport r ∈ ps) :
    importsReceiver r.receiver (listing ps) = true := by
  obtain ⟨-, himport⟩ := shape_registryImport hr
  rw [shape_append_newline] at himport
  refine importsReceiver_of_mem (d := isDiagnostic (registryImport r ++ ['\n'])) ?_
  have hmem : (.importDecl, registryImport r ++ ['\n']) ∈ statementContents (listing ps) := by
    rw [statementContents, contents_listing hps]
    exact List.mem_filter.2 ⟨List.mem_map.2 ⟨registryImport r, h, by rw [himport]⟩, rfl⟩
  refine List.mem_map.2 ⟨_, hmem, ?_⟩
  rw [answers, mentionsFrom_append_newline hr, mentions_registryImport hr]

namespace Frame

variable {c : Context} {f : Frame} {body : Text} {imports leading trailing : List Text}
  (hid : isName f.identifier = true) (hend : endState body = .start) (hbody : IsBody body)
  (hreg : f.registry = c.registry) (hr : IsReceiver c.registry.receiver)
include hid hbody hreg hr

/-- The entries of a module in front of the registration stay if the statements that are kept do. -/
theorem stays_entries (hi : ∀ p ∈ imports, Stays c.registry.receiver p)
    (hl : ∀ p ∈ leading, Stays c.registry.receiver p)
    (ht : ∀ p ∈ trailing, Stays c.registry.receiver p) :
    ∀ p ∈ f.entriesAhead imports leading ++ f.bindingStatement body :: f.entriesBehind trailing,
      Stays c.registry.receiver p := by
  have hblank : Stays c.registry.receiver [] := stays_of_ne (k := .blank) (by decide) (by simp)
  have himport : shape (registryImport f.registry) = .importDecl := by
    have := (shape_registryImport (r := f.registry) (hreg ▸ hr.isName)).2
    rwa [shape_append_newline] at this
  intro p hp
  rw [List.mem_append, List.mem_cons] at hp
  rcases hp with hp | rfl | hp
  · rcases Frame.mem_entriesAhead hp with rfl | rfl | rfl | hp | hp
    · exact hblank
    · exact stays_of_ne f.isEntry_headerComment.2 (by simp)
    · exact stays_of_ne himport (by simp)
    · exact hi p hp
    · exact hl p hp
  · exact Frame.stays_bindingStatement hid hbody _
  · obtain ⟨halias, hdefault⟩ := Frame.stays_exports hid c.registry.receiver
    rcases Frame.mem_entriesBehind hp with rfl | hp | hp | rfl
    · exact hblank
    · exact ht p hp
    · exact halias p hp
    · exact hdefault

include hend in
/-- **A framed module is in repaired form** if its entries are, and the canonical statements for its
binding are those of the frame. -/
theorem exists_repaired (hahead : ∀ p ∈ f.entriesAhead imports leading, p = [] ∨ IsEntry p)
    (hbehind : ∀ p ∈ f.entriesBehind trailing, p = [] ∨ IsEntry p)
    (hstays : ∀ p ∈ f.entriesAhead imports leading ++ f.bindingStatement body
      :: f.entriesBehind trailing, Stays c.registry.receiver p)
    (hspaced : IsSpaced (f.entriesAhead imports leading ++ f.bindingStatement body
      :: (f.entriesBehind trailing ++ [f.callLine, f.logLine])))
    (hown : ∀ l : ObjectLiteral, l.identifier = f.identifier → l.body = f.inside body →
      canonicalStatements c l = listing [f.callLine, f.logLine]) :
    ∃ u front l, Repaired c u front l [] ∧ canonicalStatements c l = listing [f.callLine, f.logLine]
      ∧ listing (f.entriesAhead imports leading ++ f.bindingStatement body
        :: (f.entriesBehind trailing ++ [f.callLine, f.logLine]))
          = front ++ (canonicalStatements c l ++ []) := by
  have hbinding := Frame.isEntry_bindingStatement hid hend hbody
  have hdecl : ∀ r, declaration? (f.bindingStatement body ++ r) = _ :=
    Frame.declaration?_bindingStatement hid hbody
  obtain ⟨l, hl, hc, hi, hlb⟩ := exists_of_declaration? (hdecl []) rfl
  have hcanonical : canonicalStatements c l = listing [f.callLine, f.logLine] := hown l hi hlb
  have hout : listing (f.entriesAhead imports leading ++ f.bindingStatement body
        :: (f.entriesBehind trailing ++ [f.callLine, f.logLine]))
      = listing (f.entriesAhead imports leading ++ f.bindingStatement body
      :: f.entriesBehind trailing) ++ (canonicalStatements c l ++ []) := by
    rw [hcanonical, List.append_nil, ← listing_append]
    simp
  have hreceiver : isName f.registry.receiver = true := hreg ▸ hr.isName
  have hfront := isEntry_around hahead hbinding hbehind
  have hentries := isEntry_around hahead hbinding (isEntry_registered hid hreceiver hbehind)
  refine ⟨_, _, l, ⟨hl, ?_, ?_, ?_, ?_, ?_, ?_⟩, hcanonical, hout⟩
  · rw [← hout]
    exact isTidy_listing hentries hspaced.chain hspaced.head
  · exact closedBy_listing (isBalanced_of_entries hfront) (by simp)
  · have hclosed := closedBy_listing (isBalanced_of_entries hahead) (by simp [Frame.entriesAhead])
    rw [listing_append, listing_cons, List.append_assoc]
    exact Closed.isSome_declaration?_append (.inl hclosed) (.inr (by rw [hdecl]; rfl))
  · intro p hp
    rw [contents_listing hfront] at hp
    have hnil : contents [] = [] := rfl
    rw [hnil, List.append_nil] at hp
    obtain ⟨q, hq, rfl⟩ := List.mem_map.1 hp
    exact givesWay_of_stays (hstays q hq)
  · rw [← hout, ← hreg]
    exact importsReceiver_listing hreceiver hentries (by simp [Frame.entriesAhead])
  · obtain ⟨q, hq⟩ := exists_canonicalStatements_eq c l
    rw [hq, List.append_nil, ← List.append_assoc]
    exact finish_semicolon _

end Frame

namespace Writes

variable {c : Context} {t out : Text} {f : Frame} {body : Text} {imports leading trailing : List Text}
  (h : Writes c t out f body imports leading trailing)
include h

/-- The statements at the end of a converted module are canonical for what declares the binding. -/
theorem statementsFor?_eq {u : Text} {d : Declaration} (hu : declaration? u = some d)
    (hid : d.identifier = f.identifier) (hbody : d.body = some (f.inside body)) :
    statementsFor? c u = some (listing [f.callLine, f.logLine]) := by
  obtain ⟨l, hl, hc, hi, hb⟩ := exists_of_declaration? hu hbody
  exact statementsFor?_eq_some.2 ⟨l, hl, hc,
    canonicalStatements_frame hb h.registry h.library h.category (hi.trans hid)⟩

/-- The entries of a converted module in front of the registration stay. -/
theorem stays (hbody : IsBody body) (hr : IsReceiver c.registry.receiver) :
    ∀ p ∈ f.entriesAhead imports leading ++ f.bindingStatement body :: f.entriesBehind trailing,
      Stays c.registry.receiver p :=
  Frame.stays_entries h.isName hbody h.registry hr
    (h.imports.stays fun _ => List.mem_of_mem_filter)
    (h.leading.stays fun _ => List.mem_of_mem_filter)
    (h.trailing.stays fun _ => List.mem_of_mem_filter)

/-- **A converted module is in repaired form.** -/
theorem exists_repaired (hb : isBalanced t = true) (hq : closesQuotes t = true)
    (hr : IsReceiver c.registry.receiver) (hbody : IsBody body) :
    ∃ u front l, Repaired c u front l [] ∧ canonicalStatements c l = listing [f.callLine, f.logLine]
      ∧ out = front ++ (canonicalStatements c l ++ []) := by
  rw [h.out_eq]
  exact Frame.exists_repaired h.isName (h.endState_body hq) hbody h.registry hr
    (h.isEntry_ahead hb hq hr.isName) (h.isEntry_behind hb hq) (h.stays hbody hr)
    (h.isSpaced hr.isName)
    fun l hi hlb => canonicalStatements_frame hlb h.registry h.library h.category hi

/-- **A repair changes nothing** if and only if the text leads to the canonical statements at its
end. -/
theorem repair_iff (hb : isBalanced t = true) (hq : closesQuotes t = true)
    (hr : IsReceiver c.registry.receiver) (hbody : IsBody body) :
    repair c out = .ok out ↔ statementsFor? c out = some (listing [f.callLine, f.logLine]) := by
  obtain ⟨u, front, l, hrep, hcanonical, hout⟩ := h.exists_repaired hb hq hr hbody
  rw [hout, hrep.repair_iff hr, hcanonical]

end Writes

/-! ### What stands in front of the binding -/

/-- The binding is the first literal if nothing in front of it is declared, even if its head begins
there. -/
theorem Frame.exists_declaration?_append {f : Frame} (hid : isName f.identifier = true) {a : Text}
    (ha : ClosedBy '\n' a) (hn : declaration? a = none) (body r : Text) :
    ∃ d, declaration? (a ++ (f.bindingStatement body ++ r)) = some d ∧ d.identifier = f.identifier
      ∧ d.body = bodyAt? (marks ('\x7b' :: (f.inside body ++ '\x7d' :: ';' :: r))) := by
  have hno : firstHead none (marks a) = [] := by
    by_contra hne
    have hd := declaration?_isSome_iff.2 hne
    rw [hn] at hd
    cases hd
  have hmarks := Closed.marks_append (.inl ha) (f.bindingStatement body ++ r)
  rcases firstHead_append_cases none (marks a) (marks (f.bindingStatement body ++ r)) with
    ⟨w, hw, he⟩ | he
  · -- the head begins in front of the binding, and ends with the name and the brace of the binding
    have hbrace : '\x7b' ∉ chars w := fun hin => hw (firstHead_of_append he hin ▸ hno)
    obtain ⟨m, w, rfl⟩ := List.exists_cons_of_ne_nil hw
    have hne : firstHead none (marks a ++ marks (f.bindingStatement body ++ r)) ≠ [] := by
      rw [he]
      simp
    obtain ⟨before, hs⟩ := startsBinding_firstHead hne
    rw [he, List.cons_append, startsBinding, Bool.and_eq_true, ← List.cons_append] at hs
    obtain ⟨b, hb⟩ := Option.isSome_iff_exists.1 hs.2
    have hopen : openingMarks (m :: w ++ marks (f.bindingStatement body ++ r))
        = marks ('\x7b' :: (f.inside body ++ '\x7d' :: ';' :: r)) := by
      rw [openingMarks, List.dropWhile_append_of_pos fun x hx => ?_]
      · exact openingMarks_bindingStatement hid body r
      · have hx' : x.char ∈ chars (m :: w) := List.mem_map_of_mem hx
        have hne : x.char ≠ '\x7b' := fun hc => hbrace (hc ▸ hx')
        simpa using hne
    have hname : b.identifier = f.identifier := by
      have hwords : '\x7b' ∉ chars (m :: w) ++ f.bindingWords := by
        rw [List.mem_append, not_or]
        refine ⟨hbrace, fun hin => ?_⟩
        exact ne_of_class (isPlain_bindingHead hid '\x7b' (List.mem_append_left _ hin)) rfl rfl
      have hsplit : chars (m :: w ++ marks (f.bindingStatement body ++ r))
          = (chars (m :: w) ++ f.bindingWords) ++ ' ' :: (f.identifier ++ ' ' :: '=' :: ' ' :: '\x7b'
            :: (f.inside body ++ ['\x7d', ';'] ++ r)) := by
        rw [chars_append, chars_marks, bindingStatement, bindingHead]
        simp
      rw [hsplit] at hb
      exact BindingStart.identifier_eq_of_parse? hwords hid hb
    refine ⟨⟨b.keyword, b.identifier, b.exported, _⟩, ?_, hname, rfl⟩
    rw [declaration?_eq, hmarks, he, declarationAt, hb, hopen]
    rfl
  · have hlast : Token.startsWord ((marks a).getLast?.map Mark.char) = Token.startsWord none := by
      have hc : (chars (marks a)).getLast? = some '\n' := by rw [chars_marks, ha.getLast?]
      rw [chars, List.getLast?_map] at hc
      rw [hc]
      rfl
    rw [declaration?_eq, hmarks, he, Option.or_none, firstHead_congr hlast, ← declaration?_eq]
    exact ⟨_, declaration?_bindingStatement_eq hid body r, rfl, rfl⟩

/-- What a conversion writes in front of the binding. -/
def textAhead (c : Context) (t : Text) : Text :=
  (draftOf c t).1.frame.preamble (draftOf c t).1.kept

/-- A conversion writes what the draft of the module tells. -/
theorem eq_of_convert? {c : Context} {t out : Text} {k : Conversion}
    (h : convert? c t = some (out, k)) :
    out = (draftOf c t).1.synthesize ∧ k = (draftOf c t).2 := by
  rw [convert?] at h
  split at h
  · cases h
  · obtain ⟨ho, hk⟩ := Prod.mk.inj (Option.some.inj h)
    exact ⟨ho.symm, hk.symm⟩

/-- What a conversion writes: some entries, the binding and a rest. -/
theorem exists_textAhead (c : Context) (t : Text) : ∃ imports leading trailing r,
    Writes c t (draftOf c t).1.synthesize (draftOf c t).1.frame (draftOf c t).1.keptBody imports
        leading trailing
      ∧ textAhead c t = listing ((draftOf c t).1.frame.entriesAhead imports leading)
      ∧ (draftOf c t).1.synthesize = textAhead c t
        ++ ((draftOf c t).1.frame.bindingStatement (draftOf c t).1.keptBody ++ r) := by
  have hdraft := drafts_draftOf c t
  obtain ⟨imports, leading, trailing, hw⟩ := hdraft.exists_writes
  have hahead : textAhead c t = listing ((draftOf c t).1.frame.entriesAhead imports leading) := by
    rw [textAhead, hdraft.kept]
    exact hw.preamble_eq
  refine ⟨imports, leading, trailing, '\n' :: listing ((draftOf c t).1.frame.entriesBehind trailing
    ++ [(draftOf c t).1.frame.callLine, (draftOf c t).1.frame.logLine]), hw, hahead, ?_⟩
  rw [hahead, hw.out_eq, listing_append, listing_cons]
  simp

/-- A statement that is carried over in front of the binding ends there. -/
theorem stop_le_of_standsAhead {c : Context} {t : Text} {l : ObjectLiteral}
    (hl : firstLiteral? t = some l) {s : Segment} (hs : s ∈ carriedOver c t)
    (ha : standsAhead t s = true) : s.span.stop ≤ l.statement.start := by
  obtain ⟨-, hcarried⟩ := mem_of_mem_survivors _ _ hs
  have hlt := statement_start_lt_stop hl
  simp only [isCarried, isBound, standsAhead, isAhead, hl, Option.map_some, Option.any_some,
    Option.all_some, Span.overlaps, Bool.not_eq_true', Bool.or_eq_false_iff, Bool.and_eq_false_iff,
    decide_eq_false_iff_not, decide_eq_true_eq] at hcarried ha
  omega

/-- A statement that is carried over in front of the binding declares nothing. -/
theorem declaration?_of_standsAhead {c : Context} {t : Text} {l : ObjectLiteral}
    (hl : firstLiteral? t = some l) {s : Segment} (hs : s ∈ carriedOver c t)
    (ha : standsAhead t s = true) : declaration? s.text = none :=
  declaration?_eq_none_of_le hl (mem_carriedOver hs).1 (stop_le_of_standsAhead hl hs ha)

/-- What holds of the empty line and of every statement that is carried over as an import or in front of
the binding holds of what is written there. -/
theorem Writes.forall_ahead {c : Context} {t out : Text} {f : Frame} {body : Text}
    {imports leading trailing : List Text} (h : Writes c t out f body imports leading trailing)
    {P : Text → Prop} (hnil : P []) (hcut : ∀ s ∈ carriedOver c t,
      isImport s = true ∨ standsAhead t s = true → ∀ p, s.IsCut p → P p) :
    (∀ p ∈ imports, P p) ∧ ∀ p ∈ leading, P p := by
  constructor
  · intro p hp
    rcases h.imports.mem p hp with rfl | ⟨s, hs, hc⟩
    · exact hnil
    · obtain ⟨hm, hi⟩ := List.mem_filter.1 hs
      exact hcut s hm (.inl hi) p hc
  · intro p hp
    rcases h.leading.mem p hp with rfl | ⟨s, hs, hc⟩
    · exact hnil
    · obtain ⟨hm, hi⟩ := List.mem_filter.1 hs
      exact hcut s hm (.inr (Bool.and_eq_true_iff.1 hi).2) p hc

/-- Nothing is declared in front of the binding if no head can go on behind a statement there and
none of the imports declares anything. -/
theorem Writes.declaration?_ahead {c : Context} {t out : Text} {f : Frame} {body : Text}
    {imports leading trailing : List Text} (h : Writes c t out f body imports leading trailing)
    (hr : Script.isName c.registry.receiver = true) (hb : isBalanced t = true)
    (hq : closesQuotes t = true) {l : ObjectLiteral} (hl : firstLiteral? t = some l)
    (hends : ∀ s ∈ carriedOver c t, isImport s = true ∨ standsAhead t s = true →
      leavesHead s.trimmed = false)
    (himports : ∀ s ∈ carriedOver c t, isImport s = true → standsAhead t s = false →
      declaration? s.text = none) :
    declaration? (listing (f.entriesAhead imports leading)) = none := by
  obtain ⟨hinert, hinert'⟩ := h.forall_ahead isInert_nil fun s hs hside p hc => by
    refine hc.isInert hb hq (mem_carriedOver hs).1 ?_ (hends s hs hside)
    cases ha : standsAhead t s
    · exact himports s hs (hside.resolve_right (by simp [ha])) ha
    · exact declaration?_of_standsAhead hl hs ha
  rw [← List.append_nil (listing _),
    declaration?_listing_append (Frame.isInert_entriesAhead (h.registry ▸ hr) hinert hinert')]
  rfl

/-- **Converted modules and repairs.** A repair of a converted module changes nothing if and only if
what is written in front of the binding declares nothing, or leads to the same canonical statements.
And nothing is declared there if no head can go on behind a statement that is carried over in front
of the binding or as an import, and no import behind the binding declares anything. -/
theorem repair_convert?_iff {c : Context} {t out : Text} {k : Conversion} {l : ObjectLiteral}
    (hr : IsReceiver c.registry.receiver) (hb : isBalanced t = true) (hq : closesQuotes t = true)
    (hl : firstLiteral? t = some l) (hc : l.closing = .balanced) (h : convert? c t = some (out, k)) :
    (repair c out = .ok out ↔ declaration? (textAhead c t) = none
      ∨ statementsFor? c (textAhead c t)
        = some (listing [registrationCall c.registry.receiver l.identifier,
          diagnosticLine c.library c.category l.identifier]))
      ∧ ((∀ s ∈ carriedOver c t, isImport s = true ∨ standsAhead t s = true →
          leavesHead s.trimmed = false) →
        (∀ s ∈ carriedOver c t, isImport s = true → standsAhead t s = false →
          declaration? s.text = none) → repair c out = .ok out) := by
  obtain ⟨hout, -⟩ := eq_of_convert? h
  obtain ⟨imports, leading, trailing, r, hw, hahead, hr'⟩ := exists_textAhead c t
  have hbody := hw.isBody hq l hl hc
  have hown : listing [registrationCall c.registry.receiver l.identifier,
      diagnosticLine c.library c.category l.identifier]
        = listing [(draftOf c t).1.frame.callLine, (draftOf c t).1.frame.logLine] := by
    rw [Frame.callLine, Frame.logLine, hw.registry, hw.library, hw.category, hw.identifier l hl]
  have hclosed : ClosedBy '\n' (textAhead c t) := by
    rw [hahead]
    exact closedBy_listing (isBalanced_of_entries (hw.isEntry_ahead hb hq hr.isName))
      (by simp [Frame.entriesAhead])
  have hiff : repair c out = .ok out ↔ declaration? (textAhead c t) = none
      ∨ statementsFor? c (textAhead c t)
        = some (listing [(draftOf c t).1.frame.callLine, (draftOf c t).1.frame.logLine]) := by
    rw [hout, hw.repair_iff hb hq hr hbody]
    by_cases hd : declaration? (textAhead c t) = none
    · obtain ⟨d, hd', hi, hbd⟩ := Frame.exists_declaration?_append hw.isName hclosed hd _ r
      rw [← hr'] at hd'
      rw [Frame.bodyAt?_inside hbody] at hbd
      exact iff_of_true (hw.statementsFor?_eq hd' hi hbd) (.inl hd)
    · rw [or_iff_right hd, ← statementsFor?_congr (hclosed.declaration?_append hd _) c, ← hr']
  rw [hown]
  refine ⟨hiff, fun hends himports => hiff.2 (.inl ?_)⟩
  rw [hahead]
  exact hw.declaration?_ahead hr.isName hb hq hl hends himports

theorem repair_convert?_sample :
    convert? sampleContext looseModule = some (framedModule, .converted)
      ∧ repair sampleContext framedModule = .ok framedModule := by
  obtain ⟨l, hl, hc, -⟩ := exists_looseLiteral
  have hagree := (repair_convert?_iff isReceiver_sampleContext (by decide) (by decide)
    hl hc convert?_looseModule).2
  exact ⟨convert?_looseModule, hagree (by decide) (by decide)⟩

/-- The module with the parted head in canonical form. The line that parts the head is blank. -/
def mergedModule : Text := ofLines
  ["/**", " * X", " * Library: a | Category: b", " */", "import \x7b r \x7d from 'r.js';", "",
    "let y =", "", "\x7b\x7d;", "", "const x = \x7b", "  type: 'x',", "  library: 'a',",
    "  category: 'b',", "  label: 'X',", "\x7d;", "", "export const descriptor = x;",
    "export default x;", "", "r.register(x);", "console.log('✔ [a] b/x');"]

/-- A converted module that a repair changes: it takes `y` for the first literal. The module that is
converted has no imports, registrations, diagnostic lines or default exports. -/
theorem repair_changes_mergedModule :
    isBalanced partedModule = true ∧ closesQuotes partedModule = true
      ∧ ((firstLiteral? partedModule).any fun l => l.closing = .balanced) = true
      ∧ ((segments partedModule).all fun s =>
        !isImport s && !frameStandsFor sampleContext.registry.receiver s) = true
      ∧ convert? sampleContext partedModule = some (mergedModule, .converted)
      ∧ repair sampleContext mergedModule ≠ .ok mergedModule := by
  refine ⟨?_, ?_, ?_, ?_, ?_, ?_⟩ <;> decide +kernel

end ElementModules.Descriptor
