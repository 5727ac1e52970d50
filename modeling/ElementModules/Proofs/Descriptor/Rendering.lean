import ElementModules.Descriptor.Synthesis
import ElementModules.Proofs.Descriptor.Header
import ElementModules.Proofs.Descriptor.Lines
import ElementModules.Proofs.Script.Openings

/-!
# Rendered modules

A rendered module is a listing: the header, the imports, the kept statements, the binding and the
closing statements stand one below the other (`Frame.render_eq_listing`). Behind the binding the scan
starts anew whatever its body holds (`Frame.endState_bindingStatement`): a stray bracket in the body
ends the literal early, and the brace at the end of the statement is passed over then. A body that
can stand between braces is found again (`Frame.declaration?_bindingStatement`).

## Main results

* `Frame.endState_bindingStatement`, `Frame.isEntry_bindingStatement`,
  `Frame.declaration?_bindingStatement`: the binding.
* `Frame.render_eq_listing`: a rendered module is a listing.
-/

namespace ElementModules.Descriptor

open Text Script

/-! ### The identity fields -/

/-- A line feed and an identity field, without the comma behind it. -/
def identityField (key value : Text) : Text :=
  '\n' :: ' ' :: ' ' :: (key ++ ':' :: ' ' :: quote value)

theorem identityLine_eq (key value : Text) (t : Text) :
    '\n' :: (Frame.identityLine key value ++ t) = identityField key value ++ ',' :: '\n' :: t := by
  have h : Frame.identityLine key value = ("  " : Text) ++ key ++ (": " : Text) ++ quote value
      ++ (",\n" : Text) := rfl
  have h₁ : ("  " : Text) = [' ', ' '] := by decide
  have h₂ : (": " : Text) = [':', ' '] := by decide
  have h₃ : (",\n" : Text) = [',', '\n'] := by decide
  rw [h, h₁, h₂, h₃, identityField]
  simp

/-- An identity field is code and a string. -/
theorem scans_identityField {key : Text} (hk : ∀ c ∈ key, isPlain c = true) (value : Text)
    (st : List Enclosure) :
    Scans st (identityField key value)
      (codeMarks st.length ('\n' :: ' ' :: ' ' :: (key ++ [':', ' ']))
        ++ literalMarks st.length (quote value)) st := by
  have hp : ∀ c ∈ '\n' :: ' ' :: ' ' :: (key ++ [':', ' ']), isPlain c = true := by
    intro c hc
    simp only [List.mem_cons, List.mem_append, List.not_mem_nil, or_false] at hc
    rcases hc with rfl | rfl | rfl | hc | rfl | rfl <;> first | rfl | exact hk c hc
  have h := (Scans.plain hp st).append (.quote value st)
  have he : identityField key value
      = '\n' :: ' ' :: ' ' :: (key ++ [':', ' ']) ++ quote value := by simp [identityField]
  rwa [he]

/-- Code without closing brackets and strings close nothing. -/
theorem isStrayless_codeMarks {d : Nat} {w : Text} (h : ∀ c ∈ w, isPlain c = true) :
    IsStrayless (codeMarks d w) := by
  intro m hm
  obtain ⟨c, hc, rfl⟩ := List.mem_map.1 hm
  have hp := h c hc
  rw [isPlain, Bool.not_eq_true', Bool.or_eq_false_iff] at hp
  simp [closes, hp.2]

theorem isStrayless_literalMarks (d : Nat) (w : Text) : IsStrayless (literalMarks d w) := by
  intro m hm
  obtain ⟨c, -, rfl⟩ := List.mem_map.1 hm
  simp [closes, Mark.isCode]

/-- Fields that are written one behind the other. -/
def identityFields (values : List (Text × Text)) : Text :=
  values.flatMap fun v => identityField v.1 v.2 ++ [',']

/-- Fields that are written close no bracket and leave the scan where it is. -/
theorem scans_identityFields {values : List (Text × Text)}
    (hk : ∀ v ∈ values, ∀ c ∈ v.1, isPlain c = true) (st : List Enclosure) :
    ∃ ms, Scans st (identityFields values) ms st ∧ IsStrayless ms := by
  induction values with
  | nil => exact ⟨[], ⟨rfl, fun _ => rfl⟩, fun m hm => absurd hm List.not_mem_nil⟩
  | cons v values ih =>
    obtain ⟨ms, hs, hfree⟩ := ih fun w hw => hk w (List.mem_cons_of_mem v hw)
    have hkey := hk v List.mem_cons_self
    have hplain : ∀ c ∈ '\n' :: ' ' :: ' ' :: (v.1 ++ [':', ' ']), isPlain c = true := by
      intro c hc
      simp only [List.mem_cons, List.mem_append, List.not_mem_nil, or_false] at hc
      rcases hc with rfl | rfl | rfl | hc | rfl | rfl <;> first | rfl | exact hkey c hc
    have hcomma : ∀ c ∈ ([','] : Text), isPlain c = true := List.all_eq_true.1 rfl
    refine ⟨_, ((scans_identityField hkey v.2 st).append (.plain hcomma st)).append hs, ?_⟩
    intro m hm
    simp only [List.mem_append] at hm
    rcases hm with ((hm | hm) | hm) | hm
    · exact isStrayless_codeMarks hplain m hm
    · exact isStrayless_literalMarks _ _ m hm
    · exact isStrayless_codeMarks hcomma m hm
    · exact hfree m hm

theorem isPlain_identityKey {key : Text} (h : key ∈ identityFieldKeys) :
    ∀ c ∈ key, isPlain c = true := by
  have hkeys : ∀ key ∈ identityFieldKeys, key.all isPlain = true := by decide
  exact List.all_eq_true.1 (hkeys key h)

namespace Frame

/-- The identity fields and their values. -/
def identityValues (f : Frame) : List (Text × Text) :=
  [("type", f.identifier), ("library", f.library), ("category", f.category), ("label", f.label)]

theorem isPlain_identityValues (f : Frame) : ∀ v ∈ f.identityValues, ∀ c ∈ v.1, isPlain c = true := by
  intro v hv
  have hmap : f.identityValues.map Prod.fst = identityFieldKeys := rfl
  exact isPlain_identityKey (hmap ▸ List.mem_map_of_mem hv)

/-- What stands between the braces of the binding. -/
def inside (f : Frame) (body : Text) : Text := identityFields f.identityValues ++ '\n' :: body

theorem inside_eq (f : Frame) (body : Text) : '\n' :: (f.identityLines ++ body) = f.inside body := by
  rw [identityLines, List.append_assoc, List.append_assoc, List.append_assoc, identityLine_eq,
    identityLine_eq, identityLine_eq, identityLine_eq, inside, identityFields, identityValues]
  simp

/-- What is written between the braces leaves the scan where the body does. -/
theorem run_inside (f : Frame) (body : Text) (st : List Enclosure) :
    State.run ⟨.code, st⟩ (f.inside body) = State.run ⟨.code, st⟩ body := by
  obtain ⟨ms, hs, -⟩ := scans_identityFields f.isPlain_identityValues st
  rw [inside, State.run_append, hs.run]
  rfl

/-- What is written between the braces can stand there if the body can. -/
theorem isBody_inside (f : Frame) {body : Text} (h : IsBody body) : IsBody (f.inside body) := by
  obtain ⟨ms, hs, hfree⟩ := scans_identityFields f.isPlain_identityValues []
  have hmarks : marks (f.inside body) = ms ++ ⟨'\n', .code, 0⟩ :: marks body := hs.marks _
  constructor
  · intro m hm
    rw [hmarks, List.mem_append, List.mem_cons] at hm
    rcases hm with hm | rfl | hm
    · exact hfree m hm
    · rfl
    · exact h.strayless m hm
  · have he : endState (f.inside body) = endState body := f.run_inside body []
    rw [he]
    exact h.topLevel

/-! ### The binding -/

/-- The words in front of the bound name. -/
def bindingWords (f : Frame) : Text :=
  if f.exported || f.identifier = exportName then "export const" else "const"

/-- What stands in front of the opening brace of the binding. -/
def bindingHead (f : Frame) : Text :=
  f.bindingWords ++ ' ' :: (f.identifier ++ [' ', '=', ' '])

/-- The binding without the line feeds behind it. -/
def bindingStatement (f : Frame) (body : Text) : Text :=
  f.bindingHead ++ '\x7b' :: (f.inside body ++ ['\x7d', ';'])

theorem binding_eq (f : Frame) (body : Text) :
    f.binding body = f.bindingStatement body ++ ['\n', '\n'] := by
  have hwords : (if f.exported || f.identifier = exportName then ("export " : Text) else "")
      ++ ("const " : Text) = f.bindingWords ++ [' '] := by
    rw [bindingWords]
    split <;> decide
  have h₁ : (" = \x7b\n" : Text) = [' ', '=', ' ', '\x7b', '\n'] := by decide
  have h₂ : ("\x7d;\n\n" : Text) = ['\x7d', ';', '\n', '\n'] := by decide
  have h : f.binding body = (if f.exported || f.identifier = exportName then ("export " : Text) else "")
      ++ ("const " : Text) ++ f.identifier ++ (" = \x7b\n" : Text) ++ f.identityLines ++ body
      ++ ("\x7d;\n\n" : Text) := rfl
  rw [h, hwords, h₁, h₂, bindingStatement, ← inside_eq, bindingHead]
  simp

section Binding

variable {f : Frame} (hid : isName f.identifier = true)
include hid

theorem isPlain_bindingHead : ∀ c ∈ f.bindingHead, isPlain c = true := by
  have hwords : ∀ c ∈ f.bindingWords, isPlain c = true := by
    rw [bindingWords]
    split <;> exact List.all_eq_true.1 (by decide)
  intro c hc
  simp only [bindingHead, List.mem_append, List.mem_cons, List.not_mem_nil, or_false] at hc
  rcases hc with hc | rfl | hc | rfl | rfl | rfl
  · exact hwords c hc
  · rfl
  · exact isPlain_of_isName hid c hc
  all_goals rfl

theorem ne_bound_bindingHead : ∀ c ∈ f.bindingHead, c ≠ '\n' ∧ c ≠ ';' := by
  have hwords : ∀ c ∈ f.bindingWords, c ≠ '\n' ∧ c ≠ ';' := by
    rw [bindingWords]
    split <;> exact List.all_iff_forall_prop.1 (by decide)
  intro c hc
  simp only [bindingHead, List.mem_append, List.mem_cons, List.not_mem_nil, or_false] at hc
  rcases hc with hc | rfl | hc | rfl | rfl | rfl
  · exact hwords c hc
  · exact ⟨by decide, by decide⟩
  · exact ne_bound_of_isName hid c hc
  all_goals exact ⟨by decide, by decide⟩

/-- **Behind the binding the scan starts anew**, also if the body closes a bracket too many. -/
theorem endState_bindingStatement {body : Text} (h : endState body = .start) :
    endState (f.bindingStatement body) = .start := by
  have hhead : endState f.bindingHead = .start := (Scans.plain (isPlain_bindingHead hid) []).run
  have hinside : State.run (State.start.enclosed [.bracket]) (f.inside body)
      = State.run (State.start.enclosed [.bracket]) body := f.run_inside body [.bracket]
  have hbody : State.run .start body = .start := h
  rw [bindingStatement, endState_append, hhead]
  show State.run (State.start.enclosed [.bracket]) (f.inside body ++ ['\x7d', ';']) = _
  rw [State.run_append, hinside]
  rcases State.run_enclosed_cases .start body with he | he <;> rw [he, hbody] <;> rfl

section Body

variable {body : Text} (hend : endState body = .start) (h : IsBody body)

include h in
theorem marks_bindingStatement : marks (f.bindingStatement body)
    = codeMarks 0 f.bindingHead ++ ⟨'\x7b', .code, 0⟩ :: (marks (f.inside body)).map (Mark.deeper 1)
      ++ [⟨'\x7d', .code, 1⟩] ++ [⟨';', .code, 0⟩] := by
  have hclose := (f.isBody_inside h).marks_close [] [';']
  have hhead := (Scans.plain (isPlain_bindingHead hid) []).marks
    ('\x7b' :: (f.inside body ++ '\x7d' :: [';']))
  have hlast : marksFrom ⟨.code, []⟩ [';'] = [⟨';', .code, 0⟩] := rfl
  rw [hlast] at hclose
  rw [bindingStatement]
  refine hhead.trans ?_
  show _ ++ ⟨'\x7b', .code, 0⟩ :: marksFrom ⟨.code, [.bracket]⟩ (f.inside body ++ '\x7d' :: [';']) = _
  rw [hclose]
  simp

omit hid in
theorem getLast?_bindingStatement : (f.bindingStatement body).getLast? = some ';' := by
  rw [bindingStatement, List.getLast?_append, List.getLast?_cons, List.getLast?_append]
  rfl

include hend h in
/-- **The binding is one statement.** -/
theorem isEntry_bindingStatement : IsEntry (f.bindingStatement body) := by
  refine ⟨?_, ?_, ?_⟩
  · rw [isBalanced, endState_bindingStatement hid hend]
    rfl
  · rw [IsPiece, marks_bindingStatement hid h]
    refine stretches_concat_of_inner (fun m hm ht => ?_) _
    simp only [Mark.isTopLevel, Bool.and_eq_true, decide_eq_true_eq] at ht
    simp only [List.mem_append, List.mem_cons, List.not_mem_nil, or_false] at hm
    rcases hm with (hm | rfl | hm) | rfl
    · obtain ⟨c, hc, rfl⟩ := List.mem_map.1 hm
      exact ne_bound_bindingHead hid c hc
    · exact ⟨by decide, by decide⟩
    · obtain ⟨x, -, rfl⟩ := List.mem_map.1 hm
      exact absurd ht.2 (Nat.succ_ne_zero _)
    · exact absurd ht.2 (by decide)
  · intro c hc
    rw [getLast?_bindingStatement] at hc
    obtain rfl := Option.some.inj hc
    rfl

omit hend h in
/-- The head of the binding is read back. -/
theorem parse?_bindingHead (r : Text) :
    BindingStart.parse? (f.bindingHead ++ '\x7b' :: r)
      = some ⟨f.exported || f.identifier = exportName, .const, f.identifier, '\x7b' :: r⟩ := by
  have hconst : ∀ t, Declarator.parse? (("const" : Text) ++ ' ' :: t) = some (.const, ' ' :: t) := by
    intro t
    have hw : Token.word? Declarator.const.word (("const" : Text) ++ ' ' :: t) = some (' ' :: t) :=
      Token.word?_append _ rfl
    rw [Declarator.parse?, List.findSome?_cons, hw]
    rfl
  have hblanks : ∀ t, Token.someBlanks? (' ' :: (f.identifier ++ t)) = some (f.identifier ++ t) := by
    intro t
    obtain ⟨c, n, hn⟩ := List.exists_cons_of_ne_nil (ne_nil_of_isName hid)
    have hc : isAsciiBlank c = false :=
      (isHeadChar_of_isNameChar (isNameChar_of_mem hid (hn ▸ List.mem_cons_self))).1
    have hblank : (' ' :: (f.identifier ++ t)).head?.any isAsciiBlank = true := rfl
    rw [Token.someBlanks?, if_pos hblank, hn, Token.blanks, List.dropWhile_cons_of_pos rfl,
      List.cons_append, List.dropWhile_cons_of_neg (by simp [hc])]
  have htail : ∀ e : Bool, (some (e, ("const" : Text) ++ ' ' :: (f.identifier
      ++ ' ' :: '=' :: ' ' :: '\x7b' :: r))).bind (fun e => (Declarator.parse? e.2).bind fun k =>
        (Token.someBlanks? k.2).bind fun t => (Token.name? t).bind fun n =>
          (Token.char? '=' (Token.blanks n.2)).bind fun t =>
            (BindingStart.brace? (Token.blanks t)).map fun o =>
              (⟨e.1, k.1, n.1, o⟩ : BindingStart))
        = some ⟨e, .const, f.identifier, '\x7b' :: r⟩ := by
    intro e
    rw [Option.bind_some, hconst, Option.bind_some, hblanks, Option.bind_some,
      Token.name?_append hid rfl]
    rfl
  have hwords : BindingStart.exportWord? (f.bindingHead ++ '\x7b' :: r)
      = some (f.exported || f.identifier = exportName, ("const" : Text) ++ ' ' :: (f.identifier
        ++ ' ' :: '=' :: ' ' :: '\x7b' :: r)) := by
    have hhead : f.bindingHead ++ '\x7b' :: r
        = f.bindingWords ++ ' ' :: (f.identifier ++ ' ' :: '=' :: ' ' :: '\x7b' :: r) := by
      simp [bindingHead]
    rw [hhead, bindingWords]
    cases f.exported || f.identifier = exportName with
    | true =>
      have hexport : ("export const" : Text) = ("export" : Text) ++ ' ' :: ("const" : Text) := by
        decide
      rw [if_pos rfl, hexport, List.append_assoc, BindingStart.exportWord?,
        Token.word?_append _ rfl]
      rfl
    | false =>
      rw [if_neg (by simp), BindingStart.exportWord?,
        Token.word?_append_of_ne (all_isNameChar "export" (by decide))
          (all_isNameChar "const" (by decide)) (by decide) rfl]
  rw [BindingStart.parse?_eq, hwords, htail]

omit hend h in
/-- The body and its braces stand behind the head. -/
theorem openingMarks_bindingStatement (body r : Text) :
    openingMarks (marks (f.bindingStatement body ++ r))
      = marks ('\x7b' :: (f.inside body ++ '\x7d' :: ';' :: r)) := by
  have hbinding : f.bindingStatement body ++ r
      = f.bindingHead ++ '\x7b' :: (f.inside body ++ '\x7d' :: ';' :: r) := by
    simp [bindingStatement]
  have hmarks := (Scans.plain (isPlain_bindingHead hid) []).marks
    ('\x7b' :: (f.inside body ++ '\x7d' :: ';' :: r))
  rw [hbinding]
  refine (congrArg openingMarks hmarks).trans ?_
  rw [openingMarks, List.dropWhile_append_of_pos]
  · rfl
  · intro m hm
    obtain ⟨c, hc, rfl⟩ := List.mem_map.1 hm
    simpa using ne_of_class (isPlain_bindingHead hid c hc) rfl

omit hend h in
/-- **The binding is declared**, whatever its body holds. -/
theorem declaration?_bindingStatement_eq (body r : Text) :
    declaration? (f.bindingStatement body ++ r)
      = some ⟨.const, f.identifier, f.exported || f.identifier = exportName,
          bodyAt? (marks ('\x7b' :: (f.inside body ++ '\x7d' :: ';' :: r)))⟩ := by
  have hbinding : f.bindingStatement body ++ r
      = f.bindingHead ++ '\x7b' :: (f.inside body ++ '\x7d' :: ';' :: r) := by
    simp [bindingStatement]
  have hparse := parse?_bindingHead hid (f.inside body ++ '\x7d' :: ';' :: r)
  obtain ⟨c, u, hu, hc⟩ : ∃ c u, f.bindingHead = c :: u ∧ (c = 'e' ∨ c = 'c') := by
    rw [bindingHead, bindingWords]
    split
    · exact ⟨'e', _, rfl, .inl rfl⟩
    · exact ⟨'c', _, rfl, .inr rfl⟩
  have hfirst : firstHead none (marks (f.bindingStatement body ++ r))
      = marks (f.bindingStatement body ++ r) := by
    obtain ⟨m, ms, hm⟩ : ∃ m ms, marks (f.bindingStatement body ++ r) = m :: ms
        ∧ mayStartBinding none m = true := by
      rw [hbinding, hu]
      rcases hc with rfl | rfl <;> exact ⟨_, _, rfl, rfl⟩
    have hstarts : startsBinding none (m :: ms) = true := by
      rw [startsBinding, ← hm.1, hm.2, chars_marks, hbinding, hparse]
      rfl
    rw [hm.1, firstHead, if_pos hstarts]
  rw [declaration?_eq, hfirst, declarationAt, openingMarks_bindingStatement hid, chars_marks, hbinding,
    hparse]
  rfl

omit hid hend in
include h in
/-- The body stands behind the opening brace. -/
theorem bodyAt?_inside (f : Frame) (r : Text) :
    bodyAt? (marks ('\x7b' :: (f.inside body ++ '\x7d' :: ';' :: r))) = some (f.inside body) :=
  (f.isBody_inside h).bodyAt?_eq [] _

include h in
/-- **The body is found again** as that of the first literal. -/
theorem declaration?_bindingStatement (r : Text) :
    declaration? (f.bindingStatement body ++ r)
      = some ⟨.const, f.identifier, f.exported || f.identifier = exportName,
          some (f.inside body)⟩ := by
  rw [declaration?_bindingStatement_eq hid, f.bodyAt?_inside h]

omit hid hend h in
/-- The stray brackets between the braces are those of the body. -/
theorem strayBracket?_inside (f : Frame) (body r : Text) :
    strayBracket? (f.inside body ++ r) = strayBracket? (body ++ r) := by
  obtain ⟨ms, hs, hfree⟩ := scans_identityFields f.isPlain_identityValues []
  have hmarks : marks (f.inside body ++ r) = ms ++ ⟨'\n', .code, 0⟩ :: marks (body ++ r) := by
    have h := hs.marks ('\n' :: (body ++ r))
    rw [inside, List.append_assoc]
    exact h
  have hnone : ms.find? (closes 0) = none := by
    rw [List.find?_eq_none]
    exact fun m hm => by simp [hfree m hm]
  have hnewline : closes 0 ⟨'\n', .code, 0⟩ = false := rfl
  rw [strayBracket?, hmarks, List.find?_append, hnone, Option.none_or, List.find?_cons, hnewline]
  rfl

omit hid h in
include hend in
/-- **The binding is closed** if and only if its body has no stray bracket or the first one is a
brace. -/
theorem isSome_bodyAt?_inside_iff (f : Frame) (r : Text) :
    (bodyAt? (marks ('\x7b' :: (f.inside body ++ '\x7d' :: ';' :: r)))).isSome = true
      ↔ ∀ x ∈ strayBracket? body, x = '\x7d' := by
  refine (isSome_bodyAt?_iff [] _).trans ?_
  rw [strayBracket?_inside, strayBracket?_append_close hend]
  cases strayBracket? body <;> simp

end Body

end Binding

/-! ### The closing statements -/

/-- The export of the binding as the descriptor, unless it has that name already. -/
def aliasLines (f : Frame) : List Text :=
  if f.identifier = exportName then []
  else [("export const descriptor = " : Text) ++ f.identifier ++ [';']]

/-- The default export of the binding. -/
def defaultLine (f : Frame) : Text := ("export default " : Text) ++ f.identifier ++ [';']

/-- The registration of the binding. -/
def callLine (f : Frame) : Text := registrationCall f.registry.receiver f.identifier

/-- The diagnostic line behind the registration. -/
def logLine (f : Frame) : Text := diagnosticLine f.library f.category f.identifier

/-- A plain text without bounds and a semicolon make a line. -/
theorem isLine_of_plain {w : Text} (hp : ∀ c ∈ w, isPlain c = true)
    (hb : ∀ c ∈ w, c ≠ '\n' ∧ c ≠ ';') : IsLine (w ++ [';']) :=
  .of_scans (Scans.plain hp []) (not_isBound_codeMarks hb)

section Lines

variable {f : Frame} (hid : isName f.identifier = true)
include hid

theorem isLine_exportLine {w : Text} (hw : w.all (fun c => isPlain c && c != '\n' && c != ';') = true) :
    IsLine (w ++ f.identifier ++ [';']) := by
  have hplain : ∀ c ∈ w, isPlain c = true ∧ c ≠ '\n' ∧ c ≠ ';' := by
    simpa [List.all_eq_true, and_assoc] using hw
  refine isLine_of_plain (fun c hc => ?_) fun c hc => ?_
  · exact (List.mem_append.1 hc).elim (fun h => (hplain c h).1) (isPlain_of_isName hid c)
  · exact (List.mem_append.1 hc).elim (fun h => (hplain c h).2) (ne_bound_of_isName hid c)

theorem isLine_aliasLines : ∀ w ∈ f.aliasLines, IsLine w := by
  intro w hw
  rw [aliasLines] at hw
  split at hw
  · cases hw
  · rw [List.mem_singleton.1 hw]
    exact isLine_exportLine hid (by decide)

theorem isLine_defaultLine : IsLine f.defaultLine := isLine_exportLine hid (by decide)

end Lines

/-! ### The listing -/

/-- Kept statements with an empty entry behind them. -/
def block (ps : List Text) : List Text := if ps.isEmpty then [] else ps ++ [[]]

theorem mem_block {ps : List Text} {p : Text} (h : p ∈ block ps) : p = [] ∨ p ∈ ps := by
  rw [block] at h
  split at h
  · cases h
  · exact (List.mem_append.1 h).symm.imp List.mem_singleton.1 id

theorem joinWith_newline {ps : List Text} (h : ps ≠ []) : joinWith ['\n'] ps ++ ['\n'] = listing ps := by
  induction ps with
  | nil => exact absurd rfl h
  | cons p ps ih =>
    cases ps with
    | nil => simp [joinWith]
    | cons q ps =>
      rw [listing_cons, ← ih (List.cons_ne_nil q ps)]
      simp [joinWith]

/-- A paragraph of kept statements. -/
theorem paragraph_eq {ps : List Text} (h : ps = [] ∨ joinWith ['\n'] ps ≠ []) :
    paragraph (joinWith ['\n'] ps) = listing (block ps) := by
  rcases h with rfl | h
  · rfl
  · have hne : ps ≠ [] := by
      rintro rfl
      exact h rfl
    rw [paragraph, block, if_neg (by simpa using h), if_neg (by simpa using hne), listing_append,
      ← joinWith_newline hne]
    simp

/-- The entries of a module in front of the binding. -/
def entriesAhead (f : Frame) (imports leading : List Text) : List Text :=
  f.headerComment :: registryImport f.registry :: (imports ++ [] :: block leading)

/-- The entries of a module behind the binding and in front of the registration. -/
def entriesBehind (f : Frame) (trailing : List Text) : List Text :=
  [] :: (block trailing ++ f.aliasLines ++ [f.defaultLine, []])

theorem preamble_eq (f : Frame) {imports leading : List Text} (trailing : Text)
    (h : leading = [] ∨ joinWith ['\n'] leading ≠ []) :
    f.preamble ⟨imports, joinWith ['\n'] leading, trailing⟩
      = listing (f.entriesAhead imports leading) := by
  rw [preamble, paragraph_eq h, header_eq, entriesAhead]
  simp [listing]

theorem closing_eq (f : Frame) {trailing : List Text} (imports : List Text) (leading : Text)
    (h : trailing = [] ∨ joinWith ['\n'] trailing ≠ []) :
    '\n' :: f.closing ⟨imports, leading, joinWith ['\n'] trailing⟩
      = listing (f.entriesBehind trailing ++ [f.callLine, f.logLine]) := by
  have halias : (if f.identifier = exportName then ("" : Text)
      else ("export const " : Text) ++ exportName ++ (" = " : Text) ++ f.identifier ++ (";\n" : Text))
        = listing f.aliasLines := by
    have hwords : ("export const descriptor = " : Text)
        = ("export const " : Text) ++ exportName ++ (" = " : Text) := by decide
    have hend : (";\n" : Text) = [';', '\n'] := by decide
    rw [aliasLines, hwords, hend]
    split
    · rfl
    · simp [listing]
  have hend : (";\n\n" : Text) = [';', '\n', '\n'] := by decide
  have hline : ("\n" : Text) = ['\n'] := by decide
  have hdefault : f.defaultLine = ("export default " : Text) ++ f.identifier ++ [';'] := rfl
  rw [closing, halias, paragraph_eq h, hend, hline]
  simp only [entriesBehind, hdefault, callLine, logLine, listing_append, listing_cons,
    listing_nil, List.append_assoc, List.cons_append, List.nil_append, List.append_nil]

/-- **A rendered module is a listing.** -/
theorem render_eq_listing (f : Frame) (body : Text) {imports leading trailing : List Text}
    (hl : leading = [] ∨ joinWith ['\n'] leading ≠ [])
    (ht : trailing = [] ∨ joinWith ['\n'] trailing ≠ []) :
    f.render body ⟨imports, joinWith ['\n'] leading, joinWith ['\n'] trailing⟩
      = listing (f.entriesAhead imports leading ++ f.bindingStatement body
          :: (f.entriesBehind trailing ++ [f.callLine, f.logLine])) := by
  rw [render_eq, f.preamble_eq _ hl, binding_eq, listing_append, listing_cons, ← f.closing_eq imports
    (joinWith ['\n'] leading) ht]
  simp

section Entries

variable {f : Frame} {imports leading trailing : List Text}

theorem mem_entriesAhead {p : Text} (h : p ∈ f.entriesAhead imports leading) :
    p = [] ∨ p = f.headerComment ∨ p = registryImport f.registry ∨ p ∈ imports ∨ p ∈ leading := by
  simp only [entriesAhead, List.mem_cons, List.mem_append] at h
  rcases h with rfl | rfl | hp | rfl | hp
  · exact .inr (.inl rfl)
  · exact .inr (.inr (.inl rfl))
  · exact .inr (.inr (.inr (.inl hp)))
  · exact .inl rfl
  · exact (mem_block hp).imp id fun hp => .inr (.inr (.inr hp))

theorem mem_entriesBehind {p : Text} (h : p ∈ f.entriesBehind trailing) :
    p = [] ∨ p ∈ trailing ∨ p ∈ f.aliasLines ∨ p = f.defaultLine := by
  simp only [entriesBehind, List.mem_cons, List.mem_append, List.not_mem_nil, or_false] at h
  rcases h with rfl | (hp | hp) | rfl | rfl
  · exact .inl rfl
  · exact (mem_block hp).imp id .inl
  · exact .inr (.inr (.inl hp))
  · exact .inr (.inr (.inr rfl))
  · exact .inl rfl

theorem isEntry_entriesAhead (hr : isName f.registry.receiver = true)
    (hi : ∀ p ∈ imports, p = [] ∨ IsEntry p) (hl : ∀ p ∈ leading, p = [] ∨ IsEntry p) :
    ∀ p ∈ f.entriesAhead imports leading, p = [] ∨ IsEntry p := by
  intro p hp
  rcases mem_entriesAhead hp with h | rfl | rfl | hp | hp
  · exact .inl h
  · exact .inr f.isEntry_headerComment.1
  · exact .inr (isLine_registryImport hr).isEntry
  · exact hi p hp
  · exact hl p hp

theorem isEntry_entriesBehind (hid : isName f.identifier = true)
    (ht : ∀ p ∈ trailing, p = [] ∨ IsEntry p) :
    ∀ p ∈ f.entriesBehind trailing, p = [] ∨ IsEntry p := by
  intro p hp
  rcases mem_entriesBehind hp with h | hp | hp | rfl
  · exact .inl h
  · exact ht p hp
  · exact .inr (isLine_aliasLines hid p hp).isEntry
  · exact .inr (isLine_defaultLine hid).isEntry

/-- The registration and the log line are entries, too. -/
theorem isEntry_registered (hid : isName f.identifier = true) (hr : isName f.registry.receiver = true)
    (hbehind : ∀ p ∈ f.entriesBehind trailing, p = [] ∨ IsEntry p) :
    ∀ p ∈ f.entriesBehind trailing ++ [f.callLine, f.logLine], p = [] ∨ IsEntry p := by
  simp only [List.mem_append, List.mem_cons, List.not_mem_nil, or_false]
  rintro p (hp | rfl | rfl)
  · exact hbehind p hp
  · exact .inr (isLine_registrationCall hr hid).isEntry
  · exact .inr (isLine_diagnosticLine _ _ _).isEntry

theorem isEntry_around {ahead behind : List Text} {p : Text} (hahead : ∀ q ∈ ahead, q = [] ∨ IsEntry q)
    (hp : IsEntry p) (hbehind : ∀ q ∈ behind, q = [] ∨ IsEntry q) :
    ∀ q ∈ ahead ++ p :: behind, q = [] ∨ IsEntry q := by
  simp only [List.mem_append, List.mem_cons]
  rintro q (hq | rfl | hq)
  · exact hahead q hq
  · exact .inr hp
  · exact hbehind q hq

end Entries

end Frame

end ElementModules.Descriptor
