import ElementModules.Proofs.Descriptor.Frame
import ElementModules.Proofs.Script.Calls

/-!
# The calls in a repaired text

A repair writes one call of `register` and drops the statements that are calls. It recognises a call
by the shape of a whole statement, so a call that stands inside another statement stays: the repaired
text has exactly one call if and only if no statement that stays in place holds one (`repair_calls`).

The number of calls is a reading of texts, so it is counted along the draft.

## Main results

* `isReading_calls`: calls are counted statement by statement.
* `repair_calls`: when a repaired text has exactly one call.
-/

namespace ElementModules.Descriptor

open Text Script

/-- One entry for each call of a text. -/
def calls (receiver t : Text) : List Unit := (callOffsets receiver t).map fun _ => ()

theorem calls_eq_nil {receiver t : Text} : calls receiver t = [] ↔ callOffsets receiver t = [] :=
  List.map_eq_nil_iff

theorem readKept_calls_eq_nil {receiver : Text} {s : Segment} :
    readKept receiver (calls receiver) s = []
      ↔ (isKept receiver s = true → callOffsets receiver s.text = []) := by
  rw [readKept, isKept]
  cases isSuperseded receiver s <;> by_cases hb : s.kind = .blank <;> simp [hb, calls_eq_nil]

section Lines

variable {r : Text} (hr : IsReceiver r)
include hr

/-- **Calls are counted statement by statement.** -/
theorem isReading_calls : IsReading (calls r) where
  nil := by
    rw [calls_eq_nil, callOffsets_eq hr.isName]
    rfl
  append h := by
    rw [calls, h.closed.callOffsets_append hr.isName, List.map_append, List.map_map]
    rfl
  newline _ := by rw [calls, callOffsets_append_newline hr.isName, calls]

/-- The call that a repair writes is one call. -/
theorem callOffsets_registrationCall {x : Text} (hx : isName x = true) :
    callOffsets r (registrationCall r x) = [0] := by
  have hm := ((scans_registrationCall hr.isName hx).append .semicolon).marks_eq
  rw [← registrationCall_eq] at hm
  have hp : (callHead r).isPrefixOf (chars (marks (registrationCall r x))) = true := by
    rw [chars_marks, List.isPrefixOf_iff_prefix, callHead, registrationCall, List.append_assoc]
    exact List.prefix_append _ _
  have hfree : ∀ m ∈ codeMarks 1 x ++ codeMarks 1 [')'] ++ codeMarks 0 [';'],
      isCallFree m = true := by
    rw [List.forall_mem_append, List.forall_mem_append]
    exact ⟨⟨isCallFree_inside 0 x, isCallFree_inside 0 _⟩, isCallFree_char rfl 0⟩
  obtain ⟨c, v, hv⟩ := List.exists_cons_of_ne_nil (ne_nil_of_isName hr.isName)
  have hname : ∀ y ∈ r, Token.isNameChar y = true := fun y hy => isNameChar_of_mem hr.isName hy
  have hc : Token.startsWord (some c) = false := by
    simp [Token.startsWord, hname c (by rw [hv]; exact List.mem_cons_self)]
  have hv' : ∀ y ∈ v, Token.isNameChar y = true := fun y hy =>
    hname y (by rw [hv]; exact List.mem_cons_of_mem c hy)
  have hrest : marks (registrationCall r x) = ⟨c, .code, 0⟩ :: (codeMarks 0 v
      ++ ⟨'.', .code, 0⟩ :: (codeMarks 0 "register" ++ ⟨'(', .code, 0⟩
        :: (codeMarks 1 x ++ codeMarks 1 [')'] ++ codeMarks 0 [';']))) := by
    rw [hm]
    simp [codeMarks, hv]
  rw [callOffsets_eq hr.isName]
  rw [hrest] at hp ⊢
  rw [callsFrom, startsCall, hp, callsFrom_inside r hv' hc,
    callsFrom_inside r (w := "register") (List.all_eq_true.1 (by decide)) (by decide),
    callsFrom_eq_nil hr.isName hfree]
  rfl

/-- The diagnostic line is no call. -/
theorem callOffsets_diagnosticLine (library category typeName : Text) :
    callOffsets r (diagnosticLine library category typeName) = [] := by
  have hm := ((scans_diagnosticLine (diagnosticMessage library category typeName)).append
    .semicolon).marks_eq
  rw [← diagnosticLine_eq] at hm
  have hfree : ∀ m ∈ literalMarks 1 (quote (diagnosticMessage library category typeName))
      ++ codeMarks 1 [')'] ++ codeMarks 0 [';'], isCallFree m = true := by
    rw [List.forall_mem_append, List.forall_mem_append]
    exact ⟨⟨isCallFree_literalMarks 1 _, isCallFree_inside 0 _⟩, isCallFree_char rfl 0⟩
  have hrest : marks (diagnosticLine library category typeName) = codeMarks 0 "console"
      ++ ⟨'.', .code, 0⟩ :: (codeMarks 0 "log" ++ ⟨'(', .code, 0⟩
        :: (literalMarks 1 (quote (diagnosticMessage library category typeName))
          ++ codeMarks 1 [')'] ++ codeMarks 0 [';'])) := by
    rw [hm]
    simp [codeMarks]
  rw [callOffsets_eq hr.isName, hrest,
    callsFrom_word hr.isName (w := "console") (by decide) rfl
      fun h => absurd h.symm hr.ne_console,
    callsFrom_word hr.isName (w := "log") (by decide) rfl fun _ => by decide,
    callsFrom_eq_nil hr.isName hfree]

end Lines

/-- The import of the registry is no call. -/
theorem callOffsets_registryImport {r : Registry} (hr : IsReceiver r.receiver) :
    callOffsets r.receiver (registryImport r) = [] := by
  have hm := ((scans_registryImport hr.isName r.importPath).append .semicolon).marks_eq
  rw [← registryImport_eq] at hm
  have hfree₁ : ∀ m ∈ codeMarks 0 ['\x7b'] ++ codeMarks 1 (' ' :: (r.receiver ++ [' ']))
      ++ codeMarks 1 ['\x7d'] ++ codeMarks 0 [' '], isCallFree m = true := by
    rw [List.forall_mem_append, List.forall_mem_append, List.forall_mem_append]
    exact ⟨⟨⟨isCallFree_char rfl 0, isCallFree_inside 0 _⟩, isCallFree_inside 0 _⟩,
      isCallFree_char rfl 0⟩
  have hfree₂ : ∀ m ∈ literalMarks 0 (quote r.importPath) ++ codeMarks 0 [';'],
      isCallFree m = true := by
    rw [List.forall_mem_append]
    exact ⟨isCallFree_literalMarks 0 _, isCallFree_char rfl 0⟩
  have hrest : marks (registryImport r) = codeMarks 0 "import" ++ ⟨' ', .code, 0⟩
      :: ((codeMarks 0 ['\x7b'] ++ codeMarks 1 (' ' :: (r.receiver ++ [' '])) ++ codeMarks 1 ['\x7d']
        ++ codeMarks 0 [' ']) ++ (codeMarks 0 "from" ++ ⟨' ', .code, 0⟩
          :: (literalMarks 0 (quote r.importPath) ++ codeMarks 0 [';']))) := by
    rw [hm]
    simp [codeMarks]
  obtain ⟨before, offset, hc⟩ := callsFrom_free hr.isName hfree₁ (some ' ')
    (0 + size "import" + Mark.size ⟨' ', .code, 0⟩) (codeMarks 0 "from" ++ ⟨' ', .code, 0⟩
          :: (literalMarks 0 (quote r.importPath) ++ codeMarks 0 [';']))
  rw [callOffsets_eq hr.isName, hrest,
    callsFrom_word hr.isName (w := "import") (by decide) rfl fun _ => by decide, hc,
    callsFrom_word hr.isName (w := "from") (by decide) rfl fun _ => by decide,
    callsFrom_eq_nil hr.isName hfree₂]

/-! ### The repaired text -/

section Repaired

variable {c : Context} {t : Text} {l : ObjectLiteral} (hr : IsReceiver c.registry.receiver)
include hr

theorem calls_canonicalStatements (hl : firstLiteral? t = some l) :
    calls c.registry.receiver (canonicalStatements c l) = [()] := by
  have hx := isName_identifier hl
  have hcall := (isLine_registrationCall hr.isName hx).closedBy
  have hlog : callOffsets c.registry.receiver (diagnosticOf c l) = [] :=
    callOffsets_diagnosticLine hr _ _ _
  rw [canonicalStatements_eq, (isReading_calls hr).append (.inl hcall), calls, calls,
    callOffsets_append_newline hr.isName, callOffsets_append_newline hr.isName,
    callOffsets_registrationCall hr hx, hlog]
  rfl

theorem calls_header (s : Segment) : calls c.registry.receiver (header c.registry s) = [] := by
  rw [calls_eq_nil, header_induct (callOffsets_append_newline hr.isName),
    callOffsets_registryImport hr]

/-- The calls in the draft of a balanced text are the one that is written and those inside of
statements that stay. -/
theorem Planned.calls_draft {lead mid rest : List Segment} {site : Segment} {intro : Text}
    (h : Planned c l t lead mid site rest intro) (hb : isBalanced t = true)
    (hl : firstLiteral? t = some l) :
    (calls c.registry.receiver (draft c l t lead mid site rest intro)).length
      = 1 + ((segments t).flatMap
          (readKept c.registry.receiver (calls c.registry.receiver))).length := by
  have hf := isReading_calls hr
  have hsite : site ∈ segments t := by rw [h.segments_eq]; simp
  have hintro : calls c.registry.receiver intro = [] := by
    rcases h.intro_eq with ⟨-, -, rfl⟩ | ⟨-, s, -, -, -, rfl⟩
    · exact hf.nil
    · exact calls_header hr s
  have hcall : readCall c.registry.receiver (canonicalStatements c l) (calls c.registry.receiver) site
      = readKept c.registry.receiver (calls c.registry.receiver) site ++ [()] := by
    have hended := ended_induct (f := calls c.registry.receiver) (fun t => by
      rw [calls, callOffsets_append_newline hr.isName, calls]) site.text
    rw [hf.readCall (startsWithLine_canonicalStatements hr.isName hl)
      (isBalanced_of_mem_segments hb hsite) h.site_text.2.1 hended,
      calls_canonicalStatements hr hl, readKept]
    simp [h.site_kind.1]
  rw [h.reading_draft hf hr.isName hl, hintro, hcall, h.segments_eq]
  simp only [List.flatMap_append, List.flatMap_cons, List.length_append, List.length_nil,
    List.length_singleton]
  omega

end Repaired

/-- The call that a repair writes is found behind what is written in front of it. -/
theorem mem_callOffsets_append {r x : Text} (hr : IsReceiver r) (hx : isName x = true)
    {before : Text} (hb : before = [] ∨ ClosedBy '\n' before) (after : Text) :
    size before ∈ callOffsets r (before ++ (registrationCall r x ++ '\n' :: after)) := by
  have hcall := (isLine_registrationCall hr.isName hx).closedBy
  have hzero : 0 ∈ callOffsets r (registrationCall r x ++ '\n' :: after) := by
    have : registrationCall r x ++ '\n' :: after = registrationCall r x ++ ['\n'] ++ after := by simp
    rw [this, Closed.callOffsets_append hr.isName (.inl hcall), callOffsets_append_newline hr.isName,
      callOffsets_registrationCall hr hx]
    exact List.mem_cons_self
  rcases hb with rfl | hb
  · exact hzero
  · rw [Closed.callOffsets_append hr.isName (.inl hb)]
    exact List.mem_append_right _ (List.mem_map.2 ⟨0, hzero, Nat.zero_add _⟩)

/-- **One call.** The call for the first literal is found in the repaired text of a balanced text. It
is the only call of `register` on the receiver if and only if none stands inside a statement that
stays in place. -/
theorem repair_calls {c : Context} {t out : Text} (hr : IsReceiver c.registry.receiver)
    (hb : isBalanced t = true) (h : repair c t = .ok out) :
    ∃ l before after, firstLiteral? t = some l
      ∧ out = before ++ (registrationCall c.registry.receiver l.identifier ++ '\n' :: after)
      ∧ size before ∈ callOffsets c.registry.receiver out
      ∧ (callOffsets c.registry.receiver out = [size before]
        ↔ ∀ s ∈ segments t, isKept c.registry.receiver s = true →
          callOffsets c.registry.receiver s.text = []) := by
  obtain ⟨l, lead, mid, site, rest, intro, hl, -, hp, rfl⟩ := repair_eq_ok h
  obtain ⟨after, hafter⟩ := hp.exists_append
  have hfront := hp.closedBy_front hr.isName hb
  have hlen := congrArg List.length (finish_induct (f := calls c.registry.receiver) (fun t => by
    rw [calls, callOffsets_append_newline hr.isName, calls]) (draft c l t lead mid site rest intro))
  rw [hp.calls_draft hr hb hl, calls, List.length_map] at hlen
  generalize withoutBlankEnd (withLineEnd (draft c l t lead mid site rest intro)) = out at hafter hlen
  generalize frontOfCall _ _ _ = before at hafter hfront
  have hout : out = before ++ (registrationCall c.registry.receiver l.identifier
      ++ '\n' :: (diagnosticOf c l ++ '\n' :: after)) := by
    rw [hafter, canonicalStatements_eq]
    simp
  have hmem : size before ∈ callOffsets c.registry.receiver out :=
    hout ▸ mem_callOffsets_append hr (isName_identifier hl) hfront _
  refine ⟨l, before, _, hl, hout, hmem, ?_⟩
  have hone : callOffsets c.registry.receiver out = [size before]
      ↔ (callOffsets c.registry.receiver out).length = 1 := by
    refine ⟨fun h => by rw [h]; rfl, fun h => ?_⟩
    obtain ⟨o, ho⟩ := List.length_eq_one_iff.1 h
    rw [ho, List.mem_singleton] at hmem
    rw [ho, hmem]
  rw [hone, hlen, Nat.add_eq_left, List.length_eq_zero_iff, List.flatMap_eq_nil_iff]
  simp only [readKept_calls_eq_nil]

theorem repair_calls_sample :
    repair sampleContext sampleModule = .ok sampleRepaired
      ∧ ∃ offset, callOffsets sampleContext.registry.receiver sampleRepaired = [offset] := by
  obtain ⟨l, before, after, -, -, -, hone⟩ :=
    repair_calls isReceiver_sampleContext (by decide) repair_sampleModule
  exact ⟨repair_sampleModule, size before, hone.2 (by decide)⟩

/-- A call behind a comment does not make its statement a registration, so it stays. -/
theorem repair_keeps_call_behind_comment :
    isBalanced "const x = \x7b\x7d;\n/* c */ r.register(x);\n" = true
      ∧ (repair sampleContext "const x = \x7b\x7d;\n/* c */ r.register(x);\n").map
        (callOffsets sampleContext.registry.receiver) = .ok [42, 93] := by
  decide

end ElementModules.Descriptor
