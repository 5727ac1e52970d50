import ElementModules.Config.Check
import ElementModules.Proofs.Descriptor.Answers
import ElementModules.Proofs.Script.Listings

/-!
# Receivers

A configuration may name any receiver. What is written for it is read again statement by statement:
the import of the registry is an import that mentions the receiver, and the diagnostic line is a log
line that counts as diagnostic, whatever the texts in them. The call of `register` is one statement
too, but it is read as a registration only after other shapes were tried, and three receivers are
taken for something else there: a call on `console` is a log line, one on `import` an import, and one
on `export` is an export of nothing known (`shape_registrationCall_iff`). For every other receiver a
second repair finds the statements that the first one wrote (`finds_repaired`).

The configuration is not checked for the three receivers, and a repair with one of them does not
converge (`repair_repeats_call`).

## Main results

* `shape_registrationCall_iff`: which calls are read as registrations.
* `finds_repaired`: what a second repair finds.
* `reads_written`: what is written for a receiver is read again.
-/

namespace ElementModules.Script

open Text

/-- A text that is one statement is its only segment. -/
theorem IsPiece.exists_segments_eq {p : Text} (h : IsPiece p) :
    ∃ s, segments p = [s] ∧ s.kind = shape p ∧ s.text = p := by
  have hsegments : segments p = segmentsOf 0 [marks p] := by
    rw [segments, show stretches (marks p) = _ from h]
  exact ⟨_, hsegments, rfl, chars_marks p⟩

end ElementModules.Script

namespace ElementModules.Descriptor

open Text Script

/-! ### The call -/

/-- The receivers on which a call of `register` is read as another statement. -/
def capturedReceivers : List Text := ["console", "import", "export"]

theorem isReceiver_of_not_mem {r : Text} (hr : isName r = true) (h : r ∉ capturedReceivers) :
    IsReceiver r := by
  simp only [capturedReceivers, List.mem_cons, List.not_mem_nil, or_false, not_or] at h
  exact ⟨hr, h.1, h.2.1, h.2.2⟩

/-- A call on a captured receiver is read as a log line, as an import or as nothing known. -/
theorem shape_registrationCall_of_mem {r x : Text} (h : r ∈ capturedReceivers)
    (hx : isName x = true) : shape (registrationCall r x) ∈ [.log, .importDecl, .other] := by
  have hnames : ∀ r ∈ capturedReceivers, isName r = true := by decide
  have hshape := shape_eq_statementKind (isLine_registrationCall (hnames r h) hx) (by
    rw [registrationCall, List.append_assoc, List.append_assoc]
    exact head?_of_isName (hnames r h) _)
  rw [hshape]
  simp only [capturedReceivers, List.mem_cons, List.not_mem_nil, or_false] at h
  rcases h with rfl | rfl | rfl
  · rw [show statementKind (registrationCall "console" x) = .log from rfl]
    decide
  · rw [show statementKind (registrationCall "import" x) = .importDecl from rfl]
    decide
  · rw [show statementKind (registrationCall "export" x) = .other from rfl]
    decide

/-- **Which calls are registrations.** -/
theorem shape_registrationCall_iff {r x : Text} (hr : isName r = true) (hx : isName x = true) :
    shape (registrationCall r x) = .registration r ↔ r ∉ capturedReceivers := by
  constructor
  · intro h hm
    have hother := shape_registrationCall_of_mem hm hx
    simp [h] at hother
  · intro h
    rw [← shape_append_newline]
    exact (shape_registrationCall (isReceiver_of_not_mem hr h) hx).2

/-! ### A second repair -/

/-- A statement is diagnostic if it is without the blanks around it. -/
theorem isDiagnostic_of_trimmed {s : Segment} (h : isDiagnostic s.trimmed = true) :
    isDiagnostic s.text = true := by
  obtain ⟨b, b', he, -, -⟩ := exists_eq_blanks_trim_blanks s.text
  have hinfix : s.trimmed <:+: s.text := ⟨b, b', he.symm⟩
  exact isDiagnostic_of_part hinfix h

/-- **What a second repair finds**: the call and the diagnostic line, which both give way, and also
the import. -/
theorem finds_repaired {c : Context} {t out : Text} (hr : IsReceiver c.registry.receiver)
    (hb : isBalanced t = true) (h : repair c t = .ok out) :
    ∃ l, firstLiteral? t = some l
      ∧ (∃ s ∈ segments out, s.trimmed = registrationCall c.registry.receiver l.identifier
        ∧ isSuperseded c.registry.receiver s = true)
      ∧ (∃ s ∈ segments out, s.trimmed = diagnosticOf c l
        ∧ isSuperseded c.registry.receiver s = true)
      ∧ importIndex? c.registry.receiver (segments out) = none := by
  obtain ⟨l, lead, mid, rest, hl, -, -, hviews, hdiag, -⟩ := repair_frame hr hb h
  have hfind : ∀ v ∈ [((.registration c.registry.receiver,
      registrationCall c.registry.receiver l.identifier) : SegmentKind × Text),
      (.log, diagnosticOf c l)], ∃ s ∈ segments out, s.kind = v.1 ∧ s.trimmed = v.2 := by
    intro v hv
    have hmem : v ∈ (statements out).map view := by
      rw [hviews]
      exact List.mem_append_left _ (List.mem_append_right _ hv)
    obtain ⟨s, hs, rfl⟩ := List.mem_map.1 hmem
    exact ⟨s, List.mem_of_mem_filter hs, rfl, rfl⟩
  obtain ⟨call, hcall, hcallKind, hcallText⟩ := hfind _ List.mem_cons_self
  obtain ⟨line, hline, hlineKind, hlineText⟩ := hfind _ (List.mem_cons_of_mem _ List.mem_cons_self)
  refine ⟨l, hl, ⟨call, hcall, hcallText, ?_⟩, ⟨line, hline, hlineText, ?_⟩, ?_⟩
  · simp [isSuperseded, isRegistrationOn, hcallKind]
  · have hd : isDiagnostic line.text = true := isDiagnostic_of_trimmed (hlineText ▸ hdiag)
    simp [isSuperseded, hlineKind, hd]
  · obtain ⟨l', lead', mid', site, rest', intro, hl', -, hp, rfl⟩ := repair_eq_ok h
    have himport := hp.importsReceiver_repaired hr hb hl'
    rw [importsReceiver] at himport
    rw [importIndex?, if_pos himport]

/-! ### What is written for a receiver -/

/-- **What is written is read again.** For every configuration that passes the checks, each of the
call, the import and the diagnostic line is one segment. The import mentions the receiver, and the
diagnostic line counts as diagnostic. The call is a registration if and only if the receiver is none
of `console`, `import` and `export`; then a second repair of a balanced module finds all that the
first one wrote. -/
theorem reads_written {c : Config} (hc : c.Valid) {x : Text} (hx : isIdentifier x = true)
    (library category typeName : Text) :
    (∃ s, segments (registrationCall c.registry.receiver x) = [s]
        ∧ (s.kind = .registration c.registry.receiver
          ↔ c.registry.receiver ∉ capturedReceivers))
      ∧ (∃ s, segments (registryImport c.registry) = [s] ∧ s.kind = .importDecl
        ∧ s.mentions c.registry.receiver = true)
      ∧ (∃ s, segments (diagnosticLine library category typeName) = [s] ∧ s.kind = .log
        ∧ isDiagnostic s.text = true)
      ∧ (c.registry.receiver ∉ capturedReceivers →
        ∀ (ctx : Context) (t out : Text), ctx.registry = c.registry → isBalanced t = true →
          repair ctx t = .ok out → ∃ l, firstLiteral? t = some l
            ∧ (∃ s ∈ segments out, s.trimmed = registrationCall c.registry.receiver l.identifier
              ∧ isSuperseded c.registry.receiver s = true)
            ∧ (∃ s ∈ segments out, s.trimmed = diagnosticOf ctx l
              ∧ isSuperseded c.registry.receiver s = true)
            ∧ importIndex? c.registry.receiver (segments out) = none) := by
  have hr : isName c.registry.receiver = true := hc.receiver
  have hname : isName x = true := (Bool.and_eq_true_iff.1 hx).1
  refine ⟨?_, ?_, ?_, fun hfree ctx t out hreg hb hout => ?_⟩
  · obtain ⟨s, hs, hk, -⟩ := (isLine_registrationCall hr hname).isEntry.isPiece.exists_segments_eq
    exact ⟨s, hs, by rw [hk, shape_registrationCall_iff hr hname]⟩
  · obtain ⟨s, hs, hk, ht⟩ := (isLine_registryImport hr).isEntry.isPiece.exists_segments_eq
    have hshape := (shape_registryImport hr).2
    rw [shape_append_newline] at hshape
    exact ⟨s, hs, hk.trans hshape, by rw [Segment.mentions, ht, mentions_registryImport hr]⟩
  · obtain ⟨s, hs, hk, ht⟩ :=
      (isLine_diagnosticLine library category typeName).isEntry.isPiece.exists_segments_eq
    have hshape := (shape_diagnosticLine library category typeName).2
    rw [shape_append_newline] at hshape
    exact ⟨s, hs, hk.trans hshape, by rw [ht, isDiagnostic_diagnosticLine]⟩
  · have hreceiver : IsReceiver ctx.registry.receiver := by
      rw [hreg]
      exact isReceiver_of_not_mem hr hfree
    have hfinds := finds_repaired hreceiver hb hout
    rwa [hreg] at hfinds

/-- A configuration for the registry of the sample modules. -/
def sampleConfig : Config := { registry := sampleContext.registry }

theorem reads_written_sample :
    sampleConfig.Valid ∧ isIdentifier "x" = true
      ∧ ∃ s, segments (registrationCall sampleConfig.registry.receiver "x") = [s]
        ∧ s.kind = .registration sampleConfig.registry.receiver := by
  have hc : sampleConfig.Valid := (Config.check_eq_ok_iff _).1 (by decide)
  have hx : isIdentifier "x" = true := by decide
  obtain ⟨⟨s, hs, hk⟩, -⟩ := reads_written hc hx "a" "b" "x"
  exact ⟨hc, hx, s, hs, hk.2 (by decide)⟩

/-- A configuration whose receiver is the console. -/
def consoleConfig : Config := { registry := ⟨"console", "r.js", "i.js"⟩ }

/-- What a repair makes of a module on the console. -/
def consoleModule : Text := ofLines
  ["import \x7b console \x7d from 'r.js';", "", "const x = \x7b\x7d;", "", "console.register(x);",
    "console.log('✔ [a] b/x');"]

/-- A call on the console is read as a log line, so a second repair writes it once more. -/
theorem repair_repeats_call :
    consoleConfig.Valid ∧ isIdentifier "x" = true
      ∧ (segments (registrationCall consoleConfig.registry.receiver "x")).map Segment.kind = [.log]
      ∧ repair ⟨"a", "x", .empty "b", consoleConfig.registry⟩ "const x = \x7b\x7d;\n"
        = .ok consoleModule
      ∧ repair ⟨"a", "x", .empty "b", consoleConfig.registry⟩ consoleModule
        = .ok (consoleModule ++ "\nconsole.register(x);\n") := by
  refine ⟨(Config.check_eq_ok_iff _).1 (by decide), ?_, ?_, ?_, ?_⟩ <;> decide +kernel

end ElementModules.Descriptor
