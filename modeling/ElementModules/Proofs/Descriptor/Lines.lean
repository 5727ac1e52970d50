import ElementModules.Descriptor.Repair
import ElementModules.Proofs.Script.Names

/-!
# The lines that a repair writes

A repair writes three lines: the import of the registry, the call that registers the descriptor and
the diagnostic line behind it. Each is one statement, whatever names and messages it holds, and is
recognised as what it is: as an import that mentions the registry, as a registration on it and as a
log line that counts as diagnostic.

A **receiver** is a name that does not change how the call is recognised: a call on `console` would
be a log line, and a statement that starts with `import` or `export` is no call.

## Main results

* `isLine_registrationCall`, `isLine_diagnosticLine`, `isLine_registryImport`.
* `shape_registrationCall`, `shape_diagnosticLine`, `shape_registryImport`.
* `isDiagnostic_diagnosticLine`, `mentions_registryImport`.
-/

namespace ElementModules.Descriptor

open Text Script

/-- A name on which `register` can be called. -/
structure IsReceiver (r : Text) : Prop where
  isName : isName r = true
  ne_console : r ≠ "console"
  ne_import : r ≠ "import"
  ne_export : r ≠ "export"

/-! ### Marks without bounds -/

theorem not_isBound_codeMarks {d : Nat} {w : Text} (h : ∀ c ∈ w, c ≠ '\n' ∧ c ≠ ';') :
    ∀ m ∈ codeMarks d w, ¬ m.IsBound := by
  intro m hm
  obtain ⟨c, hc, rfl⟩ := List.mem_map.1 hm
  rintro (hb | ⟨hb, -⟩)
  · exact (h c hc).1 hb
  · exact (h c hc).2 hb

theorem newline_not_mem_escape (t : Text) : '\n' ∉ escape t := by
  induction t with
  | nil => simp
  | cons c t ih =>
    rw [escape_cons, List.mem_append, not_or]
    refine ⟨?_, ih⟩
    rw [escapeChar]
    split_ifs with h1 h2 h3 h4
    · decide
    · decide
    · decide
    · decide
    · simpa using fun h => h3 h.symm

theorem not_isBound_quote (d : Nat) (t : Text) :
    ∀ m ∈ literalMarks d (quote t), ¬ m.IsBound := by
  intro m hm
  obtain ⟨c, hc, rfl⟩ := List.mem_map.1 hm
  rintro (hb | ⟨-, hb⟩)
  · obtain rfl : c = '\n' := hb
    rw [quote, List.cons_append, List.mem_cons, List.mem_append, List.mem_singleton] at hc
    rcases hc with hc | hc | hc
    · exact absurd hc (by decide)
    · exact newline_not_mem_escape t hc
    · exact absurd hc (by decide)
  · cases hb

theorem ne_bound_of_isName {n : Text} (h : isName n = true) : ∀ c ∈ n, c ≠ '\n' ∧ c ≠ ';' :=
  fun _ hc => ⟨ne_of_class (isNameChar_of_mem h hc) rfl, ne_of_class (isNameChar_of_mem h hc) rfl⟩

theorem isPlain_of_isName {n : Text} (h : isName n = true) : ∀ c ∈ n, isPlain c = true :=
  fun _ hc => isPlain_of_isNameChar (isNameChar_of_mem h hc)

/-! ### Scanning the lines -/

theorem registrationCall_eq (r x : Text) :
    registrationCall r x = r ++ (".register" : Text) ++ ['('] ++ x ++ [')'] ++ [';'] := by
  simp [registrationCall]

/-- What the diagnostic line prints. -/
def diagnosticMessage (library category typeName : Text) : Text :=
  "✔ [" ++ library ++ "] " ++ category ++ "/" ++ typeName

theorem diagnosticLine_eq (library category typeName : Text) :
    diagnosticLine library category typeName
      = ("console.log" : Text) ++ ['('] ++ quote (diagnosticMessage library category typeName)
          ++ [')'] ++ [';'] := by
  have h₁ : ("console.log(" : Text) = ("console.log" : Text) ++ ['('] := by simp
  have h₂ : (");" : Text) = [')'] ++ [';'] := by simp
  have h : diagnosticLine library category typeName = ("console.log(" : Text)
      ++ quote (diagnosticMessage library category typeName) ++ (");" : Text) := rfl
  rw [h, h₁, h₂]
  simp only [List.append_assoc]

theorem registryImport_eq (r : Registry) :
    registryImport r = ("import " : Text) ++ ['\x7b'] ++ (' ' :: (r.receiver ++ [' '])) ++ ['\x7d']
      ++ (" from " : Text) ++ quote r.importPath ++ [';'] := by
  have h₁ : ("import \x7b " : Text) = ("import " : Text) ++ ['\x7b'] ++ [' '] := by simp
  have h₂ : (" \x7d from " : Text) = [' '] ++ ['\x7d'] ++ (" from " : Text) := by simp
  have h₃ : (";" : Text) = [';'] := by simp
  have h : registryImport r = ("import \x7b " : Text) ++ r.receiver ++ (" \x7d from " : Text)
      ++ quote r.importPath ++ (";" : Text) := rfl
  rw [h, h₁, h₂, h₃]
  simp only [List.append_assoc, List.nil_append, List.cons_append]

theorem scans_registrationCall {r x : Text} (hr : isName r = true) (hx : isName x = true) :
    Scans [] (r ++ (".register" : Text) ++ ['('] ++ x ++ [')'])
      (codeMarks 0 r ++ codeMarks 0 ".register" ++ codeMarks 0 ['('] ++ codeMarks 1 x
        ++ codeMarks 1 [')']) [] :=
  ((((Scans.plain (isPlain_of_isName hr) []).append
    (.plain (List.all_eq_true.1 (by decide)) [])).append (.opener rfl [])).append
    (.plain (isPlain_of_isName hx) [.bracket])).append (.closer rfl [])

theorem scans_diagnosticLine (message : Text) :
    Scans [] (("console.log" : Text) ++ ['('] ++ quote message ++ [')'])
      (codeMarks 0 "console.log" ++ codeMarks 0 ['('] ++ literalMarks 1 (quote message)
        ++ codeMarks 1 [')']) [] :=
  (((Scans.plain (List.all_eq_true.1 (by decide)) []).append (.opener rfl [])).append
    (.quote message [.bracket])).append (.closer rfl [])

theorem scans_registryImport {r : Text} (hr : isName r = true) (path : Text) :
    Scans [] (("import " : Text) ++ ['\x7b'] ++ (' ' :: (r ++ [' '])) ++ ['\x7d']
        ++ (" from " : Text) ++ quote path)
      (codeMarks 0 "import " ++ codeMarks 0 ['\x7b'] ++ codeMarks 1 (' ' :: (r ++ [' ']))
        ++ codeMarks 1 ['\x7d'] ++ codeMarks 0 " from " ++ literalMarks 0 (quote path)) [] := by
  have hp : ∀ c ∈ ' ' :: (r ++ [' ']), isPlain c = true := by
    intro c hc
    rw [List.mem_cons, List.mem_append, List.mem_singleton] at hc
    rcases hc with rfl | hc | rfl
    · rfl
    · exact isPlain_of_isName hr c hc
    · rfl
  exact (((((Scans.plain (List.all_eq_true.1 (by decide)) []).append (.opener rfl [])).append
    (.plain hp [.bracket])).append (.closer rfl [])).append
    (.plain (List.all_eq_true.1 (by decide)) [])).append (.quote path [])

theorem isLine_registrationCall {r x : Text} (hr : isName r = true) (hx : isName x = true) :
    IsLine (registrationCall r x) := by
  rw [registrationCall_eq]
  refine .of_scans (scans_registrationCall hr hx) ?_
  simp only [List.mem_append, or_imp, forall_and]
  refine ⟨⟨⟨⟨not_isBound_codeMarks (ne_bound_of_isName hr), not_isBound_codeMarks ?_⟩,
    not_isBound_codeMarks ?_⟩, not_isBound_codeMarks (ne_bound_of_isName hx)⟩,
    not_isBound_codeMarks ?_⟩ <;> exact List.all_iff_forall_prop.1 (by decide)

theorem isLine_diagnosticLine (library category typeName : Text) :
    IsLine (diagnosticLine library category typeName) := by
  rw [diagnosticLine_eq]
  refine .of_scans (scans_diagnosticLine _) ?_
  simp only [List.mem_append, or_imp, forall_and]
  refine ⟨⟨⟨not_isBound_codeMarks ?_, not_isBound_codeMarks ?_⟩, not_isBound_quote _ _⟩,
    not_isBound_codeMarks ?_⟩ <;> exact List.all_iff_forall_prop.1 (by decide)

theorem isLine_registryImport {r : Registry} (hr : isName r.receiver = true) :
    IsLine (registryImport r) := by
  rw [registryImport_eq]
  refine .of_scans (scans_registryImport hr _) ?_
  simp only [List.mem_append, or_imp, forall_and]
  refine ⟨⟨⟨⟨⟨not_isBound_codeMarks ?_, not_isBound_codeMarks ?_⟩, not_isBound_codeMarks ?_⟩,
    not_isBound_codeMarks ?_⟩, not_isBound_codeMarks ?_⟩, not_isBound_quote _ _⟩
  · exact List.all_iff_forall_prop.1 (by decide)
  · exact List.all_iff_forall_prop.1 (by decide)
  · intro c hc
    rw [List.mem_cons, List.mem_append, List.mem_singleton] at hc
    rcases hc with rfl | hc | rfl
    · decide
    · exact ne_bound_of_isName hr c hc
    · decide
  · exact List.all_iff_forall_prop.1 (by decide)
  · exact List.all_iff_forall_prop.1 (by decide)

/-! ### Recognising the lines -/

/-- A text that ends with a semicolon in code has the shape of a statement. -/
theorem shape_of_semicolon {w : Text} {ms : List Mark} (hm : marks w = ms ++ [⟨';', .code, 0⟩])
    (hs : ∀ c ∈ w.head?, isBlank c = false) : trim w = w ∧ shape w = statementKind w := by
  have hw : w = chars ms ++ [';'] := by
    rw [← chars_marks w, hm, chars_append]
    rfl
  have ht : trim w = w := by
    refine trim_eq_self hs fun c hc => ?_
    rw [hw, List.getLast?_concat, Option.mem_some_iff] at hc
    rw [← hc]
    decide
  have ho : holdsOnlyComments (marks w) = false := by
    simp only [holdsOnlyComments, Bool.and_eq_false_iff, List.all_eq_false]
    exact .inr ⟨⟨';', .code, 0⟩, List.mem_filter.2 ⟨by rw [hm]; simp, by decide⟩, by simp⟩
  refine ⟨ht, ?_⟩
  rw [shape, kindOf, chars_marks, ht, ho, if_neg, if_neg]
  · simp
  · rw [hw]
    simp

/-- A trimmed line has the shape of its text. -/
theorem shape_line {w : Text} (h : IsLine w) (hs : ∀ c ∈ w.head?, isBlank c = false) :
    trim (w ++ ['\n']) = w ∧ shape (w ++ ['\n']) = statementKind w := by
  obtain ⟨ms, hms, -⟩ := h.marks_eq
  obtain ⟨ht, hk⟩ := shape_of_semicolon hms hs
  exact ⟨by rw [trim_append_newline, ht], by rw [shape_append_newline, hk]⟩

/-- A line that starts with no blank has the shape of its text. -/
theorem shape_eq_statementKind {w : Text} (h : IsLine w) (hs : ∀ c ∈ w.head?, isBlank c = false) :
    shape w = statementKind w := by
  rw [← shape_append_newline]
  exact (shape_line h hs).2

theorem head?_of_isName {n : Text} (h : isName n = true) (t : Text) :
    ∀ c ∈ (n ++ t).head?, isBlank c = false := by
  cases n with
  | nil => cases h
  | cons d n =>
    intro c hc
    obtain rfl : d = c := by simpa using hc
    exact isBlank_of_isNameChar (isNameChar_of_mem h List.mem_cons_self)

theorem all_isNameChar (w : Text) (h : w.all Token.isNameChar = true) :
    ∀ c ∈ w, Token.isNameChar c = true :=
  List.all_eq_true.1 h

/-- A call on a receiver is recognised as a registration on it. -/
theorem statementKind_call {r : Text} (hr : IsReceiver r) (t : Text) :
    statementKind (r ++ '.' :: ("register" ++ '(' :: t)) = .registration r := by
  have hn : ∀ c ∈ r, Token.isNameChar c = true := fun _ hc => isNameChar_of_mem hr.isName hc
  have himport := Token.word?_append_of_ne (r := '.' :: ("register" ++ '(' :: t))
    (all_isNameChar "import" (by decide)) hn hr.ne_import rfl
  have hexport := Token.word?_append_of_ne (r := '.' :: ("register" ++ '(' :: t))
    (all_isNameChar "export" (by decide)) hn hr.ne_export rfl
  have hconsole : startsWith (r ++ '.' :: ("register" ++ '(' :: t)) "console." = false := by
    rw [startsWith]
    by_contra hp
    rw [Bool.not_eq_false, List.isPrefixOf_iff_prefix] at hp
    obtain ⟨v, hv⟩ := hp
    have hc : ("console." : Text) ++ v = ("console" : Text) ++ '.' :: v := by simp
    refine hr.ne_console ?_
    rw [← (takeWhile_isNameChar hn (r := '.' :: ("register" ++ '(' :: t)) rfl).1, ← hv, hc]
    exact (takeWhile_isNameChar (all_isNameChar "console" (by decide)) rfl).1
  have hreceiver : registrationReceiver? (r ++ '.' :: ("register" ++ '(' :: t)) = some r := by
    have hw : Token.word? "register" (("register" : Text) ++ '(' :: t) = some ('(' :: t) :=
      Token.word?_append _ rfl
    have hb : Token.blanks (("register" : Text) ++ '(' :: t) = ("register" : Text) ++ '(' :: t := rfl
    have hd : Token.blanks ('.' :: (("register" : Text) ++ '(' :: t))
        = '.' :: (("register" : Text) ++ '(' :: t) := rfl
    have hc : Token.char? '.' ('.' :: (("register" : Text) ++ '(' :: t))
        = some (("register" : Text) ++ '(' :: t) := rfl
    have hp : Token.char? '(' (Token.blanks ('(' :: t)) = some t := rfl
    rw [registrationReceiver?, Token.name?_append hr.isName rfl]
    simp only [Option.bind_eq_bind, Option.bind_some, hd, hc, hb, hw, hp, Option.pure_def]
  rw [statementKind, himport, hexport, hconsole, hreceiver]
  rfl

theorem shape_registrationCall {r x : Text} (hr : IsReceiver r) (hx : isName x = true) :
    trim (registrationCall r x ++ ['\n']) = registrationCall r x
      ∧ shape (registrationCall r x ++ ['\n']) = .registration r := by
  have hc : registrationCall r x
      = r ++ '.' :: (("register" : Text) ++ '(' :: (x ++ (");" : Text))) := by
    simp [registrationCall]
  have h := shape_line (isLine_registrationCall hr.isName hx)
    (by rw [hc]; exact head?_of_isName hr.isName _)
  refine ⟨h.1, h.2.trans ?_⟩
  rw [hc, statementKind_call hr]

theorem shape_diagnosticLine (library category typeName : Text) :
    trim (diagnosticLine library category typeName ++ ['\n'])
        = diagnosticLine library category typeName
      ∧ shape (diagnosticLine library category typeName ++ ['\n']) = .log := by
  have hc : ∃ t, diagnosticLine library category typeName = ("console." : Text) ++ t := ⟨_, rfl⟩
  obtain ⟨t, ht⟩ := hc
  have h := shape_line (isLine_diagnosticLine library category typeName)
    (by rw [ht]; rintro c hc; obtain rfl : 'c' = c := Option.some.inj hc; decide)
  refine ⟨h.1, h.2.trans ?_⟩
  rw [ht]
  rfl

theorem shape_registryImport {r : Registry} (hr : isName r.receiver = true) :
    trim (registryImport r ++ ['\n']) = registryImport r
      ∧ shape (registryImport r ++ ['\n']) = .importDecl := by
  have hc : ∃ t, registryImport r = ("import " : Text) ++ t := ⟨_, rfl⟩
  obtain ⟨t, ht⟩ := hc
  have h := shape_line (isLine_registryImport hr)
    (by rw [ht]; rintro c hc; obtain rfl : 'i' = c := Option.some.inj hc; decide)
  refine ⟨h.1, h.2.trans ?_⟩
  rw [ht]
  rfl

/-- The import of the registry mentions it. -/
theorem mentions_registryImport {r : Registry} (hr : isName r.receiver = true) :
    Segment.mentionsFrom r.receiver none 0 (registryImport r) = true := by
  have hc : registryImport r = ("import \x7b" : Text) ++ ' '
      :: (r.receiver ++ ((" \x7d from " : Text) ++ quote r.importPath ++ (";" : Text))) := by
    have h₁ : ("import \x7b " : Text) = ("import \x7b" : Text) ++ [' '] := by simp
    have h : registryImport r = ("import \x7b " : Text) ++ r.receiver ++ (" \x7d from " : Text)
        ++ quote r.importPath ++ (";" : Text) := rfl
    rw [h, h₁]
    simp only [List.append_assoc, List.nil_append, List.cons_append]
  rw [hc]
  exact mentionsFrom_word hr rfl rfl _ (Nat.zero_le _) none

/-- A text is contained in another one if it stands somewhere in it. -/
theorem contains_iff {w t : Text} : contains w t = true ↔ w <:+: t := by
  induction t with
  | nil => rw [contains, List.isEmpty_iff, List.infix_nil]
  | cons c t ih =>
    rw [contains, Bool.or_eq_true, List.isPrefixOf_iff_prefix, ih, List.infix_cons_iff]

/-- A statement is diagnostic if a part of it is. -/
theorem isDiagnostic_of_part {p t : Text} (hp : p <:+: t) (h : isDiagnostic p = true) :
    isDiagnostic t = true := by
  rw [isDiagnostic, List.any_eq_true] at h ⊢
  obtain ⟨w, hw, hc⟩ := h
  exact ⟨w, hw, contains_iff.2 ((contains_iff.1 hc).trans hp)⟩

/-- The diagnostic line counts as diagnostic. -/
theorem isDiagnostic_diagnosticLine (library category typeName : Text) :
    isDiagnostic (diagnosticLine library category typeName) = true := by
  have hc : ∃ u, diagnosticLine library category typeName
      = ("console.log('" : Text) ++ (("✔ [" : Text) ++ u) := ⟨_, rfl⟩
  obtain ⟨u, hu⟩ := hc
  have hm : contains "✔ [" (diagnosticLine library category typeName) = true := by
    rw [hu, contains_iff]
    exact (List.prefix_append _ u).isInfix.trans (List.suffix_append _ _).isInfix
  rw [isDiagnostic, logMarkers, List.any_eq_true]
  exact ⟨_, List.mem_cons_self, hm⟩

end ElementModules.Descriptor
