import ElementModules.Proofs.Descriptor.Specifiers
import ElementModules.Proofs.Descriptor.Synthesized
import ElementModules.Proofs.Script.Bytes

/-!
# Quoted texts

Three readers meet a quoted text. The scan passes over it as over one string, whatever it holds: a
backslash of the text is written twice and a quote behind a backslash, so each escape is one step in
the string and one step back. A reader that knows the four escapes and nothing else (`readQuoted?`)
reads the text itself, and reads it off nothing but its quoted form. The reader of plain field values
refuses every escape, so it gives the text back only where none was needed.

## Main results

* `byteMarks_quote_append`: the scan of a quoted text and of what follows.
* `readQuoted?_eq_some_iff`: reading is the inverse of quoting.
* `quote_closed`: all three together.
-/

namespace ElementModules.Descriptor

open Text Script

/-! ### The scan -/

theorem spread_append (a b : List Mark) : spread (a ++ b) = spread a ++ spread b :=
  List.flatMap_append

/-- The bytes of a string. -/
theorem spread_literalMarks (depth : Nat) (t : Text) :
    spread (literalMarks depth t) = List.replicate (size t) (.literal, depth) := by
  induction t with
  | nil => rfl
  | cons c t ih =>
    rw [size_cons, ← List.replicate_append_replicate, ← ih]
    rfl

/-- A quoted text is scanned as one string outside all brackets. -/
theorem marks_quote_append (v b : Text) :
    marks (quote v ++ b) = literalMarks 0 (quote v) ++ marks b :=
  (Scans.quote v []).marks b

theorem endState_quote (v : Text) : endState (quote v) = .start :=
  (Scans.quote v []).run

/-- **The scan of a quoted text**, byte by byte, and of what follows it. -/
theorem byteMarks_quote_append (v b : Text) : byteMarks (quote v ++ b)
    = List.replicate (size (quote v)) (.literal, 0) ++ byteMarks b := by
  rw [byteMarks_eq, marks_quote_append, spread_append, spread_literalMarks, ← byteMarks_eq]

/-! ### Undoing the escapes -/

/-- The character that an escape stands for, told by what follows the backslash. -/
def escapedChar? (d : Char) : Option Char :=
  if d = '\\' then some '\\'
  else if d = '\'' then some '\''
  else if d = 'n' then some '\n'
  else if d = 'r' then some '\r'
  else none

/-- Reads a text up to its closing quote, and gives back what follows the quote. Only the four
escapes are known, and what has to be escaped is refused elsewhere. -/
def readEscaped? : Text → Option (Text × Text)
  | [] => none
  | [c] => if c = '\'' then some ([], []) else none
  | c :: d :: t =>
    if c = '\'' then some ([], d :: t)
    else if c = '\\' then
      (escapedChar? d).bind fun e => (readEscaped? t).map fun r => (e :: r.1, r.2)
    else if c = '\n' ∨ c = '\r' then none
    else (readEscaped? (d :: t)).map fun r => (c :: r.1, r.2)

/-- Reads a quoted text, and gives back what follows it. -/
def readQuoted? (t : Text) : Option (Text × Text) :=
  (Token.char? '\'' t).bind readEscaped?

/-- An escape is undone by what it was written for. -/
theorem escapedChar?_eq_some_iff {c d : Char} :
    escapedChar? d = some c ↔ escapeChar c = ['\\', d] := by
  constructor
  · intro h
    rw [escapedChar?] at h
    split_ifs at h with h₁ h₂ h₃ h₄ <;> obtain rfl := Option.some.inj h
    · rw [h₁]; rfl
    · rw [h₂]; rfl
    · rw [h₃]; rfl
    · rw [h₄]; rfl
  · intro h
    rw [escapeChar] at h
    split_ifs at h with h₁ h₂ h₃ h₄
    · obtain rfl : '\\' = d := by simpa using h
      rw [h₁]; rfl
    · obtain rfl : '\'' = d := by simpa using h
      rw [h₂]; rfl
    · obtain rfl : 'n' = d := by simpa using h
      rw [h₃]; rfl
    · obtain rfl : 'r' = d := by simpa using h
      rw [h₄]; rfl
    · exact absurd (congrArg List.length h) (by simp)

/-- A character is written as an escape or as itself. -/
theorem escapeChar_cases (c : Char) : (∃ d, escapeChar c = ['\\', d])
    ∨ escapeChar c = [c] ∧ c ≠ '\'' ∧ c ≠ '\\' ∧ ¬ (c = '\n' ∨ c = '\r') := by
  rw [escapeChar]
  split_ifs with h₁ h₂ h₃ h₄
  · exact .inl ⟨_, rfl⟩
  · exact .inl ⟨_, rfl⟩
  · exact .inl ⟨_, rfl⟩
  · exact .inl ⟨_, rfl⟩
  · exact .inr ⟨rfl, h₂, h₁, by simp [h₃, h₄]⟩

/-- What is written is read. -/
theorem readEscaped?_escape (v b : Text) :
    readEscaped? (escape v ++ '\'' :: b) = some (v, b) := by
  induction v with
  | nil => cases b <;> rfl
  | cons c v ih =>
    rw [escape_cons, List.append_assoc]
    rcases escapeChar_cases c with ⟨d, hd⟩ | ⟨hc, hquote, hslash, hend⟩
    · rw [hd, List.cons_append, List.singleton_append, readEscaped?, if_neg (by decide), if_pos rfl,
        escapedChar?_eq_some_iff.2 hd, Option.bind_some, ih]
      rfl
    · obtain ⟨d, t, ht⟩ := List.exists_cons_of_ne_nil (l := escape v ++ '\'' :: b) (by simp)
      rw [hc, List.singleton_append, ht, readEscaped?, if_neg hquote, if_neg hslash, if_neg hend,
        ← ht, ih]
      rfl

/-- What is read was written. -/
theorem eq_of_readEscaped? {t v b : Text} (h : readEscaped? t = some (v, b)) :
    t = escape v ++ '\'' :: b := by
  fun_induction readEscaped? t generalizing v with
  | case1 => cases h
  | case2 =>
    obtain ⟨rfl, rfl⟩ := Prod.mk.inj (Option.some.inj h)
    rfl
  | case3 => cases h
  | case4 =>
    obtain ⟨rfl, rfl⟩ := Prod.mk.inj (Option.some.inj h)
    rfl
  | case5 d t _ ih =>
    obtain ⟨e, he, hr⟩ := Option.bind_eq_some_iff.1 h
    obtain ⟨⟨w, r⟩, hread, hw⟩ := Option.map_eq_some_iff.1 hr
    obtain ⟨rfl, rfl⟩ := Prod.mk.inj hw
    rw [escape_cons, escapedChar?_eq_some_iff.1 he, ih hread]
    rfl
  | case6 => cases h
  | case7 c d t hquote hslash hend ih =>
    obtain ⟨⟨w, r⟩, hread, hw⟩ := Option.map_eq_some_iff.1 h
    obtain ⟨rfl, rfl⟩ := Prod.mk.inj hw
    rw [not_or] at hend
    rw [ih hread, escape_cons, escapeChar, if_neg hslash, if_neg hquote, if_neg hend.1,
      if_neg hend.2]
    rfl

/-- **Reading is the inverse of quoting**: a text and what follows it are read exactly where the
quoted form of the text stands in front of what follows. -/
theorem readQuoted?_eq_some_iff {t v b : Text} :
    readQuoted? t = some (v, b) ↔ t = quote v ++ b := by
  have hquote : quote v ++ b = '\'' :: (escape v ++ '\'' :: b) := by simp [quote]
  rw [readQuoted?, Option.bind_eq_some_iff, hquote]
  constructor
  · rintro ⟨u, hu, hread⟩
    rw [char?_eq_some_iff.1 hu, eq_of_readEscaped? hread]
  · rintro rfl
    exact ⟨_, char?_eq_some_iff.2 rfl, readEscaped?_escape v b⟩

/-! ### All readers -/

/-- **Quoting is closed and invertible.** Every byte of a quoted text belongs to a string outside all
brackets, the text is balanced, and what follows it is scanned as if it stood alone. Undoing the
escapes gives back the text and what follows. A property with the quoted text for its value has the
text as its plain string if the text needs no escapes, and has none otherwise. -/
theorem quote_closed (v : Text) :
    byteMarks (quote v) = List.replicate (size (quote v)) (.literal, 0)
      ∧ isBalanced (quote v) = true
      ∧ (∀ b, marks (quote v ++ b) = marks (quote v) ++ marks b
        ∧ byteMarks (quote v ++ b) = byteMarks (quote v) ++ byteMarks b
        ∧ endState (quote v) = .start ∧ endState (quote v ++ b) = endState b)
      ∧ (∀ t b, readQuoted? t = some (v, b) ↔ t = quote v ++ b)
      ∧ ∀ f : Field, f.kind = .property → f.value = some (quote v) →
        f.stringValue? = if IsVerbatim v then some v else none := by
  have hbytes : byteMarks (quote v) = List.replicate (size (quote v)) (.literal, 0) := by
    have h := byteMarks_quote_append v []
    have hnil : byteMarks [] = [] := rfl
    rwa [List.append_nil, hnil, List.append_nil] at h
  have hmarks : marks (quote v) = literalMarks 0 (quote v) := (Scans.quote v []).marks_eq
  refine ⟨hbytes, ?_, fun b => ⟨?_, ?_, endState_quote v, ?_⟩, fun t b => readQuoted?_eq_some_iff,
    fun f _ hvalue => ?_⟩
  · rw [isBalanced, endState_quote]
    rfl
  · rw [marks_quote_append, hmarks]
  · rw [byteMarks_quote_append, hbytes]
  · rw [endState_append, endState_quote]
    rfl
  · rw [Field.stringValue?, hvalue, Option.bind_some, unquoted?_quote_eq]

/-- A text with quotes of all kinds, comment marks, a substitution, line ends, a backslash in front
of a character of two bytes, and a backslash at its end. -/
def awkward : Text := "it's \"a\" \x60$\x7b // /* \\é\n\r\\"

theorem quote_closed_awkward :
    (∃ f ∈ fields ("label: " ++ quote awkward ++ ", n: 1"), f.kind = .property
        ∧ f.value = some (quote awkward) ∧ f.stringValue? = none)
      ∧ ∃ f ∈ fields ("label: " ++ quote "Op Amp" ++ ", n: 1"), f.kind = .property
        ∧ f.value = some (quote "Op Amp") ∧ f.stringValue? = some "Op Amp" := by
  have hread : ∀ v : Text, (∃ f ∈ fields ("label: " ++ quote v ++ ", n: 1"), f.kind = .property
      ∧ f.value = some (quote v)) → ∃ f ∈ fields ("label: " ++ quote v ++ ", n: 1"),
        f.kind = .property ∧ f.value = some (quote v)
          ∧ f.stringValue? = if IsVerbatim v then some v else none := by
    rintro v ⟨f, hf, hkind, hvalue⟩
    exact ⟨f, hf, hkind, hvalue, (quote_closed v).2.2.2.2 f hkind hvalue⟩
  exact ⟨hread awkward (by decide), hread "Op Amp" (by decide)⟩

end ElementModules.Descriptor
