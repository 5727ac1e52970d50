import ElementModules.Proofs.Script.Blanks
import ElementModules.Proofs.Script.Offsets
import ElementModules.Proofs.Text.Utf8

/-!
# Scanning bytes

A script can be scanned byte by byte. A token of that scan is one byte or two: what opens or closes
a comment, a backslash with what it escapes, and the start of a substitution are read at once, so
there are modes for code, comments, strings and templates only. A byte that belongs to a character
beyond ASCII is none that the scan looks for.

The scan by characters goes through the same states wherever a token of the scan by bytes starts
(`State.isBoundary`), and is in one of its other modes between the bytes of a token. A backslash
takes only the first byte of the character it escapes, but the other bytes of that character are
text of the string. So both scans say the same of every byte (`scanBytes_utf8`).

## Main results

* `ByteState.read_of_le`, `read_asciiByte`: one token.
* `scanBytes_utf8`: the scan by bytes is the scan by characters.
* `getElem?_byteMarks`: what it says of the byte at an offset.
* `last_scanBytes`: where it ends.
-/

namespace ElementModules.Script

open Text

/-! ### The scan -/

/-- What a token of the scan by bytes belongs to. -/
inductive ByteMode
  | code
  | lineComment
  | blockComment
  | quoted (quote : UInt8)
  | template
  deriving DecidableEq, Repr

/-- A state of the scan by bytes. -/
structure ByteState where
  mode : ByteMode
  stack : List Enclosure
  deriving DecidableEq, Repr

/-- A token of the scan by bytes, without its first byte. -/
structure Reading where
  layer : Layer
  /-- The state behind the token. -/
  behind : ByteState
  /-- Whether the token takes the next byte, too. -/
  isWide : Bool
  deriving DecidableEq, Repr

namespace ByteState

/-- Code outside all brackets. -/
def start : ByteState := ⟨.code, []⟩

/-- The number of open enclosures. -/
def depth (s : ByteState) : Nat := s.stack.length

/-- Whether a text may end here. -/
def isSettled (s : ByteState) : Bool :=
  s.stack.isEmpty && (s.mode = .code || s.mode = .lineComment)

/-- A token of code. -/
def readCode (st : List Enclosure) (b : UInt8) (next : Option UInt8) : Reading :=
  if b = asciiByte '/' ∧ next = some (asciiByte '/') then ⟨.comment, ⟨.lineComment, st⟩, true⟩
  else if b = asciiByte '/' ∧ next = some (asciiByte '*') then ⟨.comment, ⟨.blockComment, st⟩, true⟩
  else if b = asciiByte '\'' ∨ b = asciiByte '"' then ⟨.literal, ⟨.quoted b, st⟩, false⟩
  else if b = asciiByte '\x60' then ⟨.literal, ⟨.template, st⟩, false⟩
  else if b = asciiByte '\x7b' ∨ b = asciiByte '(' ∨ b = asciiByte '[' then
    ⟨.code, ⟨.code, .bracket :: st⟩, false⟩
  else if b = asciiByte '\x7d' ∧ st.head? = some .substitution then
    ⟨.literal, ⟨.template, st.tail⟩, false⟩
  else if b = asciiByte '\x7d' ∨ b = asciiByte ')' ∨ b = asciiByte ']' then
    ⟨.code, ⟨.code, if st.head? = some .bracket then st.tail else st⟩, false⟩
  else ⟨.code, ⟨.code, st⟩, false⟩

/-- The token that starts with a byte. -/
def read (s : ByteState) (b : UInt8) (next : Option UInt8) : Reading :=
  match s.mode with
  | .code => readCode s.stack b next
  | .lineComment =>
    if b = asciiByte '\n' then ⟨.code, ⟨.code, s.stack⟩, false⟩ else ⟨.comment, s, false⟩
  | .blockComment =>
    if b = asciiByte '*' ∧ next = some (asciiByte '/') then ⟨.comment, ⟨.code, s.stack⟩, true⟩
    else ⟨.comment, s, false⟩
  | .quoted q =>
    if b = asciiByte '\\' then ⟨.literal, s, true⟩
    else if b = asciiByte '\n' then ⟨.code, ⟨.code, s.stack⟩, false⟩
    else if b = q then ⟨.literal, ⟨.code, s.stack⟩, false⟩
    else ⟨.literal, s, false⟩
  | .template =>
    if b = asciiByte '\\' then ⟨.literal, s, true⟩
    else if b = asciiByte '\x60' then ⟨.literal, ⟨.code, s.stack⟩, false⟩
    else if b = asciiByte '$' ∧ next = some (asciiByte '\x7b') then
      ⟨.literal, ⟨.code, .substitution :: s.stack⟩, true⟩
    else ⟨.literal, s, false⟩

end ByteState

/-- What a scan says of some bytes: the layer of each and the depth before it, and the state behind
them. -/
structure ByteScan where
  marks : List (Layer × Nat)
  last : ByteState
  deriving DecidableEq, Repr

/-- A scan with some more bytes of one layer and depth in front. -/
def ByteScan.emit (n : Nat) (x : Layer × Nat) (r : ByteScan) : ByteScan :=
  ⟨List.replicate n x ++ r.marks, r.last⟩

/-- The scan of some bytes. -/
def scanBytes (s : ByteState) : List UInt8 → ByteScan
  | [] => ⟨[], s⟩
  | [b] =>
    let r := s.read b none
    ⟨[(r.layer, s.depth)], r.behind⟩
  | b :: b' :: bs =>
    let r := s.read b (some b')
    if r.isWide then (scanBytes r.behind bs).emit 2 (r.layer, s.depth)
    else (scanBytes r.behind (b' :: bs)).emit 1 (r.layer, s.depth)

/-- The layer and the depth of each byte of a text. -/
def byteMarks (t : Text) : List (Layer × Nat) :=
  (scanBytes .start (utf8 t)).marks

theorem ByteScan.emit_emit (m n : Nat) (x : Layer × Nat) (r : ByteScan) :
    (r.emit n x).emit m x = r.emit (m + n) x := by
  rw [emit, emit, emit, ← List.append_assoc, List.replicate_append_replicate]

theorem scanBytes_narrow {s : ByteState} {b : UInt8} {bs : List UInt8}
    (h : bs = [] ∨ (s.read b bs.head?).isWide = false) :
    scanBytes s (b :: bs)
      = (scanBytes (s.read b bs.head?).behind bs).emit 1 ((s.read b bs.head?).layer, s.depth) := by
  cases bs with
  | nil => rfl
  | cons b' bs =>
    have hw := h.resolve_left (List.cons_ne_nil b' bs)
    rw [List.head?_cons] at hw
    rw [scanBytes, hw, if_neg Bool.false_ne_true, List.head?_cons]

theorem scanBytes_wide {s : ByteState} {b b' : UInt8} {bs : List UInt8}
    (h : (s.read b (some b')).isWide = true) :
    scanBytes s (b :: b' :: bs) = (scanBytes (s.read b (some b')).behind bs).emit 2
      ((s.read b (some b')).layer, s.depth) := by
  rw [scanBytes, h, if_pos rfl]

/-! ### Bytes beyond ASCII -/

/-- The layer of what the scan does not look for. -/
def ByteMode.layer : ByteMode → Layer
  | .code => .code
  | .lineComment | .blockComment => .comment
  | .quoted _ | .template => .literal

/-- Quoted strings stand between ASCII characters. -/
def ByteMode.IsProper : ByteMode → Prop
  | .quoted q => q.toNat < 128
  | _ => True

theorem ne_asciiByte {b : UInt8} (hb : 128 ≤ b.toNat) {d : Char} (hd : isAscii d = true) :
    b ≠ asciiByte d := by
  rintro rfl
  have := asciiByte_lt hd
  omega

/-- A byte beyond ASCII leaves the scan where it is. -/
theorem ByteState.read_of_le {s : ByteState} (hs : s.mode.IsProper) {b : UInt8}
    (hb : 128 ≤ b.toNat) (next : Option UInt8) : s.read b next = ⟨s.mode.layer, s, false⟩ := by
  obtain ⟨mode, st⟩ := s
  have hne : ∀ d, isAscii d = true → b ≠ asciiByte d := fun d hd => ne_asciiByte hb hd
  cases mode with
  | code => simp [read, readCode, ByteMode.layer, hne, isAscii]
  | lineComment | blockComment | template => simp [read, ByteMode.layer, hne, isAscii]
  | quoted q =>
    have hq : b ≠ q := by
      rintro rfl
      exact absurd hs (Nat.not_lt.2 hb)
    simp [read, ByteMode.layer, hne, hq, isAscii]

/-- Bytes beyond ASCII all get the layer of the mode. -/
theorem scanBytes_of_le {s : ByteState} (hs : s.mode.IsProper) {h : List UInt8}
    (hh : ∀ b ∈ h, 128 ≤ b.toNat) (bs : List UInt8) :
    scanBytes s (h ++ bs) = (scanBytes s bs).emit h.length (s.mode.layer, s.depth) := by
  induction h with
  | nil => rfl
  | cons b h ih =>
    obtain ⟨hb, hh⟩ := List.forall_mem_cons.1 hh
    have hread := ByteState.read_of_le hs hb (h ++ bs).head?
    rw [List.cons_append, scanBytes_narrow (.inr (by rw [hread])), hread, ih hh,
      ByteScan.emit_emit, List.length_cons, Nat.add_comm]

/-! ### One token -/

/-- The mode of the scan by bytes where a token of it starts. -/
def Mode.toBytes : Mode → ByteMode
  | .code | .slash => .code
  | .lineComment => .lineComment
  | .blockComment | .blockStar => .blockComment
  | .quoted q | .quotedEscape q => .quoted (asciiByte q)
  | .template | .templateDollar | .templateEscape => .template

namespace State

/-- The state of the scan by bytes where a token of it starts. -/
def toBytes (s : State) : ByteState := ⟨s.mode.toBytes, s.stack⟩

@[simp] theorem depth_toBytes (s : State) : s.toBytes.depth = s.depth := rfl

/-- Whether a token of the scan by bytes starts in front of a character, or the text ends. -/
def isBoundary (s : State) (next : Option Char) : Bool :=
  match s.mode with
  | .slash => next ≠ some '/' && next ≠ some '*'
  | .blockStar => next ≠ some '/'
  | .templateDollar => next ≠ some '\x7b'
  | .quotedEscape _ | .templateEscape => next.isNone
  | _ => true

section

variable (st : List Enclosure) (next : Option Char)

@[simp] theorem isBoundary_code : isBoundary ⟨.code, st⟩ next = true := rfl

@[simp] theorem isBoundary_lineComment : isBoundary ⟨.lineComment, st⟩ next = true := rfl

@[simp] theorem isBoundary_blockComment : isBoundary ⟨.blockComment, st⟩ next = true := rfl

@[simp] theorem isBoundary_slash :
    isBoundary ⟨.slash, st⟩ next = (decide (next ≠ some '/') && decide (next ≠ some '*')) := rfl

@[simp] theorem isBoundary_blockStar :
    isBoundary ⟨.blockStar, st⟩ next = decide (next ≠ some '/') := rfl

@[simp] theorem isBoundary_templateDollar :
    isBoundary ⟨.templateDollar, st⟩ next = decide (next ≠ some '\x7b') := rfl

@[simp] theorem isBoundary_quotedEscape (q : Char) :
    isBoundary ⟨.quotedEscape q, st⟩ next = next.isNone := rfl

@[simp] theorem isBoundary_templateEscape :
    isBoundary ⟨.templateEscape, st⟩ next = next.isNone := rfl

end

variable {s : State}

theorem IsProper.toBytes (h : s.IsProper) : s.toBytes.mode.IsProper := by
  obtain ⟨mode, st⟩ := s
  have hquote : ∀ q, q = '\'' ∨ q = '"' → (asciiByte q).toNat < 128 := by
    rintro q (rfl | rfl) <;> decide
  cases mode with
  | quoted q => exact hquote q (h q (.inl rfl))
  | quotedEscape q => exact hquote q (h q (.inr rfl))
  | _ => trivial

end State

/-- A token is read as a character of layer `l` behind which the scan by characters is in state `s`;
or, if no token may start behind that character, as the character and the next one. -/
structure Reading.ReadsAs (r : Reading) (st : List Enclosure) (l : Layer) (s : State)
    (next : Option Char) : Prop where
  layer : r.layer = l
  narrow : s.isBoundary next = true → (next = none ∨ r.isWide = false) ∧ r.behind = s.toBytes
  wide : ∀ d, next = some d → s.isBoundary next = false →
    r.isWide = true ∧ r.behind = (s.step d).toBytes ∧ s.stack = st
      ∧ (∀ n, s.layer d n = l ∧ (s.step d).isBoundary n = true)
      ∧ (isAscii d = false → r.behind.mode.layer = l ∧ r.behind.stack = st)

theorem Reading.ReadsAs.of_eq {r : Reading} {st : List Enclosure} {l : Layer} {s : State}
    {next : Option Char} (hr : r = ⟨l, s.toBytes, false⟩) (hs : ∀ n, s.isBoundary n = true) :
    r.ReadsAs st l s next := by
  subst hr
  refine ⟨rfl, fun _ => ⟨.inr rfl, rfl⟩, fun d _ hd => ?_⟩
  rw [hs] at hd
  cases hd

theorem Reading.ReadsAs.of_mode {m : Mode} {st st' : List Enclosure} {l : Layer} {b : ByteMode}
    {next : Option Char} (hm : m.toBytes = b) (hs : ∀ n, State.isBoundary ⟨m, st'⟩ n = true) :
    (⟨l, ⟨b, st'⟩, false⟩ : Reading).ReadsAs st l ⟨m, st'⟩ next :=
  hm ▸ .of_eq rfl hs

/-- A backslash in a string or a template takes the next character with it. -/
theorem Reading.ReadsAs.of_escape {m : Mode} {st : List Enclosure} {b : ByteMode}
    {next : Option Char} (hm : (∃ q, m = .quotedEscape q) ∨ m = .templateEscape)
    (hb : m.toBytes = b) :
    (⟨.literal, ⟨b, st⟩, true⟩ : Reading).ReadsAs st .literal ⟨m, st⟩ next := by
  subst hb
  rcases hm with ⟨q, rfl⟩ | rfl
  all_goals
    refine ⟨rfl, fun hn => ⟨.inl (by simpa using hn), rfl⟩, fun d _ _ => ?_⟩
    exact ⟨rfl, rfl, rfl, fun _ => ⟨rfl, rfl⟩, fun _ => ⟨rfl, rfl⟩⟩

section

variable {c : Char} (hc : isAscii c = true) {b : Option UInt8} {next : Option Char}
  (hb : ∀ d, isAscii d = true → (b = some (asciiByte d) ↔ next = some d))
include hc hb

theorem readCode_asciiByte (mode : Mode) (st : List Enclosure) :
    (ByteState.readCode st (asciiByte c) b).ReadsAs st (State.layerInCode ⟨mode, st⟩ c next)
      (State.stepCode ⟨mode, st⟩ c) next := by
  have hchar : ∀ d, isAscii d = true → (asciiByte c = asciiByte d ↔ c = d) :=
    fun d hd => asciiByte_inj hc hd
  simp only [ByteState.readCode, hchar '/' rfl, hchar '\'' rfl, hchar '"' rfl, hchar '\x60' rfl,
    hchar '\x7b' rfl, hchar '(' rfl, hchar '[' rfl, hchar '\x7d' rfl, hchar ')' rfl, hchar ']' rfl,
    hb '/' rfl, hb '*' rfl]
  by_cases h₁ : c = '/'
  · subst h₁
    have hslash : State.stepCode ⟨mode, st⟩ '/' = ⟨.slash, st⟩ := rfl
    rw [hslash]
    by_cases h₂ : next = some '/'
    · subst h₂
      exact ⟨by simp [State.layerInCode], by simp,
        by simp [State.step, State.layer, State.layerInCode, State.toBytes,
          Mode.toBytes, isAscii]⟩
    · by_cases h₃ : next = some '*'
      · subst h₃
        exact ⟨by simp [State.layerInCode], by simp,
          by simp [State.step, State.layer, State.layerInCode, State.toBytes,
            Mode.toBytes, isAscii]⟩
      · have hbound : State.isBoundary ⟨.slash, st⟩ next = true := by
          simp [h₂, h₃]
        refine ⟨by simp [State.layerInCode, State.endsSubstitution, h₂, h₃], fun _ => ?_, ?_⟩
        · simp [State.toBytes, Mode.toBytes, h₂, h₃]
        · simp [hbound]
  · have hs : ∀ n, (State.stepCode ⟨mode, st⟩ c).isBoundary n = true := by
      intro n
      rw [State.stepCode, if_neg h₁]
      split_ifs <;> first | rfl | (split <;> rfl)
    refine .of_eq ?_ hs
    simp only [h₁, false_and, if_false, State.layerInCode, State.stepCode, decide_false,
      Bool.false_and, Bool.false_eq_true, isOpener, isCloser, State.endsSubstitution,
      Bool.or_eq_true, Bool.and_eq_true, decide_eq_true_eq]
    by_cases h₄ : c = '\'' ∨ c = '"'
    · rcases h₄ with rfl | rfl <;> simp [State.toBytes, Mode.toBytes]
    · rw [not_or] at h₄
      by_cases h₅ : c = '\x7d'
      · subst h₅
        rcases st with _ | ⟨_ | _, st⟩ <;> simp [State.toBytes, Mode.toBytes]
      · simp only [h₄, h₅, or_self, false_and, false_or, if_false, or_false, or_assoc]
        split_ifs <;> rcases st with _ | ⟨_ | _, st⟩ <;> simp_all [State.toBytes, Mode.toBytes]

theorem readBlock_asciiByte {mode : Mode} (hm : mode = .blockComment ∨ mode = .blockStar ∧ c ≠ '/')
    (st : List Enclosure) :
    (ByteState.read ⟨.blockComment, st⟩ (asciiByte c) b).ReadsAs st .comment
      (State.step ⟨mode, st⟩ c) next := by
  have hchar : ∀ d, isAscii d = true → (asciiByte c = asciiByte d ↔ c = d) :=
    fun d hd => asciiByte_inj hc hd
  have hstep : State.step ⟨mode, st⟩ c
      = if c = '*' then ⟨.blockStar, st⟩ else ⟨.blockComment, st⟩ := by
    rcases hm with rfl | ⟨rfl, hne⟩
    · rfl
    · simp [State.step, hne]
  simp only [ByteState.read, hstep, hchar '*' rfl, hb '/' rfl]
  by_cases h₁ : c = '*'
  · subst h₁
    by_cases h₂ : next = some '/'
    · subst h₂
      exact ⟨by simp, by simp,
        by simp [State.step, State.layer, State.toBytes, Mode.toBytes, isAscii]⟩
    · exact ⟨by simp [h₂], by simp [h₂, State.toBytes, Mode.toBytes],
        by simp [h₂]⟩
  · rw [if_neg h₁, if_neg (fun h => h₁ h.1)]
    exact .of_mode rfl (fun _ => rfl)

theorem readTemplate_asciiByte (mode : Mode) (st : List Enclosure) :
    (ByteState.read ⟨.template, st⟩ (asciiByte c) b).ReadsAs st .literal
      (State.stepTemplate ⟨mode, st⟩ c) next := by
  have hchar : ∀ d, isAscii d = true → (asciiByte c = asciiByte d ↔ c = d) :=
    fun d hd => asciiByte_inj hc hd
  simp only [ByteState.read, State.stepTemplate, hchar '\\' rfl, hchar '\x60' rfl, hchar '$' rfl,
    hb '\x7b' rfl]
  by_cases h₁ : c = '\\'
  · subst h₁
    exact .of_escape (.inr rfl) rfl
  · by_cases h₂ : c = '$'
    · subst h₂
      by_cases h₃ : next = some '\x7b'
      · subst h₃
        exact ⟨by simp, by simp,
          by simp [State.step, State.layer, State.toBytes, Mode.toBytes, isAscii]⟩
      · exact ⟨by simp [h₃], by simp [h₃, State.toBytes, Mode.toBytes],
          by simp [h₃]⟩
    · simp only [h₁, h₂, false_and, if_false]
      split_ifs <;> exact .of_mode rfl (fun _ => rfl)

/-- **One token.** Where both scans stand alike, an ASCII character is read alike by both. -/
theorem read_asciiByte {s : State} (hp : s.IsProper) (hs : s.isBoundary (some c) = true) :
    (s.toBytes.read (asciiByte c) b).ReadsAs s.stack (s.layer c next) (s.step c) next := by
  have hchar : ∀ d, isAscii d = true → (asciiByte c = asciiByte d ↔ c = d) :=
    fun d hd => asciiByte_inj hc hd
  obtain ⟨mode, st⟩ := s
  cases mode with
  | code => exact readCode_asciiByte hc hb .code st
  | slash =>
    simp only [State.isBoundary_slash, Bool.and_eq_true, decide_eq_true_eq, ne_eq,
      Option.some.injEq] at hs
    have hcode := readCode_asciiByte hc hb .slash st
    simpa [State.step, State.layer, hs, State.toBytes, Mode.toBytes, ByteState.read] using hcode
  | lineComment =>
    simp only [State.toBytes, Mode.toBytes, ByteState.read, hchar '\n' rfl, State.layer, State.step]
    split_ifs <;> exact .of_mode rfl (fun _ => rfl)
  | blockComment => exact readBlock_asciiByte hc hb (.inl rfl) st
  | blockStar =>
    have hne : c ≠ '/' := by simpa using hs
    exact readBlock_asciiByte hc hb (.inr ⟨rfl, hne⟩) st
  | quoted q =>
    have hq : isAscii q = true := by rcases hp q (.inl rfl) with rfl | rfl <;> rfl
    have hn : q ≠ '\n' := by rcases hp q (.inl rfl) with rfl | rfl <;> decide
    simp only [State.toBytes, Mode.toBytes, ByteState.read, hchar '\n' rfl, hchar '\\' rfl,
      hchar q hq, State.layer, State.step]
    by_cases h₁ : c = '\\'
    · subst h₁
      exact .of_escape (.inl ⟨q, rfl⟩) rfl
    · by_cases h₂ : c = '\n'
      · subst h₂
        exact .of_mode rfl (fun _ => rfl)
      · simp only [h₁, h₂, if_false, decide_false, Bool.false_or, decide_eq_true_eq]
        split_ifs <;> exact .of_mode rfl (fun _ => rfl)
  | quotedEscape q => cases hs
  | template => exact readTemplate_asciiByte hc hb .template st
  | templateDollar =>
    have hne : c ≠ '\x7b' := by simpa using hs
    have htemplate := readTemplate_asciiByte hc hb .templateDollar st
    simpa [State.step, State.layer, hne, State.toBytes, Mode.toBytes] using htemplate
  | templateEscape => cases hs

end

/-- A character beyond ASCII is none that the scan by characters looks for. -/
theorem State.step_of_not_isAscii {s : State} (hp : s.IsProper) {c : Char} (hc : isAscii c = false)
    (hs : s.isBoundary (some c) = true) (next : Option Char) :
    s.layer c next = s.toBytes.mode.layer ∧ (s.step c).toBytes = s.toBytes
      ∧ ∀ n, (s.step c).isBoundary n = true := by
  have hne : ∀ d, isAscii d = true → c ≠ d := by
    rintro d hd rfl
    rw [hc] at hd
    cases hd
  have hascii : ∀ d ∈ ['/', '*', '\n', '\\', '$', '\'', '"', '\x60', '\x7b', '(', '[', '\x7d', ')',
      ']'], isAscii d = true := List.all_eq_true.1 (by decide)
  have hplain : ∀ d ∈ _, c ≠ d := fun d hd => hne d (hascii d hd)
  simp only [List.forall_mem_cons] at hplain
  obtain ⟨mode, st⟩ := s
  cases mode with
  | quoted q =>
    have hq : c ≠ q := hne q (by rcases hp q (.inl rfl) with rfl | rfl <;> rfl)
    simp [layer, step, toBytes, Mode.toBytes, ByteMode.layer, isBoundary, hplain, hq]
  | quotedEscape q => cases hs
  | templateEscape => cases hs
  | _ =>
    simp [layer, layerInCode, endsSubstitution, step, stepCode, stepTemplate, isOpener, isCloser,
      toBytes, Mode.toBytes, ByteMode.layer, isBoundary, hplain]

/-! ### The whole scan -/

/-- The layer and the depth of some marks, once for each byte. -/
def spread (ms : List Mark) : List (Layer × Nat) :=
  ms.flatMap fun m => List.replicate m.size (m.layer, m.depth)

/-- What the scan by characters says of the bytes of a text. -/
def spreadScan (s : State) (t : Text) : ByteScan :=
  ⟨spread (marksFrom s t), (s.run t).toBytes⟩

theorem spreadScan_cons (s : State) (c : Char) (t : Text) :
    spreadScan s (c :: t)
      = (spreadScan (s.step c) t).emit c.utf8Size (s.layer c t.head?, s.depth) := rfl

theorem State.isBoundary_none (s : State) : s.isBoundary none = true := by
  obtain ⟨mode, st⟩ := s
  cases mode <;> rfl

/-- A token of two bytes takes its second byte from the next character, and what that character has
left is read alike. -/
theorem scanBytes_of_not_isBoundary {s : State} (hp : s.IsProper) {c d : Char} {t : Text}
    (hs : s.isBoundary (some c) = true) (hc : isAscii c = true)
    (hd : (s.step c).isBoundary (some d) = false) :
    scanBytes s.toBytes (utf8 (c :: d :: t))
      = (scanBytes ((s.step c).step d).toBytes (utf8 t)).emit (1 + d.utf8Size)
          (s.layer c (some d), s.depth) := by
  obtain ⟨b, bs, hb⟩ := List.exists_cons_of_ne_nil (encodeChar_ne_nil d)
  have hsize : d.utf8Size = bs.length + 1 := by
    rw [← String.length_utf8EncodeChar, hb, List.length_cons]
  have hhead : (utf8 (d :: t)).head? = some b := by
    rw [utf8_cons, hb, List.cons_append, List.head?_cons]
  have hr := read_asciiByte hc (fun x hx => utf8_head?_eq_asciiByte (d :: t) hx) hp hs
  rw [hhead, List.head?_cons] at hr
  obtain ⟨hw, hbehind, -, -, hhigh⟩ := hr.wide d rfl hd
  have hrest : scanBytes ((s.step c).step d).toBytes (bs ++ utf8 t)
      = (scanBytes ((s.step c).step d).toBytes (utf8 t)).emit bs.length
          (s.layer c (some d), s.depth) := by
    cases hascii : isAscii d with
    | true =>
      rw [encodeChar_of_isAscii hascii] at hb
      obtain ⟨-, rfl⟩ := List.cons.inj hb
      rfl
    | false =>
      obtain ⟨hl, hst⟩ := hhigh hascii
      rw [hbehind] at hl hst
      rw [scanBytes_of_le ((hp.step c).step d).toBytes, hl, ByteState.depth, hst]
      · rfl
      · exact fun x hx => le_of_mem_encodeChar hascii (hb ▸ List.mem_cons_of_mem b hx)
  rw [utf8_cons, utf8_cons, encodeChar_of_isAscii hc, hb, List.singleton_append, List.cons_append,
    scanBytes_wide hw, hbehind, hrest, hr.layer, State.depth_toBytes, ByteScan.emit_emit, hsize]
  congr 1
  omega

/-- **Both scans agree.** Scanning the bytes of a text gives each of them the layer and the depth of
its character. -/
theorem scanBytes_utf8 {s : State} (hp : s.IsProper) {t : Text} (hs : s.isBoundary t.head? = true) :
    scanBytes s.toBytes (utf8 t) = spreadScan s t := by
  -- A token may take two characters, so the induction is on the length.
  induction hn : t.length using Nat.strong_induction_on generalizing s t with
  | _ n ih =>
  cases t with
  | nil => rfl
  | cons c t =>
    rw [spreadScan_cons]
    cases hc : isAscii c with
    | false =>
      obtain ⟨hl, hbytes, hbound⟩ := State.step_of_not_isAscii hp hc hs t.head?
      rw [utf8_cons, scanBytes_of_le hp.toBytes fun b hb => le_of_mem_encodeChar hc hb,
        String.length_utf8EncodeChar, ← hbytes,
        ih t.length (by rw [← hn]; exact Nat.lt_succ_self _) (hp.step c) (hbound _) rfl, hl, hbytes]
      rfl
    | true =>
      have hr := read_asciiByte hc (fun d hd => utf8_head?_eq_asciiByte t hd) hp hs
      by_cases hbound : (s.step c).isBoundary t.head? = true
      · obtain ⟨hw, hbehind⟩ := hr.narrow hbound
        have hnarrow := hw.imp_left fun h => congrArg utf8 (List.head?_eq_none_iff.1 h)
        rw [utf8_cons, encodeChar_of_isAscii hc, List.singleton_append, scanBytes_narrow hnarrow,
          hbehind, hr.layer,
          ih t.length (by rw [← hn]; exact Nat.lt_succ_self _) (hp.step c) hbound rfl,
          utf8Size_of_isAscii hc]
        rfl
      · cases t with
        | nil => exact absurd (State.isBoundary_none _) hbound
        | cons d t =>
          rw [Bool.not_eq_true] at hbound
          obtain ⟨-, -, hst, hd, -⟩ := hr.wide d rfl hbound
          rw [scanBytes_of_not_isBoundary hp hs hc hbound,
            ih t.length (by rw [← hn, List.length_cons, List.length_cons]; omega)
              ((hp.step c).step d) (hd t.head?).2 rfl,
            spreadScan_cons, (hd t.head?).1, State.depth, State.depth, hst, ByteScan.emit_emit,
            utf8Size_of_isAscii hc]
          rfl

/-- The layers and depths of the bytes of a text are those of its characters. -/
theorem byteMarks_eq (t : Text) : byteMarks t = spread (marks t) := by
  have h := scanBytes_utf8 State.isProper_start (t := t) rfl
  rw [byteMarks]
  exact congrArg ByteScan.marks h

theorem getElem?_spread (ms : List Mark) (i : Nat) :
    (spread ms)[i]? = (markAt? i ms).map fun m => (m.layer, m.depth) := by
  induction ms generalizing i with
  | nil => rfl
  | cons m ms ih =>
    rw [spread, List.flatMap_cons, ← spread, markAt?, fromOffset]
    by_cases hi : i < m.size
    · rw [List.getElem?_append_left (by rwa [List.length_replicate]), List.getElem?_replicate,
        if_pos hi, if_pos hi, List.head?_cons, Option.map_some]
    · rw [List.getElem?_append_right (by rw [List.length_replicate]; omega), List.length_replicate,
        ih, if_neg hi, markAt?]

/-- **What the scan by bytes says of a byte** is what stands at its offset. -/
theorem getElem?_byteMarks (t : Text) (i : Nat) :
    (byteMarks t)[i]? = (layerAt? t i).map fun l => (l, depthBefore t i) := by
  rw [byteMarks_eq, getElem?_spread, layerAt?, depthBefore]
  cases markAt? i (marks t) <;> rfl

/-- The scan by bytes ends at the depth of the end, and settled if the text is balanced. -/
theorem last_scanBytes (t : Text) :
    (scanBytes .start (utf8 t)).last.depth = endDepth t
      ∧ (scanBytes .start (utf8 t)).last.isSettled = isBalanced t := by
  have h := congrArg ByteScan.last (scanBytes_utf8 State.isProper_start (t := t) rfl)
  have hlast : (scanBytes .start (utf8 t)).last = (endState t).toBytes := h
  rw [hlast]
  refine ⟨rfl, ?_⟩
  rw [isBalanced]
  obtain ⟨mode, st⟩ := endState t
  cases mode <;> simp [ByteState.isSettled, State.toBytes, Mode.toBytes, State.isSettled]

end ElementModules.Script
