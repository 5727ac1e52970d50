import ElementModules.Json.Printer
import ElementModules.Proofs.Script.Commas
import ElementModules.Proofs.Script.Names

/-!
# JSON in a script

A JSON value that is written into a script stays in one piece there, whatever its strings hold. It is
written as its tokens with blanks behind them (`spells_layered`), and the brackets among the tokens
match (`nested_toTokens`). A token without a bracket is a word, a number or a quoted string, and each
of these is scanned on its own. So the script is in code again behind the value, and no bracket of the
value closes one that was open before (`Nested.scans`).

## Main results

* `spells_layered`, `nested_toTokens`: the tokens of a written value.
* `Nested.scans`: scanning what is written.
-/

namespace ElementModules.Json

open Text Script

/-! ### Tokens and blanks -/

/-- A text that is written as some tokens, each with blanks behind it. -/
inductive Spells : List Token → Text → Prop
  | nil : Spells [] []
  | cons {tokens : List Token} {t b : Text} (token : Token) (blanks : ∀ c ∈ b, c = ' ' ∨ c = '\n')
    (rest : Spells tokens t) : Spells (token :: tokens) (token.render ++ b ++ t)

namespace Spells

theorem uncons {token : Token} {tokens : List Token} {t : Text} (h : Spells (token :: tokens) t) :
    ∃ b u, t = token.render ++ b ++ u ∧ (∀ c ∈ b, c = ' ' ∨ c = '\n') ∧ Spells tokens u := by
  cases h with
  | cons _ blanks rest => exact ⟨_, _, rfl, blanks, rest⟩

theorem of_append {tokens tokens' : List Token} {t : Text} (h : Spells (tokens ++ tokens') t) :
    ∃ u u', t = u ++ u' ∧ Spells tokens u ∧ Spells tokens' u' := by
  induction tokens generalizing t with
  | nil => exact ⟨[], t, rfl, .nil, h⟩
  | cons token tokens ih =>
    obtain ⟨b, v, rfl, hb, hv⟩ := h.uncons
    obtain ⟨u, u', rfl, hu, hu'⟩ := ih hv
    exact ⟨token.render ++ b ++ u, u', by simp, .cons token hb hu, hu'⟩

end Spells

theorem blanks_newLine (level : Nat) : ∀ c ∈ newLine level, c = ' ' ∨ c = '\n' := by
  intro c hc
  rcases List.mem_cons.1 hc with rfl | hc
  · exact .inr rfl
  · exact .inl (List.eq_of_mem_replicate hc)

/-- **The layered form** writes the tokens in order, with blanks behind them. -/
theorem spells_layered (level : Nat) (tokens : List Token) : Spells tokens (layered level tokens) := by
  have hnone : ∀ c ∈ ([] : Text), c = ' ' ∨ c = '\n' := by simp
  induction tokens generalizing level with
  | nil => exact .nil
  | cons token tokens ih =>
    rw [layered]
    split_ifs
    · cases hn : tokens.head? with
      | none =>
        obtain rfl := List.head?_eq_none_iff.1 hn
        simpa using Spells.cons token hnone .nil
      | some next =>
        dsimp only
        split_ifs
        · simpa using Spells.cons token hnone (ih (level + 1))
        · exact .cons token (blanks_newLine _) (ih (level + 1))
    · exact .cons token (blanks_newLine _) (ih level)
    · have hspace : ∀ c ∈ [' '], c = ' ' ∨ c = '\n' := by simp
      simpa using Spells.cons token hspace (ih level)
    all_goals
      refine .cons token ?_ (ih _)
      cases tokens.head? with
      | none => exact hnone
      | some next =>
        dsimp only
        split_ifs
        · exact blanks_newLine _
        · exact hnone

/-! ### Brackets that match -/

/-- Tokens whose brackets match. -/
inductive Nested : List Token → Prop
  | nil : Nested []
  | single {token : Token} (opens : token.opens = false) (closes : token.closes = false) :
    Nested [token]
  | append {a b : List Token} (left : Nested a) (right : Nested b) : Nested (a ++ b)
  | group {o c : Token} {tokens : List Token} (opens : o.opens = true) (inner : Nested tokens)
    (closes : c.closes = true) : Nested (o :: tokens ++ [c])

/-- A token that is no bracket, in front of others. -/
theorem Nested.cons {token : Token} {tokens : List Token} (opens : token.opens = false)
    (closes : token.closes = false) (h : Nested tokens) : Nested (token :: tokens) :=
  .append (.single opens closes) h

mutual

/-- **The brackets of a value** match. -/
theorem nested_toTokens : ∀ v : Json, Nested v.toTokens
  | .null | .unreadable | .bool _ | .number _ | .string _ => .single rfl rfl
  | .array items => .group rfl (nested_itemTokens items) rfl
  | .object fields => .group rfl (nested_fieldTokens fields) rfl

theorem nested_itemTokens : ∀ items : List Json, Nested (itemTokens items)
  | [] => .nil
  | [v] => nested_toTokens v
  | v :: w :: items =>
    .append (nested_toTokens v) (.cons rfl rfl (nested_itemTokens (w :: items)))

theorem nested_fieldTokens : ∀ fields : List (Text × Json), Nested (fieldTokens fields)
  | [] => .nil
  | [(_, v)] => .cons rfl rfl (.cons rfl rfl (nested_toTokens v))
  | (_, v) :: f :: fields => .cons rfl rfl (.cons rfl rfl
      (.append (nested_toTokens v) (.cons rfl rfl (nested_fieldTokens (f :: fields)))))

end

/-! ### Single tokens -/

/-- A character of a number. -/
def isNumeral (c : Char) : Bool := c.isDigit || c = '-' || c = '+' || c = '.' || c = 'e'

theorem isPlain_of_isNumeral {c : Char} (h : isNumeral c = true) : isPlain c = true := by
  simp only [isNumeral, Bool.or_eq_true, decide_eq_true_eq] at h
  rcases h with (((h | rfl) | rfl) | rfl) | rfl
  · exact isPlain_of_isNameChar (by simp [Token.isNameChar, Char.isAlphanum, h])
  all_goals rfl

theorem isNumeral_ofNat (n : Nat) : ∀ c ∈ Decimal.ofNat n, isNumeral c = true := by
  intro c hc
  simp [isNumeral, Nat.isDigit_of_mem_toDigits (by decide) (by decide) hc]

theorem isNumeral_style (style : DecimalStyle) (d : Decimal) :
    ∀ c ∈ style.render d, isNumeral c = true := by
  have hzeros : ∀ n, ∀ c ∈ List.replicate n '0', isNumeral c = true := by
    intro n c hc
    rw [List.eq_of_mem_replicate hc]
    rfl
  have hdigits := isNumeral_ofNat d.digits
  have htake : ∀ n, ∀ c ∈ (Decimal.ofNat d.digits).take n, isNumeral c = true :=
    fun n c hc => hdigits c (List.mem_of_mem_take hc)
  have hdrop : ∀ n, ∀ c ∈ (Decimal.ofNat d.digits).drop n, isNumeral c = true :=
    fun n c hc => hdigits c (List.mem_of_mem_drop hc)
  have hsign : ∀ e : Int, isNumeral (if 0 ≤ e then '+' else '-') = true := by
    intro e
    split <;> rfl
  have hfraction : ∀ c ∈ (if (Decimal.ofNat d.digits).length ≤ 1 then []
      else '.' :: (Decimal.ofNat d.digits).drop 1), isNumeral c = true := by
    split
    · simp
    · exact List.forall_mem_cons.2 ⟨rfl, hdrop 1⟩
  rw [DecimalStyle.render]
  dsimp only
  split
  · simp only [List.forall_mem_append, List.forall_mem_cons]
    exact ⟨⟨hdigits, hzeros _⟩, rfl, rfl, by simp⟩
  split
  · simp only [List.forall_mem_append, List.forall_mem_cons]
    exact ⟨htake _, rfl, hdrop _⟩
  split
  · simp only [List.forall_mem_append, List.forall_mem_cons]
    exact ⟨⟨rfl, rfl, hzeros _⟩, hdigits⟩
  · rw [List.forall_mem_append, List.forall_mem_append, List.forall_mem_cons, List.forall_mem_cons]
    exact ⟨⟨htake 1, hfraction⟩, rfl, hsign _, isNumeral_ofNat _⟩

/-- Numbers are written in plain characters. -/
theorem isNumeral_render (n : JsonNumber) : ∀ c ∈ n.render, isNumeral c = true := by
  cases n with
  | integer value =>
    rw [JsonNumber.render]
    split_ifs
    · exact List.forall_mem_cons.2 ⟨rfl, isNumeral_ofNat _⟩
    · exact isNumeral_ofNat _
  | double negative d =>
    rw [JsonNumber.render, List.forall_mem_append]
    constructor
    · cases negative <;> exact List.all_eq_true.1 rfl
    · split_ifs
      · exact List.all_eq_true.1 rfl
      · exact isNumeral_style _ _

theorem hexDigit_ne : ∀ n < 16, hexDigit n ≠ '\\' ∧ hexDigit n ≠ '\n' ∧ hexDigit n ≠ '"' := by decide

/-- An escaped character stays in its string, and it is no line feed. -/
theorem staysQuoted_escapeChar (c : Char) : StaysQuoted '"' (escapeChar c) ∧ '\n' ∉ escapeChar c := by
  have hdigit : ∀ n < 16, StaysQuoted '"' [hexDigit n] := fun n hn =>
    .char (hexDigit_ne n hn).1 (hexDigit_ne n hn).2.1 (hexDigit_ne n hn).2.2
  have hzero : StaysQuoted '"' ['0'] := .char (by decide) (by decide) (by decide)
  rw [escapeChar]
  split_ifs with h1 h2 h3 h4 h5 h6 h7 h8
  · exact ⟨.escaped '"', by decide⟩
  · exact ⟨.escaped '\\', by decide⟩
  · exact ⟨.escaped 'b', by decide⟩
  · exact ⟨.escaped 'f', by decide⟩
  · exact ⟨.escaped 'n', by decide⟩
  · exact ⟨.escaped 'r', by decide⟩
  · exact ⟨.escaped 't', by decide⟩
  · have hhigh : c.toNat / 16 < 16 := by omega
    have hlow : c.toNat % 16 < 16 := by omega
    refine ⟨(StaysQuoted.escaped 'u').append (hzero.append (hzero.append
      ((hdigit _ hhigh).append (hdigit _ hlow)))), ?_⟩
    simp [(hexDigit_ne _ hhigh).2.1.symm, (hexDigit_ne _ hlow).2.1.symm]
  · exact ⟨.char h2 h5 h1, by simpa using Ne.symm h5⟩

theorem newline_not_mem_quoteString (t : Text) : '\n' ∉ quoteString t := by
  intro h
  simp only [quoteString, List.cons_append, List.mem_cons, List.mem_append, List.mem_flatMap,
    List.not_mem_nil, or_false] at h
  rcases h with h | ⟨c, -, hc⟩ | h
  · cases h
  · exact (staysQuoted_escapeChar c).2 hc
  · cases h

/-- A token that is no bracket is written without a line feed, in plain characters or as a string. -/
theorem render_cases {token : Token} (ho : token.opens = false) (hc : token.closes = false) :
    (∀ c ∈ token.render, isPlain c = true ∧ c ≠ '\n') ∨ ∃ t, token.render = quoteString t := by
  have hword : ∀ {w : Text}, (w.all fun c => isPlain c && c != '\n') = true →
      ∀ c ∈ w, isPlain c = true ∧ c ≠ '\n' := by
    intro w hw c hc
    simpa using List.all_eq_true.1 hw c hc
  cases token with
  | openBrace | openBracket => cases ho
  | closeBrace | closeBracket => cases hc
  | comma | colon => exact .inl (hword rfl)
  | null => exact .inl (hword (by decide))
  | bool b => cases b <;> exact .inl (hword (by decide))
  | number n =>
    cases n with
    | none => exact .inl (hword rfl)
    | some n =>
      refine .inl fun c hc => ?_
      have h := isNumeral_render n c hc
      exact ⟨isPlain_of_isNumeral h, by rintro rfl; cases h⟩
  | string s =>
    cases s with
    | none => exact .inl (hword rfl)
    | some s => exact .inr ⟨s, rfl⟩

theorem exists_opener {token : Token} (h : token.opens = true) :
    ∃ c, token.render = [c] ∧ isOpener c = true := by
  simp only [Token.opens, Bool.or_eq_true, decide_eq_true_eq] at h
  rcases h with rfl | rfl <;> exact ⟨_, rfl, rfl⟩

theorem exists_closer {token : Token} (h : token.closes = true) :
    ∃ c, token.render = [c] ∧ isCloser c = true := by
  simp only [Token.closes, Bool.or_eq_true, decide_eq_true_eq] at h
  rcases h with rfl | rfl <;> exact ⟨_, rfl, rfl⟩

theorem newline_not_mem_render (token : Token) : '\n' ∉ token.render := by
  intro h
  cases ho : token.opens with
  | true =>
    obtain ⟨c, hr, hc⟩ := exists_opener ho
    rw [hr, List.mem_singleton] at h
    rw [← h] at hc
    cases hc
  | false =>
    cases hc : token.closes with
    | true =>
      obtain ⟨c, hr, hc⟩ := exists_closer hc
      rw [hr, List.mem_singleton] at h
      rw [← h] at hc
      cases hc
    | false =>
      rcases render_cases ho hc with hp | ⟨t, ht⟩
      · exact (hp _ h).2 rfl
      · exact newline_not_mem_quoteString t (ht ▸ h)

/-! ### Scanning -/

/-- Marks inside an enclosure whose inside has depth `depth`: none of them closes it. -/
def IsInside (depth : Nat) (ms : List Mark) : Prop :=
  ∀ m ∈ ms, depth ≤ m.depth ∧ Script.closes depth m = false

namespace IsInside

variable {depth : Nat}

theorem append {a b : List Mark} (ha : IsInside depth a) (hb : IsInside depth b) :
    IsInside depth (a ++ b) := by
  intro m hm
  rcases List.mem_append.1 hm with hm | hm
  · exact ha m hm
  · exact hb m hm

theorem codeMarks {w : Text} (hw : ∀ c ∈ w, isCloser c = false) :
    IsInside depth (codeMarks depth w) := by
  intro m hm
  obtain ⟨c, hc, rfl⟩ := List.mem_map.1 hm
  exact ⟨Nat.le_refl _, by simp [Script.closes, hw c hc]⟩

theorem literalMarks (w : Text) : IsInside depth (literalMarks depth w) := by
  intro m hm
  obtain ⟨c, -, rfl⟩ := List.mem_map.1 hm
  exact ⟨Nat.le_refl _, by simp [Script.closes, Mark.isCode]⟩

/-- What is inside a bracket is inside the enclosure around it. -/
theorem deeper {ms : List Mark} (h : IsInside (depth + 1) ms) : IsInside depth ms := by
  intro m hm
  obtain ⟨hle, -⟩ := h m hm
  refine ⟨by omega, ?_⟩
  have hne : m.depth ≠ depth := by omega
  simp [Script.closes, hne]

end IsInside

theorem isCloser_of_isPlain {c : Char} (h : isPlain c = true) : isCloser c = false := by
  simp only [isPlain, Bool.not_eq_true', Bool.or_eq_false_iff] at h
  exact h.2

/-- Blanks behind a token. -/
theorem scans_blanks {b : Text} (hb : ∀ c ∈ b, c = ' ' ∨ c = '\n') (st : List Enclosure) :
    Scans st b (codeMarks st.length b) st ∧ IsInside st.length (codeMarks st.length b) := by
  have hplain : ∀ c ∈ b, isPlain c = true := by
    intro c hc
    rcases hb c hc with rfl | rfl <;> rfl
  exact ⟨.plain hplain st, .codeMarks fun c hc => isCloser_of_isPlain (hplain c hc)⟩

/-- A group of tokens between two brackets, of which the inside is scanned as expected. -/
theorem exists_scans_group {o c : Token} {tokens : List Token} (ho : o.opens = true)
    (hc : c.closes = true) {t : Text} (ht : Spells (o :: tokens ++ [c]) t) (st : List Enclosure)
    (ih : ∀ {u : Text}, Spells tokens u → ∀ st : List Enclosure,
      ∃ ms, Scans st u ms st ∧ IsInside st.length ms) :
    ∃ ms, Scans st t ms st ∧ IsInside st.length ms ∧ ∀ m ∈ ms, isComma m = false := by
  obtain ⟨b, u, rfl, hb, hu⟩ := ht.uncons
  obtain ⟨v, v', rfl, hv, hv'⟩ := hu.of_append
  obtain ⟨b', u', rfl, hb', hu'⟩ := hv'.uncons
  cases hu'
  obtain ⟨x, hx, hopener⟩ := exists_opener ho
  obtain ⟨y, hy, hcloser⟩ := exists_closer hc
  obtain ⟨ms, hs, hi⟩ := ih hv (.bracket :: st)
  obtain ⟨hblank, hinside⟩ := scans_blanks hb (.bracket :: st)
  obtain ⟨hblank', hinside'⟩ := scans_blanks hb' st
  have hbracket : Script.isCloser x = false := by
    simp only [isOpener, Bool.or_eq_true, decide_eq_true_eq] at hopener
    rcases hopener with (rfl | rfl) | rfl <;> rfl
  have hclose : IsInside st.length (Script.codeMarks (st.length + 1) [y]) := by
    intro m hm
    rw [List.mem_singleton.1 hm]
    exact ⟨Nat.le_succ _, by simp [Script.closes]⟩
  rw [hx, hy, List.append_nil]
  refine ⟨_, ((Scans.opener hopener st).append hblank).append
    (hs.append ((Scans.closer hcloser st).append hblank')), ?_, ?_⟩
  · exact (IsInside.append (.codeMarks (by simpa using hbracket)) hinside.deeper).append
      (hi.deeper.append (hclose.append hinside'))
  · -- every comma stands between the brackets
    have hcode : ∀ {d : Nat} {w : Text}, ',' ∉ w → ∀ m ∈ Script.codeMarks d w, isComma m = false := by
      intro d w hw m hm
      obtain ⟨c, hc, rfl⟩ := List.mem_map.1 hm
      have hne : c ≠ ',' := fun he => hw (he ▸ hc)
      simp [isComma, hne]
    have hno : ∀ {w : Text}, (∀ c ∈ w, c = ' ' ∨ c = '\n') → ',' ∉ w := by
      intro w hw hin
      rcases hw _ hin with h | h <;> cases h
    have hinner : ∀ m ∈ ms, isComma m = false := by
      intro m hm
      have hd : m.depth ≠ 0 := by
        have := (hi m hm).1
        rw [List.length_cons] at this
        omega
      simp [isComma, Mark.isTopLevel, hd]
    have hx' : ',' ∉ [x] := by
      rw [List.mem_singleton]
      rintro rfl
      cases hopener
    have hy' : ',' ∉ [y] := by
      rw [List.mem_singleton]
      rintro rfl
      cases hcloser
    simp only [List.forall_mem_append]
    exact ⟨⟨hcode hx', hcode (hno hb)⟩, hinner, hcode hy', hcode (hno hb')⟩

/-- **Behind tokens whose brackets match** the script is in code again, and nothing that was open
before is closed. -/
theorem Nested.scans {tokens : List Token} (h : Nested tokens) {t : Text} (ht : Spells tokens t)
    (st : List Enclosure) : ∃ ms, Scans st t ms st ∧ IsInside st.length ms := by
  induction h generalizing t st with
  | nil =>
    cases ht
    exact ⟨[], .plain (by simp) st, by simp [IsInside]⟩
  | single opens closes =>
    obtain ⟨b, u, rfl, hb, hu⟩ := ht.uncons
    cases hu
    obtain ⟨hblank, hinside⟩ := scans_blanks hb st
    rw [List.append_nil]
    rcases render_cases opens closes with hp | ⟨s, hs⟩
    · exact ⟨_, (Scans.plain (fun c hc => (hp c hc).1) st).append hblank,
        .append (.codeMarks fun c hc => isCloser_of_isPlain (hp c hc).1) hinside⟩
    · rw [hs]
      have hstays : StaysQuoted '"' (s.flatMap escapeChar) :=
        .flatMap (fun c => (staysQuoted_escapeChar c).1) s
      exact ⟨_, (Scans.quoted (.inr rfl) hstays st).append hblank, .append (.literalMarks _) hinside⟩
  | append _ _ ihl ihr =>
    obtain ⟨u, u', rfl, hu, hu'⟩ := ht.of_append
    obtain ⟨ms, hs, hi⟩ := ihl hu st
    obtain ⟨ms', hs', hi'⟩ := ihr hu' st
    exact ⟨_, hs.append hs', hi.append hi'⟩
  | group opens _ closes ih =>
    obtain ⟨ms, hs, hi, -⟩ := exists_scans_group opens closes ht st ih
    exact ⟨ms, hs, hi⟩

/-- **A written object** leaves the script where it was, and all its commas stand inside a bracket. -/
theorem exists_scans_object {fields : List (Text × Json)} {t : Text}
    (ht : Spells (toTokens (.object fields)) t) (st : List Enclosure) :
    ∃ ms, Scans st t ms st ∧ IsInside st.length ms ∧ ∀ m ∈ ms, isComma m = false :=
  exists_scans_group rfl rfl ht st (nested_fieldTokens fields).scans

end ElementModules.Json
