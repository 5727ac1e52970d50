import ElementModules.Json.Reader
import ElementModules.Proofs.Json.Scanning

/-!
# Reading back what was written

A written value is read back as it was, whatever blanks stand between its tokens, as long as no
number occurs in it. Two facts make it up. The text of a token says where the token ends, so the
tokens of a text that spells them are found again (`tokens?_of_spells`). And the tokens of a value
take the reader from any state that expects a value to the state behind that value
(`Textual.run_toTokens`).

## Main results

* `Legible.token?_render`: the token in front of a text.
* `Textual.run_toTokens`: reading the tokens of a value.
* `Textual.parse?_of_spells`, `Textual.parse?_compact`, `Textual.parse?_pretty`: reading a text of
  a value.
-/

namespace ElementModules.Json

open Text

/-! ### Strings -/

theorem stringItems_quote (t : Text) : stringItems ('"' :: t) = some ([], t) := by
  cases t with
  | nil => simp [stringItems]
  | cons e t => rw [stringItems.eq_def]; rfl

/-- A character that stands for itself. -/
theorem stringItems_cons {c : Char} (hq : c ≠ '"') (hb : c ≠ '\\') (hc : ¬ c.toNat < 0x20) {t : Text}
    (ht : t ≠ []) :
    stringItems (c :: t) = (stringItems t).map fun p => (.char c :: p.1, p.2) := by
  obtain ⟨e, t, rfl⟩ := List.exists_cons_of_ne_nil ht
  rw [stringItems.eq_def]
  dsimp only
  rw [if_neg hq, if_neg hb, if_neg hc]
  cases stringItems (e :: t) <;> rfl

/-- A character behind a backslash. -/
theorem stringItems_short {e d : Char} (hu : e ≠ 'u') (hd : shortEscape? e = some d) (t : Text) :
    stringItems ('\\' :: e :: t) = (stringItems t).map fun p => (.char d :: p.1, p.2) := by
  rw [stringItems.eq_def]
  dsimp only
  rw [if_neg (by decide), if_pos rfl, if_neg hu, hd]
  cases stringItems t <;> rfl

theorem hexValue?_hexDigit : ∀ n < 16, hexValue? (hexDigit n) = some n := by decide

/-- A character below 32 behind its code. -/
theorem stringItems_unit {n : Nat} (hn : n < 0x20) (t : Text) :
    stringItems ('\\' :: 'u' :: '0' :: '0' :: hexDigit (n / 16) :: hexDigit (n % 16) :: t)
      = (stringItems t).map fun p => (.unit n :: p.1, p.2) := by
  have hunit : hexUnit? '0' '0' (hexDigit (n / 16)) (hexDigit (n % 16)) = some n := by
    simp only [hexUnit?, hexValue?_hexDigit _ (show n / 16 < 16 by omega),
      hexValue?_hexDigit _ (show n % 16 < 16 by omega), show hexValue? '0' = some 0 from rfl,
      Option.pure_def, Option.bind_eq_bind, Option.bind_some, Option.some.injEq]
    omega
  rw [stringItems, if_neg (by decide), if_pos rfl, if_pos rfl, hunit]
  cases stringItems t <;> rfl

theorem joinItems_unit {n : Nat} (hn : n < 0x20) (items : List StringItem) :
    joinItems (.unit n :: items) = (joinItems items).map (Char.ofNat n :: ·) := by
  have hhigh : isHighSurrogate n = false := by
    simp only [isHighSurrogate, Bool.and_eq_false_iff, decide_eq_false_iff_not]
    omega
  have hlow : isLowSurrogate n = false := by
    simp only [isLowSurrogate, Bool.and_eq_false_iff, decide_eq_false_iff_not]
    omega
  rw [joinItems.eq_def]
  simp [hhigh, hlow]

/-- **An escaped character** is one item, and the item is that character. -/
theorem exists_item (c : Char) {t : Text} (ht : t ≠ []) :
    ∃ item, stringItems (escapeChar c ++ t)
        = (stringItems t).map (fun p => (item :: p.1, p.2))
      ∧ ∀ items, joinItems (item :: items) = (joinItems items).map (c :: ·) := by
  rw [escapeChar]
  split_ifs with h1 h2 h3 h4 h5 h6 h7 h8
  · exact ⟨.char '"', stringItems_short (by decide) rfl t, fun _ => h1 ▸ rfl⟩
  · exact ⟨.char '\\', stringItems_short (by decide) rfl t, fun _ => h2 ▸ rfl⟩
  · exact ⟨.char '\x08', stringItems_short (by decide) rfl t, fun _ => h3 ▸ rfl⟩
  · exact ⟨.char '\x0c', stringItems_short (by decide) rfl t, fun _ => h4 ▸ rfl⟩
  · exact ⟨.char '\n', stringItems_short (by decide) rfl t, fun _ => h5 ▸ rfl⟩
  · exact ⟨.char '\r', stringItems_short (by decide) rfl t, fun _ => h6 ▸ rfl⟩
  · exact ⟨.char '\t', stringItems_short (by decide) rfl t, fun _ => h7 ▸ rfl⟩
  · refine ⟨.unit c.toNat, stringItems_unit h8 t, fun items => ?_⟩
    rw [joinItems_unit h8, Char.ofNat_toNat]
  · exact ⟨.char c, stringItems_cons h1 h2 h8 ht, fun _ => rfl⟩

/-- The items of a written string are its text, and they end where the string does. -/
theorem exists_stringItems (s rest : Text) :
    ∃ items, stringItems (s.flatMap escapeChar ++ '"' :: rest) = some (items, rest)
      ∧ joinItems items = some s := by
  induction s with
  | nil => exact ⟨[], stringItems_quote rest, rfl⟩
  | cons c s ih =>
    obtain ⟨items, hitems, hjoin⟩ := ih
    obtain ⟨item, hitem, hcons⟩ := exists_item c (t := s.flatMap escapeChar ++ '"' :: rest) (by simp)
    refine ⟨item :: items, ?_, by rw [hcons, hjoin]; rfl⟩
    rw [List.flatMap_cons, List.append_assoc, hitem, hitems]
    rfl

/-! ### Tokens -/

/-- A token that is told by its text: no number, and a string with a value. -/
inductive Legible : Token → Prop
  | openBrace : Legible .openBrace
  | closeBrace : Legible .closeBrace
  | openBracket : Legible .openBracket
  | closeBracket : Legible .closeBracket
  | comma : Legible .comma
  | colon : Legible .colon
  | null : Legible .null
  | bool (b : Bool) : Legible (.bool b)
  | string (s : Text) : Legible (.string (some s))

/-- **The token in front** of a text is the one that was written there. -/
theorem Legible.token?_render {token : Token} (h : Legible token) (rest : Text) :
    token? (token.render ++ rest) = some (token, rest) := by
  cases h with
  | bool b => cases b <;> rfl
  | string s =>
    obtain ⟨items, hitems, hjoin⟩ := exists_stringItems s rest
    have hrender : (Token.string (some s)).render ++ rest
        = '"' :: (s.flatMap escapeChar ++ '"' :: rest) := by
      simp [Token.render, quoteString]
    rw [hrender, token?]
    simp [hitems, hjoin]
  | _ => rfl

/-- The text of a token does not start with a blank. -/
theorem Legible.exists_render {token : Token} (h : Legible token) :
    ∃ c t, token.render = c :: t ∧ isSpace c = false := by
  cases h with
  | bool b => cases b <;> exact ⟨_, _, rfl, rfl⟩
  | _ => exact ⟨_, _, rfl, rfl⟩

theorem isSpace_of_blank {b : Text} (hb : ∀ c ∈ b, c = ' ' ∨ c = '\n') : ∀ c ∈ b, isSpace c = true := by
  intro c hc
  rcases hb c hc with rfl | rfl <;> rfl

theorem length_le_of_spells {tokens : List Token} (hl : ∀ token ∈ tokens, Legible token) {t : Text}
    (h : Spells tokens t) : tokens.length ≤ t.length := by
  induction h with
  | nil => exact Nat.le_refl _
  | cons token _ _ ih =>
    obtain ⟨c, r, hr, -⟩ := (hl token List.mem_cons_self).exists_render
    have := ih fun token ht => hl token (List.mem_cons_of_mem _ ht)
    simp only [hr, List.length_cons, List.length_append]
    omega

theorem tokensWithin_of_spells {tokens : List Token} (hl : ∀ token ∈ tokens, Legible token) {t : Text}
    (h : Spells tokens t) {b : Text} (hb : ∀ c ∈ b, c = ' ' ∨ c = '\n') {fuel : Nat}
    (hf : tokens.length < fuel) : tokensWithin fuel (b ++ t) = some tokens := by
  induction h generalizing b fuel with
  | nil =>
    obtain ⟨fuel, rfl⟩ := Nat.exists_eq_succ_of_ne_zero (show fuel ≠ 0 by omega)
    rw [tokensWithin, List.append_nil, List.dropWhile_eq_nil_iff.2 (isSpace_of_blank hb)]
  | @cons tokens t b' token blanks _ ih =>
    obtain ⟨fuel, rfl⟩ := Nat.exists_eq_succ_of_ne_zero (show fuel ≠ 0 by omega)
    have htoken := hl token List.mem_cons_self
    obtain ⟨c, r, hr, hc⟩ := htoken.exists_render
    have hdrop : (b ++ (token.render ++ b' ++ t)).dropWhile isSpace = c :: (r ++ (b' ++ t)) := by
      rw [List.dropWhile_append_of_pos (isSpace_of_blank hb), List.append_assoc, hr, List.cons_append,
        List.dropWhile_cons_of_neg (by simp [hc])]
    have hread : token? (c :: (r ++ (b' ++ t))) = some (token, b' ++ t) := by
      rw [← List.cons_append, ← hr]
      exact htoken.token?_render _
    have hrest := ih (fun token ht => hl token (List.mem_cons_of_mem _ ht)) blanks
      (show tokens.length < fuel by rw [List.length_cons] at hf; omega)
    rw [tokensWithin, hdrop]
    simp [hread, hrest]

/-- **The tokens of a text** are the ones that it spells. -/
theorem tokens?_of_spells {tokens : List Token} (hl : ∀ token ∈ tokens, Legible token) {t : Text}
    (h : Spells tokens t) : tokens? t = some tokens :=
  tokensWithin_of_spells hl h (b := []) (by simp) (Nat.lt_succ_of_le (length_le_of_spells hl h))

theorem spells_flatMap (tokens : List Token) : Spells tokens (tokens.flatMap Token.render) := by
  induction tokens with
  | nil => exact .nil
  | cons token tokens ih => simpa using Spells.cons token (b := []) (by simp) ih

/-! ### Values -/

/-- A value of words, strings, arrays and objects: no number occurs in it, and it can be read. -/
inductive Textual : Json → Prop
  | null : Textual .null
  | bool (b : Bool) : Textual (.bool b)
  | string (s : Text) : Textual (.string s)
  | array {items : List Json} (h : ∀ v ∈ items, Textual v) : Textual (.array items)
  | object {fields : List (Text × Json)} (h : ∀ f ∈ fields, Textual f.2) : Textual (.object fields)

/-- What holds of the tokens between the items and of the tokens of every item holds of all tokens of
the items. -/
theorem forall_mem_itemTokens {p : Token → Prop} (hcomma : p .comma) {items : List Json}
    (h : ∀ v ∈ items, ∀ token ∈ v.toTokens, p token) : ∀ token ∈ itemTokens items, p token := by
  induction items with
  | nil => simp [itemTokens]
  | cons v items ih =>
    obtain ⟨hv, hitems⟩ := List.forall_mem_cons.1 h
    cases items with
    | nil => exact hv
    | cons w items =>
      rw [itemTokens, List.forall_mem_append, List.forall_mem_cons]
      exact ⟨hv, hcomma, ih hitems⟩

theorem forall_mem_fieldTokens {p : Token → Prop} (hcomma : p .comma) (hcolon : p .colon)
    (hkey : ∀ key, p (.string (some key))) {fields : List (Text × Json)}
    (h : ∀ f ∈ fields, ∀ token ∈ f.2.toTokens, p token) : ∀ token ∈ fieldTokens fields, p token := by
  induction fields with
  | nil => simp [fieldTokens]
  | cons f fields ih =>
    obtain ⟨hf, hfields⟩ := List.forall_mem_cons.1 h
    cases fields with
    | nil =>
      rw [fieldTokens, List.forall_mem_cons, List.forall_mem_cons]
      exact ⟨hkey _, hcolon, hf⟩
    | cons g fields =>
      rw [fieldTokens, List.cons_append, List.cons_append, List.forall_mem_cons, List.forall_mem_cons,
        List.forall_mem_append, List.forall_mem_cons]
      exact ⟨hkey _, hcolon, hf, hcomma, ih hfields⟩

theorem Textual.legible {v : Json} (h : Textual v) : ∀ token ∈ v.toTokens, Legible token := by
  induction h with
  | null => exact List.forall_mem_singleton.2 .null
  | bool b => exact List.forall_mem_singleton.2 (.bool b)
  | string s => exact List.forall_mem_singleton.2 (.string s)
  | array _ ih =>
    rw [toTokens, List.cons_append, List.forall_mem_cons, List.forall_mem_append,
      List.forall_mem_singleton]
    exact ⟨.openBracket, forall_mem_itemTokens .comma ih, .closeBracket⟩
  | object _ ih =>
    rw [toTokens, List.cons_append, List.forall_mem_cons, List.forall_mem_append,
      List.forall_mem_singleton]
    exact ⟨.openBrace, forall_mem_fieldTokens .comma .colon .string ih, .closeBrace⟩

/-- A value does not start with a bracket that closes. -/
theorem exists_toTokens (v : Json) : ∃ token tokens, v.toTokens = token :: tokens
    ∧ token.closes = false := by
  cases v <;> exact ⟨_, _, rfl, rfl⟩

namespace Reader

theorem run_cons (r : Reader) (token : Token) (tokens : List Token) :
    r.run (token :: tokens) = (r.step token).bind fun r => r.run tokens := rfl

/-- The first item of an array is read as any other. -/
theorem run_first (done : List Json) (stack : List Unfinished) (v : Json) (rest : List Token) :
    (first (.items done) stack).run (v.toTokens ++ rest)
      = (value (.items done :: stack)).run (v.toTokens ++ rest) := by
  obtain ⟨token, tokens, htokens, hcloses⟩ := exists_toTokens v
  rw [htokens, List.cons_append, run_cons, run_cons]
  cases token with
  | closeBracket => cases hcloses
  | _ => rfl

variable {stack : List Unfinished}

/-- Reading items that are each read to their end. -/
theorem run_itemTokens {v : Json} {items : List Json}
    (h : ∀ w ∈ v :: items, ∀ stack, (value stack).run w.toTokens = complete w stack)
    (done : List Json) :
    (value (.items done :: stack)).run (itemTokens (v :: items))
      = some (.next (.items ((v :: items).reverse ++ done)) stack) := by
  induction items generalizing v done with
  | nil => simpa [itemTokens, complete] using h v List.mem_cons_self (.items done :: stack)
  | cons w items ih =>
    obtain ⟨hv, hitems⟩ := List.forall_mem_cons.1 h
    rw [itemTokens, run_append, hv, complete, Option.bind_some, run_cons, step, Option.bind_some,
      ih hitems]
    simp

/-- Reading fields whose values are each read to their end. -/
theorem run_fieldTokens {f : Text × Json} {fields : List (Text × Json)}
    (h : ∀ g ∈ f :: fields, ∀ stack, (value stack).run g.2.toTokens = complete g.2 stack)
    (done : List (Option Text × Json)) :
    (nextKey done stack).run (fieldTokens (f :: fields))
      = some (.next (.fields (((f :: fields).map fun g => (some g.1, g.2)).reverse ++ done)) stack) := by
  induction fields generalizing f done with
  | nil =>
    have hf := h f List.mem_cons_self (.field done (some f.1) :: stack)
    simpa [fieldTokens, run_cons, step, complete] using hf
  | cons g fields ih =>
    obtain ⟨hf, hfields⟩ := List.forall_mem_cons.1 h
    rw [fieldTokens, List.cons_append, List.cons_append, run_cons, step, Option.bind_some, run_cons,
      step, Option.bind_some, run_append, hf, complete, Option.bind_some, run_cons, step,
      Option.bind_some, ih hfields]
    simp

end Reader

theorem objectOf_reverse (fields : List (Text × Json)) :
    objectOf (fields.map fun f => (some f.1, f.2)).reverse = .object fields := by
  have hkeys : (fields.map fun f => (some f.1, f.2)).mapM
      (fun f : Option Text × Json => f.1.map fun key => (key, f.2)) = some fields := by
    induction fields with
    | nil => rfl
    | cons f fields ih => simp [ih]
  rw [objectOf, List.reverse_reverse, hkeys]

/-- **The tokens of a value** lead the reader behind that value. -/
theorem Textual.run_toTokens {v : Json} (h : Textual v) (stack : List Unfinished) :
    (Reader.value stack).run v.toTokens = Reader.complete v stack := by
  induction h generalizing stack with
  | null | bool | string => simp [toTokens, Reader.run, Reader.step, Reader.begin]
  | @array items _ ih =>
    have hopen : (Reader.value stack).run (toTokens (.array items))
        = (Reader.first (.items []) stack).run (itemTokens items ++ [.closeBracket]) := rfl
    rw [hopen]
    cases items with
    | nil => simp [itemTokens, Reader.run, Reader.step, Reader.close]
    | cons v items =>
      have hfirst : (Reader.first (.items []) stack).run (itemTokens (v :: items) ++ [.closeBracket])
          = (Reader.value (.items [] :: stack)).run (itemTokens (v :: items) ++ [.closeBracket]) := by
        cases items with
        | nil => exact Reader.run_first [] stack v _
        | cons w items =>
          rw [itemTokens, List.append_assoc]
          exact Reader.run_first [] stack v _
      rw [hfirst, Reader.run_append, Reader.run_itemTokens ih []]
      simp [Reader.run, Reader.step, Reader.close]
  | @object fields _ ih =>
    have hopen : (Reader.value stack).run (toTokens (.object fields))
        = (Reader.first (.fields []) stack).run (fieldTokens fields ++ [.closeBrace]) := rfl
    rw [hopen]
    cases fields with
    | nil => simp [fieldTokens, Reader.run, Reader.step, Reader.close, objectOf]
    | cons f fields =>
      -- a key is read alike in the first place and in any other
      have hfirst : (Reader.first (.fields []) stack).run (fieldTokens (f :: fields) ++ [.closeBrace])
          = (Reader.nextKey [] stack).run (fieldTokens (f :: fields) ++ [.closeBrace]) := by
        cases fields <;> rfl
      rw [hfirst, Reader.run_append, Reader.run_fieldTokens ih [], List.append_nil]
      simp only [Option.bind_some, Reader.run_cons, Reader.step, Reader.close, objectOf_reverse]
      cases Reader.complete (.object (f :: fields)) stack <;> rfl

/-- **A text of a value** is read as that value, whatever blanks it has. -/
theorem Textual.parse?_of_spells {v : Json} (h : Textual v) {t : Text} (ht : Spells v.toTokens t) :
    parse? t = some v := by
  have hrun : ofTokens? v.toTokens = some v := by
    rw [ofTokens?, h.run_toTokens]
    rfl
  rw [parse?, tokens?_of_spells h.legible ht, Option.bind_some, hrun]

theorem Textual.parse?_compact {v : Json} (h : Textual v) : parse? v.compact = some v :=
  h.parse?_of_spells (spells_flatMap _)

theorem Textual.parse?_pretty {v : Json} (h : Textual v) : parse? v.pretty = some v :=
  h.parse?_of_spells (spells_layered 0 _)

end ElementModules.Json
