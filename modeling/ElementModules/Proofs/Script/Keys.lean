import ElementModules.Proofs.Prefixes
import ElementModules.Proofs.Script.Heads
import ElementModules.Script.Field

/-!
# Reading keys

The key and the kind of a field are read off the first characters of its content: a spread, a word in
front of a method name, or a key and the first character behind it that is no blank. How many blanks
stand between the tokens does not matter (`keyOf_headView`), as long as the key is no quoted string,
and neither does a line feed at the end of the field (`keyOf_append_newline`).

## Main results

* `keyOf_eq`: what decides the key and the kind.
* `keyOf_headView`: a key that is a name is read off the view of its text.
* `keyOf_append_newline`: a line feed at the end does not matter.
-/

namespace ElementModules.Script

open Text

/-- The key and the kind of a field that starts with its content. -/
def keyOf (t : Text) : Option Text × FieldKind := ((readField t).1, (readField t).2.1)

/-- The kind of a field with a key, from the first character behind the key that is no blank. -/
def kindBehind : Option Char → FieldKind
  | none => .property
  | some c => if c = ':' then .property else if c = '(' then .method else .other

/-- **What decides the key and the kind.** -/
theorem keyOf_eq (t : Text) :
    keyOf t = if startsWith t "..." then (none, .spread) else
      match modifiedMethod? t with
      | some name => (some name, .method)
      | none => match (Token.name? t).or (Token.quoted? t) with
        | none => (none, .other)
        | some (key, rest) => (some key, kindBehind (Token.blanks rest).head?) := by
  rw [keyOf, readField]
  cases startsWith t "..." with
  | true => rfl
  | false =>
    cases modifiedMethod? t with
    | some name => rfl
    | none =>
      cases (Token.name? t).or (Token.quoted? t) with
      | none => rfl
      | some r =>
        cases hb : Token.blanks r.2 with
        | nil => simp [hb, kindBehind]
        | cons c u =>
          simp only [hb, Bool.false_eq_true, if_false, List.head?_cons, kindBehind]
          split_ifs <;> rfl

theorem Token.char?_isSome (c : Char) (t : Text) :
    (Token.char? c t).isSome = decide (t.head? = some c) := by
  cases t with
  | nil => rfl
  | cons d t =>
    rw [Token.char?]
    split <;> simp_all

/-- The name behind a word that may stand in front of a method, if a parenthesis follows. -/
def methodBehind? (t : Text) : Option Text :=
  ((Token.someBlanks? t).bind Token.name?).bind fun r =>
    if (Token.blanks r.2).head? = some '(' then some r.1 else none

theorem modifiedMethod?_eq (t : Text) : modifiedMethod? t
    = (["async", "get", "set"] : List Text).findSome? fun modifier =>
      (Token.word? modifier t).bind methodBehind? := by
  rw [modifiedMethod?]
  congr 1
  funext modifier
  cases Token.word? modifier t with
  | none => rfl
  | some rest =>
    cases hb : Token.someBlanks? rest with
    | none => simp [methodBehind?, hb]
    | some u =>
      cases hn : Token.name? u with
      | none => simp [methodBehind?, hb, hn]
      | some r =>
        have hsome := Token.char?_isSome '(' (Token.blanks r.2)
        cases hc : Token.char? '(' (Token.blanks r.2) with
        | none =>
          rw [hc, Option.isSome_none] at hsome
          simp [methodBehind?, hb, hn, hc, of_decide_eq_false hsome.symm]
        | some v =>
          rw [hc, Option.isSome_some] at hsome
          simp [methodBehind?, hb, hn, hc, of_decide_eq_true hsome.symm]

theorem mem_modifiers {modifier : Text} (h : modifier ∈ (["async", "get", "set"] : List Text)) :
    (∀ c ∈ modifier, IsHeadChar c) ∧ '\n' ∉ modifier := by
  have hall : ∀ modifier ∈ (["async", "get", "set"] : List Text),
      modifier.all (fun c => IsHeadChar c) = true ∧ '\n' ∉ modifier := by decide
  obtain ⟨hhead, hline⟩ := hall modifier h
  exact ⟨fun c hc => of_decide_eq_true (List.all_eq_true.1 hhead c hc), hline⟩

theorem findSome?_congr {α β : Type} {f g : α → Option β} {xs : List α}
    (h : ∀ x ∈ xs, f x = g x) : xs.findSome? f = xs.findSome? g := by
  induction xs with
  | nil => rfl
  | cons x xs ih =>
    rw [List.findSome?_cons, List.findSome?_cons, h x List.mem_cons_self,
      ih fun y hy => h y (List.mem_cons_of_mem x hy)]

/-! ### Views -/

/-- A view shows the first character behind the blanks. -/
theorem head?_blanks_headView (t : Text) (b : Bool) :
    (Token.blanks (headView b t)).head? = (Token.blanks t).head? := by
  rw [Token.blanks_headView t b false]
  cases hb : Token.blanks t with
  | nil => rfl
  | cons c r =>
    have hc : isAsciiBlank c = false := by
      have := List.head?_dropWhile_not isAsciiBlank t
      rw [show t.dropWhile isAsciiBlank = c :: r from hb] at this
      simpa using this
    rcases headChar_cases c with h | h | h
    · rw [hc] at h
      cases h
    · rw [headView_ends h]
      rfl
    · rw [headView_cons h]
      rfl

theorem methodBehind?_headView (t : Text) : methodBehind? (headView false t) = methodBehind? t := by
  rw [methodBehind?, methodBehind?, Token.someBlanks?_headView, Option.bind_map]
  cases Token.someBlanks? t with
  | none => rfl
  | some u =>
    simp only [Option.bind_some, Function.comp_apply, Token.name?_headView]
    cases Token.name? u with
    | none => rfl
    | some r => simp only [Option.map_some, Option.bind_some, head?_blanks_headView]

theorem modifiedMethod?_headView (t : Text) :
    modifiedMethod? (headView false t) = modifiedMethod? t := by
  rw [modifiedMethod?_eq, modifiedMethod?_eq]
  refine findSome?_congr fun modifier hm => ?_
  rw [Token.word?_headView (mem_modifiers hm).1, Option.bind_map]
  congr 1
  funext u
  exact methodBehind?_headView u

theorem startsWith_headView {w : Text} (hw : ∀ c ∈ w, IsHeadChar c) (t : Text) :
    startsWith (headView false t) w = startsWith t w := by
  have hdrop : ∀ u : Text, startsWith u w = (dropLeading? w u).isSome := by
    intro u
    rw [startsWith, dropLeading?]
    cases w.isPrefixOf u <;> rfl
  rw [hdrop, hdrop, Token.dropLeading?_headView hw, Option.isSome_map]

theorem Token.quoted?_eq_none {t : Text} (h : ∀ c ∈ t.head?, c ≠ '\'' ∧ c ≠ '"') :
    Token.quoted? t = none := by
  cases t with
  | nil => rfl
  | cons c t =>
    obtain ⟨h₁, h₂⟩ := h c rfl
    rw [Token.quoted?, if_neg (by simp [h₁, h₂])]

/-- **A key that is no string** is read off the view of its text. -/
theorem keyOf_headView {t : Text} (h : ∀ c ∈ t.head?, c ≠ '\'' ∧ c ≠ '"') :
    keyOf (headView false t) = keyOf t := by
  have hdots : ∀ c ∈ ("..." : Text), IsHeadChar c := List.all_iff_forall_prop.1 (by decide)
  have hview : ∀ c ∈ (headView false t).head?, c ≠ '\'' ∧ c ≠ '"' := by
    cases t with
    | nil => exact h
    | cons d u =>
      intro c hc
      rcases headChar_cases d with hd | hd | hd
      · rw [headView_blank hd] at hc
        obtain rfl := Option.some.inj hc
        exact ⟨by decide, by decide⟩
      · rw [headView_ends hd] at hc
        exact h c hc
      · rw [headView_cons hd] at hc
        exact h c hc
  rw [keyOf_eq, keyOf_eq, startsWith_headView hdots, modifiedMethod?_headView,
    Token.quoted?_eq_none h, Token.quoted?_eq_none hview, Token.name?_headView]
  cases Token.name? t with
  | none => rfl
  | some r => simp only [Option.map_some, Option.or_none, head?_blanks_headView]

/-! ### A line feed at the end -/

namespace Token

theorem word?_append_newline {w : Text} (hw : '\n' ∉ w) (t : Text) :
    word? w (t ++ ['\n']) = (word? w t).map (· ++ ['\n']) := by
  have hpre : w.isPrefixOf (t ++ ['\n']) = w.isPrefixOf t := isPrefixOf_append_of_not_mem hw t []
  have hname : ∀ u : Text, (u ++ ['\n']).head?.any isNameChar = u.head?.any isNameChar := by
    intro u
    cases u <;> rfl
  rw [word?, word?, dropLeading?, dropLeading?, hpre]
  split
  · rename_i hp
    have hle := (List.isPrefixOf_iff_prefix.1 hp).length_le
    rw [List.drop_append_of_le_length hle, Option.filter_some, Option.filter_some, hname]
    split <;> rfl
  · rfl

theorem name?_append_newline (t : Text) :
    name? (t ++ ['\n']) = (name? t).map fun r => (r.1, r.2 ++ ['\n']) := by
  have hn : isNameChar '\n' = false := rfl
  cases t with
  | nil => rfl
  | cons c t =>
    have htake : (t ++ ['\n']).takeWhile isNameChar = t.takeWhile isNameChar := by
      induction t with
      | nil => rfl
      | cons d t ih => rw [List.cons_append, List.takeWhile_cons, List.takeWhile_cons, ih]
    have hdrop : (t ++ ['\n']).dropWhile isNameChar = t.dropWhile isNameChar ++ ['\n'] := by
      rw [List.dropWhile_append]
      split <;> simp_all
    rw [List.cons_append, name?, name?, htake, hdrop]
    split <;> rfl

theorem blanks_append_newline (t : Text) :
    blanks (t ++ ['\n']) = if blanks t = [] then [] else blanks t ++ ['\n'] := by
  induction t with
  | nil => rfl
  | cons c t ih =>
    cases hc : isAsciiBlank c with
    | true =>
      have hdrop : ∀ u, blanks (c :: u) = blanks u := fun u => List.dropWhile_cons_of_pos hc
      rw [List.cons_append, hdrop, hdrop, ih]
    | false =>
      have hstop : ∀ u, blanks (c :: u) = c :: u := fun u =>
        List.dropWhile_cons_of_neg (by simp [hc])
      rw [List.cons_append, hstop, hstop, if_neg (List.cons_ne_nil c t), List.cons_append]

theorem head?_blanks_append_newline (t : Text) :
    (blanks (t ++ ['\n'])).head? = (blanks t).head? := by
  rw [blanks_append_newline]
  split
  · rename_i h
    rw [h]
  · rename_i h
    obtain ⟨c, u, hc⟩ := List.exists_cons_of_ne_nil h
    rw [hc]
    rfl

theorem someBlanks?_append_newline (t : Text) : (someBlanks? (t ++ ['\n'])).bind name?
    = ((someBlanks? t).bind name?).map fun r => (r.1, r.2 ++ ['\n']) := by
  cases t with
  | nil => rfl
  | cons c t =>
    rw [someBlanks?, someBlanks?, List.cons_append, List.head?_cons, List.head?_cons,
      ← List.cons_append]
    split
    · rw [Option.bind_some, Option.bind_some, blanks_append_newline]
      split
      · rename_i h
        rw [h]
        rfl
      · exact name?_append_newline _
    · rfl

/-- What is read up to the next quote of the same kind. -/
theorem quoted?_eq_some {q : Char} (hq : (q = '\'' || q = '"') = true) {a : Text} (ha : q ∉ a)
    (r : Text) : quoted? (q :: (a ++ q :: r)) = some (a, r) := by
  have hne : ∀ c ∈ a, (c != q) = true := by
    intro c hc
    have hne : c ≠ q := fun he => ha (he ▸ hc)
    simpa using hne
  have htake : (q :: r).takeWhile (· != q) = [] := List.takeWhile_cons_of_neg (by simp)
  have hdrop : (q :: r).dropWhile (· != q) = q :: r := List.dropWhile_cons_of_neg (by simp)
  have hmem : List.contains (a ++ q :: r) q = true := by simp
  rw [quoted?, hq, hmem, Bool.and_true, if_pos rfl, List.takeWhile_append_of_pos hne,
    List.dropWhile_append_of_pos hne, htake, hdrop, List.append_nil]
  rfl

theorem quoted?_append_newline (t : Text) :
    quoted? (t ++ ['\n']) = (quoted? t).map fun r => (r.1, r.2 ++ ['\n']) := by
  cases t with
  | nil => rfl
  | cons q t =>
    by_cases hq : (q = '\'' || q = '"') = true
    · by_cases ht : q ∈ t
      · obtain ⟨a, b, rfl, ha⟩ := List.eq_append_cons_of_mem ht
        rw [List.cons_append, List.append_assoc, List.cons_append, quoted?_eq_some hq ha,
          quoted?_eq_some hq ha]
        rfl
      · have hne : '\n' ≠ q := by
          rintro rfl
          cases hq
        have hno : List.contains t q = false := by simpa using ht
        have hno' : List.contains (t ++ ['\n']) q = false := by simp [ht, Ne.symm hne]
        rw [List.cons_append, quoted?, quoted?, hno, hno', Bool.and_false, if_neg (by simp)]
        rfl
    · rw [List.cons_append, quoted?, quoted?, if_neg (by simp [hq]), if_neg (by simp [hq])]
      rfl

end Token

theorem methodBehind?_append_newline (t : Text) :
    methodBehind? (t ++ ['\n']) = methodBehind? t := by
  rw [methodBehind?, methodBehind?, Token.someBlanks?_append_newline, Option.bind_map]
  congr 1
  funext r
  simp only [Function.comp_apply, Token.head?_blanks_append_newline]

/-- **A line feed at the end** does not matter. -/
theorem keyOf_append_newline (t : Text) : keyOf (t ++ ['\n']) = keyOf t := by
  have hspread : startsWith (t ++ ['\n']) "..." = startsWith t "..." :=
    isPrefixOf_append_of_not_mem (by decide) t []
  have hmethod : modifiedMethod? (t ++ ['\n']) = modifiedMethod? t := by
    rw [modifiedMethod?_eq, modifiedMethod?_eq]
    refine findSome?_congr fun modifier hm => ?_
    rw [Token.word?_append_newline (mem_modifiers hm).2, Option.bind_map]
    congr 1
    funext u
    exact methodBehind?_append_newline u
  have hkey : (Token.name? (t ++ ['\n'])).or (Token.quoted? (t ++ ['\n']))
      = ((Token.name? t).or (Token.quoted? t)).map fun r => (r.1, r.2 ++ ['\n']) := by
    rw [Token.name?_append_newline, Token.quoted?_append_newline]
    cases Token.name? t <;> rfl
  rw [keyOf_eq, keyOf_eq, hspread, hmethod, hkey]
  cases (Token.name? t).or (Token.quoted? t) with
  | none => rfl
  | some r => simp only [Option.map_some, Token.head?_blanks_append_newline]

end ElementModules.Script
