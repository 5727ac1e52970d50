import ElementModules.Script.Identifier
import ElementModules.Script.Literal
import Mathlib.Data.Bool.AllAny
import Mathlib.Data.List.TakeWhile

/-!
# Heads of bindings

The **head** of a binding is what stands in front of its opening brace: words, a name, an equals sign
and ASCII blanks. Reading a head never goes past the first brace, semicolon or slash and never counts
blanks. The **view** of a text keeps just what a head can depend on: it stops at the first of these
characters and puts one space for each run of ASCII blanks. Every token reader commutes with it, and
so does reading a head (`BindingStart.parse?_headView`).

## Main results

* `BindingStart.parse?_headView`: a head is read off the view of a text.
* `BindingStart.parse?_eq_some`: the brace of a head is the first one of its text, and what is bound
  is a name.
-/

namespace ElementModules.Script

open Text

/-! ### Views -/

/-- No head goes past these characters. -/
def endsHead (c : Char) : Bool := c = '\x7b' || c = ';' || c = '/'

/-- What the head of a binding can depend on; `afterBlank` tells whether a blank stands in front. -/
def headView (afterBlank : Bool) : Text → Text
  | [] => []
  | c :: t =>
    if isAsciiBlank c then if afterBlank then headView true t else ' ' :: headView true t
    else if endsHead c then [c] else c :: headView false t

/-- Behind the end of a head nothing is looked at. -/
theorem headView_append {u : Text} (h : ∃ c ∈ u, endsHead c = true) (r : Text) (b : Bool) :
    headView b (u ++ r) = headView b u := by
  induction u generalizing b with
  | nil => obtain ⟨c, hc, -⟩ := h; cases hc
  | cons c u ih =>
    simp only [List.cons_append, headView]
    by_cases hb : isAsciiBlank c = true
    · have hu : ∃ c ∈ u, endsHead c = true := by
        obtain ⟨d, hd, he⟩ := h
        rcases List.mem_cons.1 hd with rfl | hd
        · simp only [isAsciiBlank, endsHead, Bool.or_eq_true, decide_eq_true_eq] at hb he
          rcases he with (rfl | rfl) | rfl <;> simp at hb
        · exact ⟨d, hd, he⟩
      simp only [hb, if_true, ih hu]
    · by_cases he : endsHead c = true
      · simp [hb, he]
      · have hu : ∃ c ∈ u, endsHead c = true := by
          obtain ⟨d, hd, he'⟩ := h
          rcases List.mem_cons.1 hd with rfl | hd
          · exact absurd he' he
          · exact ⟨d, hd, he'⟩
        simp only [hb, he, Bool.false_eq_true, if_false, ih hu]

/-- A character that no view changes or stops at. -/
def IsHeadChar (c : Char) : Prop := isAsciiBlank c = false ∧ endsHead c = false

instance : DecidablePred IsHeadChar := fun _ => inferInstanceAs (Decidable (_ ∧ _))

theorem isAsciiBlank_of_endsHead {c : Char} (h : endsHead c = true) : isAsciiBlank c = false := by
  simp only [endsHead, Bool.or_eq_true, decide_eq_true_eq] at h
  rcases h with (rfl | rfl) | rfl <;> rfl

/-- A character is a blank, the end of a head, or one that views keep. -/
theorem headChar_cases (c : Char) :
    isAsciiBlank c = true ∨ endsHead c = true ∨ IsHeadChar c := by
  cases hb : isAsciiBlank c
  · cases he : endsHead c
    · exact .inr (.inr ⟨hb, he⟩)
    · exact .inr (.inl rfl)
  · exact .inl rfl

theorem isNameChar_of_isAsciiBlank {c : Char} (h : isAsciiBlank c = true) :
    Token.isNameChar c = false := by
  simp only [isAsciiBlank, Bool.or_eq_true, decide_eq_true_eq] at h
  rcases h with (((rfl | rfl) | rfl) | rfl) | rfl <;> decide

theorem isNameChar_of_endsHead {c : Char} (h : endsHead c = true) :
    Token.isNameChar c = false := by
  simp only [endsHead, Bool.or_eq_true, decide_eq_true_eq] at h
  rcases h with (rfl | rfl) | rfl <;> decide

theorem isHeadChar_of_isNameChar {c : Char} (h : Token.isNameChar c = true) : IsHeadChar c := by
  rcases headChar_cases c with hb | he | hc
  · simp [isNameChar_of_isAsciiBlank hb] at h
  · simp [isNameChar_of_endsHead he] at h
  · exact hc

theorem isNameChar_of_isNameStart {c : Char} (h : Token.isNameStart c = true) :
    Token.isNameChar c = true := by
  simp only [Token.isNameStart, Token.isNameChar, Char.isAlphanum, Bool.or_eq_true] at h ⊢
  rcases h with (h | h) | h <;> simp [h]

theorem headView_cons {c : Char} (h : IsHeadChar c) (b : Bool) (t : Text) :
    headView b (c :: t) = c :: headView false t := by
  simp [headView, h.1, h.2]

theorem headView_ends {c : Char} (h : endsHead c = true) (b : Bool) (t : Text) :
    headView b (c :: t) = [c] := by
  simp [headView, h, isAsciiBlank_of_endsHead h]

theorem headView_blank {c : Char} (h : isAsciiBlank c = true) (t : Text) :
    headView false (c :: t) = ' ' :: headView true t := by
  simp [headView, h]

theorem headView_true_blank {c : Char} (h : isAsciiBlank c = true) (t : Text) :
    headView true (c :: t) = headView true t := by
  simp [headView, h]

/-- A class of characters that does not tell blanks apart sees the first character in a view. -/
theorem head?_headView {p : Char → Bool} {b : Bool} (hp : ∀ c, isAsciiBlank c = true → p c = b)
    (t : Text) : (headView false t).head?.any p = t.head?.any p := by
  cases t with
  | nil => rfl
  | cons c t =>
    rcases headChar_cases c with h | h | h
    · simp [headView_blank h, hp c h, hp ' ' rfl]
    · simp [headView_ends h]
    · simp [headView_cons h]

/-! ### Readers of tokens -/

namespace Token

theorem dropLeading?_cons (a : Char) (w : Text) (c : Char) (t : Text) :
    dropLeading? (a :: w) (c :: t) = if a = c then dropLeading? w t else none := by
  by_cases h : a = c
  · subst h
    simp [dropLeading?]
  · simp [dropLeading?, h]

theorem dropLeading?_headView {w : Text} (hw : ∀ c ∈ w, IsHeadChar c) (t : Text) :
    dropLeading? w (headView false t) = (dropLeading? w t).map (headView false) := by
  induction w generalizing t with
  | nil => rfl
  | cons a w ih =>
    have ha : IsHeadChar a := hw a (by simp)
    have hw' : ∀ c ∈ w, IsHeadChar c := fun c hc => hw c (by simp [hc])
    cases t with
    | nil => rfl
    | cons c t =>
      rcases headChar_cases c with h | h | h
      · have h1 : a ≠ ' ' := by rintro rfl; simp [IsHeadChar, isAsciiBlank] at ha
        have h2 : a ≠ c := by rintro rfl; simp [IsHeadChar, h] at ha
        rw [headView_blank h, dropLeading?_cons, dropLeading?_cons, if_neg h1, if_neg h2]
        rfl
      · have h2 : a ≠ c := by rintro rfl; simp [IsHeadChar, h] at ha
        rw [headView_ends h, dropLeading?_cons, dropLeading?_cons, if_neg h2, if_neg h2]
        rfl
      · rw [headView_cons h, dropLeading?_cons, dropLeading?_cons]
        split
        · exact ih hw' t
        · rfl

theorem word?_headView {w : Text} (hw : ∀ c ∈ w, IsHeadChar c) (t : Text) :
    word? w (headView false t) = (word? w t).map (headView false) := by
  have hv : ∀ r, (headView false r).head?.any isNameChar = r.head?.any isNameChar :=
    head?_headView fun _ => isNameChar_of_isAsciiBlank
  rw [word?, word?, dropLeading?_headView hw, Option.filter_map]
  simp only [Function.comp_def, hv]

theorem takeWhile_headView (t : Text) :
    (headView false t).takeWhile isNameChar = t.takeWhile isNameChar := by
  induction t with
  | nil => rfl
  | cons c t ih =>
    rcases headChar_cases c with h | h | h
    · have h' : isNameChar ' ' = false := rfl
      simp [headView_blank h, isNameChar_of_isAsciiBlank h, h']
    · simp [headView_ends h, isNameChar_of_endsHead h]
    · rw [headView_cons h, List.takeWhile_cons, List.takeWhile_cons, ih]

theorem dropWhile_headView (t : Text) :
    (headView false t).dropWhile isNameChar = headView false (t.dropWhile isNameChar) := by
  induction t with
  | nil => rfl
  | cons c t ih =>
    rcases headChar_cases c with h | h | h
    · have h' : isNameChar ' ' = false := rfl
      simp [headView_blank h, isNameChar_of_isAsciiBlank h, h']
    · simp [headView_ends h, isNameChar_of_endsHead h]
    · rw [headView_cons h, List.dropWhile_cons, List.dropWhile_cons, ih]
      split
      · rfl
      · rw [headView_cons h]

theorem name?_headView (t : Text) :
    name? (headView false t) = (name? t).map fun r => (r.1, headView false r.2) := by
  have hs : ∀ {c}, isNameChar c = false → isNameStart c = false := by
    intro c h
    cases hc : isNameStart c
    · rfl
    · simp [isNameChar_of_isNameStart hc] at h
  cases t with
  | nil => rfl
  | cons c t =>
    rcases headChar_cases c with h | h | h
    · have h' : isNameStart ' ' = false := rfl
      simp [headView_blank h, name?, hs (isNameChar_of_isAsciiBlank h), h']
    · simp [headView_ends h, name?, hs (isNameChar_of_endsHead h)]
    · rw [headView_cons h, name?, name?, takeWhile_headView, dropWhile_headView]
      split <;> rfl

theorem blanks_headView (t : Text) (b b' : Bool) :
    blanks (headView b t) = headView b' (blanks t) := by
  induction t generalizing b with
  | nil => rfl
  | cons c t ih =>
    rcases headChar_cases c with h | h | h
    · have hb : blanks (c :: t) = blanks t := by simp [blanks, h]
      cases b
      · rw [headView_blank h, hb, ← ih true]
        rfl
      · rw [headView_true_blank h, hb, ih true]
    · have hb := isAsciiBlank_of_endsHead h
      simp [headView_ends h, blanks, hb]
    · simp [headView_cons h, blanks, h.1]

theorem someBlanks?_headView (t : Text) :
    someBlanks? (headView false t) = (someBlanks? t).map (headView false) := by
  have hv := head?_headView (p := isAsciiBlank) (b := true) (fun _ h => h) t
  rw [someBlanks?, someBlanks?, hv]
  split
  · rw [blanks_headView t false false]
    rfl
  · rfl

theorem char?_headView {c : Char} (hc : IsHeadChar c) (t : Text) :
    char? c (headView false t) = (char? c t).map (headView false) := by
  cases t with
  | nil => rfl
  | cons d t =>
    rcases headChar_cases d with h | h | h
    · have h1 : ' ' ≠ c := by rintro rfl; simp [IsHeadChar, isAsciiBlank] at hc
      have h2 : d ≠ c := by rintro rfl; simp [IsHeadChar, h] at hc
      simp [headView_blank h, char?, h1, h2]
    · have h2 : d ≠ c := by rintro rfl; simp [IsHeadChar, h] at hc
      simp [headView_ends h, char?, h2]
    · rw [headView_cons h, char?, char?]
      split <;> rfl

end Token

/-! ### Heads -/

theorem isHeadChar_word (k : Declarator) : ∀ c ∈ k.word, IsHeadChar c := by
  cases k <;> exact List.all_iff_forall_prop.1 (by decide)

theorem Declarator.parse?_headView (t : Text) :
    Declarator.parse? (headView false t)
      = (Declarator.parse? t).map fun r => (r.1, headView false r.2) := by
  simp only [Declarator.parse?, List.findSome?, Token.word?_headView (isHeadChar_word _)]
  cases Token.word? Declarator.const.word t <;> cases Token.word? Declarator.let.word t <;>
    cases Token.word? Declarator.var.word t <;> rfl

namespace BindingStart

/-- The word `export` in front of a binding, and what follows it. -/
def exportWord? (t : Text) : Option (Bool × Text) :=
  match Token.word? "export" t with
  | some rest => (Token.someBlanks? rest).map (true, ·)
  | none => some (false, t)

/-- The opening brace in front of a text. -/
def brace? (t : Text) : Option Text :=
  if t.head? = some '\x7b' then some t else none

/-- A head is read token by token. -/
theorem parse?_eq (t : Text) :
    parse? t = (exportWord? t).bind fun e => (Declarator.parse? e.2).bind fun k =>
      (Token.someBlanks? k.2).bind fun t => (Token.name? t).bind fun n =>
        (Token.char? '=' (Token.blanks n.2)).bind fun t =>
          (brace? (Token.blanks t)).map fun o => ⟨e.1, k.1, n.1, o⟩ := by
  have hb : ∀ (t : Text) (e : Bool) (k : Declarator) (n : Text),
      (brace? t).map (fun o => (⟨e, k, n, o⟩ : BindingStart))
        = if t.head? = some '\x7b' then some ⟨e, k, n, t⟩ else none := by
    intro t e k n
    rw [brace?]
    split <;> rfl
  simp only [hb]
  rw [parse?, exportWord?]
  cases Token.word? "export" t with
  | none => rfl
  | some rest => cases Token.someBlanks? rest <;> rfl

theorem exportWord?_headView (t : Text) :
    exportWord? (headView false t) = (exportWord? t).map fun r => (r.1, headView false r.2) := by
  have he : ∀ c ∈ ("export" : Text), IsHeadChar c := List.all_iff_forall_prop.1 (by decide)
  rw [exportWord?, exportWord?, Token.word?_headView he]
  cases Token.word? "export" t with
  | none => rfl
  | some rest =>
    simp only [Option.map_some, Token.someBlanks?_headView]
    cases Token.someBlanks? rest <;> rfl

theorem brace?_headView (t : Text) :
    brace? (headView false t) = (brace? t).map (headView false) := by
  have hv := head?_headView (p := (· = '\x7b')) (b := false)
    (by rintro c h; simp only [decide_eq_false_iff_not]; rintro rfl; simp [isAsciiBlank] at h) t
  have hp : ∀ u : Text, u.head? = some '\x7b' ↔ u.head?.any (· = '\x7b') = true := by
    intro u
    cases u.head? <;> simp
  rw [brace?, brace?]
  simp only [hp, hv]
  split <;> rfl

/-- **A head is read off the view of its text.** -/
theorem parse?_headView (t : Text) :
    parse? (headView false t)
      = (parse? t).map fun h => { h with opening := headView false h.opening } := by
  have hq : IsHeadChar '=' := by decide
  rw [parse?_eq, parse?_eq, exportWord?_headView]
  simp only [Option.bind_map, Option.map_bind, Function.comp_def, Declarator.parse?_headView,
    Token.someBlanks?_headView, Token.name?_headView, Token.blanks_headView _ false false,
    Token.char?_headView hq, brace?_headView, Option.map_map]

/-- What a head says. -/
def facts (h : BindingStart) : Bool × Declarator × Text := (h.exported, h.keyword, h.identifier)

/-- Texts with one view have heads that say the same. -/
theorem facts_congr {u v : Text} (h : headView false u = headView false v) :
    (parse? u).map facts = (parse? v).map facts := by
  have hv : ∀ t, (parse? (headView false t)).map facts = (parse? t).map facts := by
    intro t
    rw [parse?_headView, Option.map_map]
    rfl
  rw [← hv u, h, hv]

theorem isSome_parse?_congr {u v : Text} (h : headView false u = headView false v) :
    (parse? u).isSome = (parse? v).isSome := by
  have hf := congrArg Option.isSome (facts_congr h)
  rwa [Option.isSome_map, Option.isSome_map] at hf

/-! ### The brace of a head -/

/-- A text from its first opening brace. -/
def fromBrace (t : Text) : Text := t.dropWhile (· ≠ '\x7b')

theorem ne_brace {c : Char} (h : IsHeadChar c ∨ isAsciiBlank c = true) : c ≠ '\x7b' := by
  rintro rfl
  rcases h with h | h
  · exact absurd h (by decide)
  · exact absurd h (by decide)

theorem fromBrace_append {w : Text} (hw : ∀ c ∈ w, IsHeadChar c ∨ isAsciiBlank c = true)
    (t : Text) : fromBrace (w ++ t) = fromBrace t :=
  List.dropWhile_append_of_pos fun c hc => by simpa using ne_brace (hw c hc)

theorem fromBrace_word? {w t r : Text} (hw : ∀ c ∈ w, IsHeadChar c)
    (h : Token.word? w t = some r) : fromBrace r = fromBrace t := by
  obtain ⟨hd, -⟩ := Option.filter_eq_some_iff.1 h
  rw [dropLeading?] at hd
  split at hd
  · rename_i hp
    obtain ⟨u, rfl⟩ := List.isPrefixOf_iff_prefix.1 hp
    obtain rfl : u = r := by simpa using hd
    exact (fromBrace_append (fun c hc => .inl (hw c hc)) u).symm
  · cases hd

theorem fromBrace_blanks (t : Text) : fromBrace (Token.blanks t) = fromBrace t := by
  have h := List.takeWhile_append_dropWhile (p := isAsciiBlank) (l := t)
  calc fromBrace (Token.blanks t)
      = fromBrace (t.takeWhile isAsciiBlank ++ Token.blanks t) :=
        (fromBrace_append (fun c hc => .inr (List.mem_takeWhile_imp hc)) _).symm
    _ = fromBrace t := by rw [Token.blanks, h]

theorem fromBrace_someBlanks? {t r : Text} (h : Token.someBlanks? t = some r) :
    fromBrace r = fromBrace t := by
  rw [Token.someBlanks?] at h
  split at h
  · rw [← Option.some.inj h, fromBrace_blanks]
  · cases h

theorem fromBrace_name? {t n r : Text} (h : Token.name? t = some (n, r)) :
    fromBrace r = fromBrace t := by
  obtain ⟨rfl, hn, -⟩ := Token.name?_eq_some h
  refine (fromBrace_append (fun c hc => .inl ?_) r).symm
  exact isHeadChar_of_isNameChar (List.all_eq_true.1 hn c hc)

theorem fromBrace_char? {c : Char} (hc : IsHeadChar c) {t r : Text}
    (h : Token.char? c t = some r) : fromBrace r = fromBrace t := by
  cases t with
  | nil => cases h
  | cons d t =>
    rw [Token.char?] at h
    split at h
    · rename_i hd
      obtain rfl := Option.some.inj h
      exact (fromBrace_append (w := [d]) (by simp [hd, hc]) t).symm
    · cases h

theorem isName_of_name? {t n r : Text} (h : Token.name? t = some (n, r)) : isName n = true := by
  obtain ⟨-, hn, -⟩ := Token.name?_eq_some h
  cases t with
  | nil => cases h
  | cons c t =>
    rw [Token.name?] at h
    split at h
    · rename_i hc
      obtain ⟨rfl, -⟩ := Prod.mk.inj (Option.some.inj h)
      rw [isName, hn]
      simp [hc]
    · cases h

/-- **The brace of a head** is the first one of its text, and what is bound is a name. -/
theorem parse?_eq_some {t : Text} {h : BindingStart} (ht : parse? t = some h) :
    h.opening = fromBrace t ∧ h.opening.head? = some '\x7b' ∧ isName h.identifier = true := by
  have he : ∀ c ∈ ("export" : Text), IsHeadChar c := List.all_iff_forall_prop.1 (by decide)
  simp only [parse?_eq, Option.bind_eq_some_iff, Option.map_eq_some_iff, brace?] at ht
  obtain ⟨⟨e, t₁⟩, h₁, ⟨k, t₂⟩, h₂, t₃, h₃, ⟨n, t₄⟩, h₄, t₅, h₅, o, h₆, rfl⟩ := ht
  have hb₁ : fromBrace t₁ = fromBrace t := by
    rw [exportWord?] at h₁
    split at h₁
    · rename_i rest hw
      obtain ⟨u, hu, h₁⟩ := Option.map_eq_some_iff.1 h₁
      obtain ⟨-, rfl⟩ := Prod.mk.inj h₁
      rw [fromBrace_someBlanks? hu, fromBrace_word? he hw]
    · obtain ⟨-, rfl⟩ := Prod.mk.inj (Option.some.inj h₁)
      rfl
  have hb₂ : fromBrace t₂ = fromBrace t₁ := by
    obtain ⟨d, -, hd⟩ := List.exists_of_findSome?_eq_some h₂
    obtain ⟨u, hu, hd⟩ := Option.map_eq_some_iff.1 hd
    obtain ⟨rfl, rfl⟩ := Prod.mk.inj hd
    exact fromBrace_word? (isHeadChar_word d) hu
  have hb₅ : fromBrace (Token.blanks t₅) = fromBrace t := by
    rw [fromBrace_blanks, fromBrace_char? (by decide) h₅, fromBrace_blanks, fromBrace_name? h₄,
      fromBrace_someBlanks? h₃, hb₂, hb₁]
  split at h₆
  · rename_i ho
    obtain rfl := Option.some.inj h₆
    refine ⟨?_, ho, isName_of_name? h₄⟩
    rw [← hb₅]
    cases hc : Token.blanks t₅ with
    | nil => rw [hc] at ho; cases ho
    | cons c r =>
      rw [hc] at ho
      obtain rfl : c = '\x7b' := by simpa using ho
      simp [fromBrace]
  · cases h₆

/-- A text with a head holds the brace of the head. -/
theorem exists_endsHead {t : Text} (h : (parse? t).isSome = true) :
    '\x7b' ∈ t ∧ ∃ c ∈ t, endsHead c = true := by
  obtain ⟨b, hb⟩ := Option.isSome_iff_exists.1 h
  obtain ⟨ho, hh, -⟩ := parse?_eq_some hb
  rw [ho] at hh
  have hm : '\x7b' ∈ t := (List.dropWhile_suffix _).mem (List.mem_of_mem_head? hh)
  exact ⟨hm, _, hm, rfl⟩

end BindingStart

end ElementModules.Script
