import ElementModules.Proofs.Script.Openings
import ElementModules.Proofs.Text.Slices

/-!
# Heads read by offset

The head of a binding can be read by offset, with a cursor over the bytes of the text. A cursor cuts
the text: it takes the bytes from its offset on where it looks for a word, and the piece that is a
name. Such a cut may fail, so a reader with a cursor has two ways to give nothing: `none` is a cut that
cannot be made, `some none` is a text that does not read so.

What the readers look for is ASCII, so a cursor goes past whole characters only. At the offset of a last
part of the text each of them finds what the reader of that part finds, and every cut can be made.

## Main results

* `Cursor.word?_place`, `Cursor.name?_place`: one token.
* `Cursor.head?_place`: a head.
-/

namespace ElementModules.Script

open Text

/-- The offset at which a last part of a text begins. -/
def place (t r : Text) : Nat := size t - size r

theorem place_append (a r : Text) : place (a ++ r) r = size a := by
  rw [place, size_append, Nat.add_sub_cancel_right]

/-- A head read by offset. -/
structure HeadAt where
  exported : Bool
  keyword : Declarator
  identifier : Text
  /-- The offset of the opening brace. -/
  opening : Nat
  deriving DecidableEq, Repr

/-- A head that is read at the beginning of a last part. -/
def BindingStart.inText (t : Text) (b : BindingStart) : HeadAt :=
  ⟨b.exported, b.keyword, b.identifier, place t b.opening⟩

/-! ### What is left -/

namespace Token

variable {t r : Text}

theorem suffix_of_word? {w : Text} (h : word? w t = some r) : r <:+ t :=
  ⟨w, (word?_eq_some h).1.symm⟩

theorem blanks_suffix (t : Text) : blanks t <:+ t := List.dropWhile_suffix isAsciiBlank

theorem suffix_of_someBlanks? (h : someBlanks? t = some r) : r <:+ t := by
  obtain ⟨g, x, rfl, -⟩ := someBlanks?_eq_some h
  exact ⟨g ++ [x], by simp⟩

theorem suffix_of_name? {n : Text} (h : name? t = some (n, r)) : r <:+ t :=
  ⟨n, (name?_eq_some h).1.symm⟩

theorem suffix_of_char? {c : Char} (h : char? c t = some r) : r <:+ t :=
  ⟨[c], (char?_eq_some h).symm⟩

end Token

theorem BindingStart.suffix_of_exportWord? {t r : Text} {e : Bool} (h : exportWord? t = some (e, r)) :
    r <:+ t := by
  rw [exportWord?] at h
  split at h
  next s hs =>
    obtain ⟨u, hu, he⟩ := Option.map_eq_some_iff.1 h
    obtain ⟨-, rfl⟩ := Prod.mk.inj he
    exact (Token.suffix_of_someBlanks? hu).trans (Token.suffix_of_word? hs)
  next =>
    obtain ⟨-, rfl⟩ := Prod.mk.inj (Option.some.inj h)
    exact List.suffix_rfl

namespace Cursor

/-! ### Readers -/

/-- The bytes from an offset on. -/
def octetsFrom? (t : Text) (pos : Nat) : Option Text :=
  if pos ≤ size t then some ((octets t).drop pos) else none

/-- The offset behind a whole word. -/
def word? (w t : Text) (pos : Nat) : Option (Option Nat) :=
  (octetsFrom? t pos).map fun rest =>
    if w.isPrefixOf rest && !(rest[w.length]?).any Token.isNameChar then some (pos + w.length)
    else none

/-- The offset behind the ASCII blanks. -/
def blanks (t : Text) (pos : Nat) : Nat :=
  pos + (((octets t).drop pos).takeWhile isAsciiBlank).length

/-- The offset behind the ASCII blanks, of which there is at least one. -/
def someBlanks? (t : Text) (pos : Nat) : Option Nat :=
  if pos < blanks t pos then some (blanks t pos) else none

/-- The offset behind a character. -/
def char? (c : Char) (t : Text) (pos : Nat) : Option Nat :=
  if (octets t)[pos]? = some c then some (pos + 1) else none

/-- A name, cut out of the text, and the offset behind it. -/
def name? (t : Text) (pos : Nat) : Option (Option (Text × Nat)) :=
  if ((octets t)[pos]?).any Token.isNameStart then
    let stop := pos + 1 + (((octets t).drop (pos + 1)).takeWhile Token.isNameChar).length
    (slice? t ⟨pos, stop⟩).map fun n => some (n, stop)
  else some none

/-- The first of some keywords that stands at an offset, and the offset behind it. -/
def keyword? (t : Text) (pos : Nat) : List Declarator → Option (Option (Declarator × Nat))
  | [] => some none
  | k :: ks => do
    match ← word? k.word t pos with
    | some stop => return some (k, stop)
    | none => keyword? t pos ks

/-- Whether a binding at an offset is exported, and the offset of its keyword. -/
def exportWord? (t : Text) (pos : Nat) : Option (Option (Bool × Nat)) :=
  (word? "export" t pos).map fun
    | some stop => (someBlanks? t stop).map (true, ·)
    | none => some (false, pos)

/-- The head at an offset. -/
def head? (t : Text) (pos : Nat) : Option (Option HeadAt) := do
  let some (exported, pos) ← exportWord? t pos | return none
  let some (keyword, pos) ← keyword? t pos [.const, .let, .var] | return none
  let some pos := someBlanks? t pos | return none
  let some (identifier, pos) ← name? t pos | return none
  let some pos := char? '=' t (blanks t pos) | return none
  let opening := blanks t pos
  let some _ := char? '\x7b' t opening | return none
  return some ⟨exported, keyword, identifier, opening⟩

/-! ### Tokens -/

theorem isAsciiClass_isNameChar : IsAsciiClass Token.isNameChar := by
  intro c hc
  have hcode := toNat_of_isNameChar hc
  rw [isAscii_iff]
  omega

theorem isAsciiClass_isNameStart : IsAsciiClass Token.isNameStart := fun c hc =>
  isAsciiClass_isNameChar c (isNameChar_of_isNameStart hc)

theorem isAsciiClass_isAsciiBlank : IsAsciiClass isAsciiBlank := by
  intro c hc
  simp only [isAsciiBlank, Bool.or_eq_true, decide_eq_true_eq] at hc
  rcases hc with (((rfl | rfl) | rfl) | rfl) | rfl <;> rfl

section

variable {t r : Text} (hr : r <:+ t)
include hr

theorem octetsFrom?_place : octetsFrom? t (place t r) = some (octets r) := by
  obtain ⟨a, rfl⟩ := hr
  rw [place_append, octetsFrom?, if_pos (by rw [size_append]; omega), drop_octets]

theorem getElem?_octets_place (k : Nat) : (octets t)[place t r + k]? = (octets r)[k]? := by
  obtain ⟨a, rfl⟩ := hr
  rw [place_append, getElem?_octets]

theorem drop_octets_place : (octets t).drop (place t r) = octets r := by
  obtain ⟨a, rfl⟩ := hr
  rw [place_append, drop_octets]

/-- A cursor goes past characters of one byte. -/
theorem place_behind {p : Char → Bool} (hp : IsAsciiClass p) {g s : Text} (hg : ∀ c ∈ g, p c = true)
    (h : r = g ++ s) : place t s = place t r + g.length := by
  obtain ⟨a, rfl⟩ := hr
  rw [place_append, h, ← List.append_assoc, place_append, size_append, size_of_class hp hg]

/-- The piece between two cursors. -/
theorem slice?_place {w s : Text} (h : r = w ++ s) : slice? t ⟨place t r, place t s⟩ = some w := by
  obtain ⟨a, rfl⟩ := hr
  subst h
  rw [place_append, ← List.append_assoc, place_append, List.append_assoc, slice?_append]

/-- **A word at a cursor.** -/
theorem word?_place {w : Text} (hw : ∀ c ∈ w, isAscii c = true) :
    word? w t (place t r) = some ((Token.word? w r).map (place t)) := by
  rw [word?, octetsFrom?_place hr, Option.map_some, isPrefixOf_octets hw, Token.word?, dropLeading?]
  cases hp : w.isPrefixOf r with
  | false => simp
  | true =>
    obtain ⟨s, rfl⟩ := List.isPrefixOf_iff_prefix.1 hp
    have hlen : size w = w.length := size_of_class (fun _ => id) hw
    have hnext : ((octets (w ++ s))[w.length]?).any Token.isNameChar = s.head?.any Token.isNameChar := by
      rw [← any_head?_octets isAsciiClass_isNameChar s, List.head?_eq_getElem?, ← hlen]
      exact congrArg (Option.any _) (getElem?_octets w s 0)
    rw [hnext, if_pos rfl, List.drop_left, Option.filter_some, Bool.true_and,
      ← place_behind hr (fun _ => id) hw rfl]
    split <;> rfl

theorem blanks_place : blanks t (place t r) = place t (Token.blanks r) := by
  rw [blanks, drop_octets_place hr, takeWhile_octets isAsciiClass_isAsciiBlank]
  exact (place_behind hr isAsciiClass_isAsciiBlank (fun c hc => List.mem_takeWhile_imp hc)
    List.takeWhile_append_dropWhile.symm).symm

theorem someBlanks?_place : someBlanks? t (place t r) = (Token.someBlanks? r).map (place t) := by
  have hsome : place t r < blanks t (place t r) ↔ r.head?.any isAsciiBlank = true := by
    rw [blanks, drop_octets_place hr, takeWhile_octets isAsciiClass_isAsciiBlank]
    cases r with
    | nil => simp
    | cons c r => cases hc : isAsciiBlank c <;> simp [hc]
  rw [someBlanks?, Token.someBlanks?]
  by_cases hb : r.head?.any isAsciiBlank = true
  · rw [if_pos (hsome.2 hb), if_pos hb, blanks_place hr, Option.map_some]
  · rw [if_neg (mt hsome.1 hb), if_neg hb, Option.map_none]

theorem char?_place {c : Char} (hc : isAscii c = true) :
    char? c t (place t r) = (Token.char? c r).map (place t) := by
  obtain ⟨a, rfl⟩ := hr
  rw [char?, place_append]
  simp only [getElem?_octets_eq_some_iff hc]
  cases r with
  | nil => rfl
  | cons d r =>
    by_cases hd : d = c
    · subst hd
      have hnext := place_behind (List.suffix_append a (d :: r)) (fun _ => id) (g := [d]) (s := r)
        (by simpa using hc) rfl
      rw [place_append] at hnext
      rw [List.head?_cons, if_pos rfl, Token.char?, if_pos rfl, Option.map_some, hnext]
      rfl
    · rw [if_neg (by simpa using hd), Token.char?, if_neg hd]
      rfl

/-- **A name at a cursor.** Its piece can be cut out. -/
theorem name?_place :
    name? t (place t r) = some ((Token.name? r).map fun n => (n.1, place t n.2)) := by
  have hfirst : ((octets t)[place t r]?).any Token.isNameStart = r.head?.any Token.isNameStart := by
    rw [← any_head?_octets isAsciiClass_isNameStart r, List.head?_eq_getElem?]
    exact congrArg (Option.any _) (getElem?_octets_place hr 0)
  rw [name?, hfirst]
  cases r with
  | nil => rfl
  | cons c r =>
    rw [List.head?_cons, Option.any_some, Token.name?]
    cases hc : Token.isNameStart c with
    | false => rfl
    | true =>
      have hn : ∀ d ∈ c :: r.takeWhile Token.isNameChar, Token.isNameChar d = true :=
        List.forall_mem_cons.2
          ⟨isNameChar_of_isNameStart hc, fun d hd => List.mem_takeWhile_imp hd⟩
      have hnext : place t r = place t (c :: r) + 1 :=
        place_behind hr isAsciiClass_isNameStart (g := [c]) (by simpa using hc) rfl
      have hr' : r <:+ t := (List.suffix_cons c r).trans hr
      have hstop : place t (r.dropWhile Token.isNameChar)
          = place t (c :: r) + (c :: r.takeWhile Token.isNameChar).length :=
        place_behind hr isAsciiClass_isNameChar hn (by simp)
      rw [if_pos rfl, if_pos rfl, ← hnext, drop_octets_place hr', takeWhile_octets isAsciiClass_isNameChar,
        hnext]
      have hend : place t (c :: r) + 1 + (r.takeWhile Token.isNameChar).length
          = place t (r.dropWhile Token.isNameChar) := by
        rw [hstop, List.length_cons]
        omega
      dsimp only
      rw [hend, slice?_place hr (w := c :: r.takeWhile Token.isNameChar) (by simp)]
      rfl

theorem exportWord?_place :
    exportWord? t (place t r)
      = some ((BindingStart.exportWord? r).map fun e => (e.1, place t e.2)) := by
  rw [exportWord?, word?_place hr (List.all_eq_true.1 (by decide)), BindingStart.exportWord?]
  cases h : Token.word? "export" r with
  | none => rfl
  | some s =>
    simp only [Option.map_some, someBlanks?_place ((Token.suffix_of_word? h).trans hr),
      Option.map_map]
    rfl

theorem keyword?_place (ks : List Declarator) :
    keyword? t (place t r) ks = some ((ks.findSome? fun k => (Token.word? k.word r).map (k, ·)).map
      fun k => (k.1, place t k.2)) := by
  induction ks with
  | nil => rfl
  | cons k ks ih =>
    have hw : ∀ c ∈ k.word, isAscii c = true := fun c hc =>
      isAsciiClass_isNameChar c (isNameChar_word k c hc)
    rw [keyword?, word?_place hr hw, List.findSome?_cons, ih]
    cases Token.word? k.word r <;> rfl

/-- **A head at a cursor.** -/
theorem head?_place : head? t (place t r) = some ((BindingStart.parse? r).map (·.inText t)) := by
  rw [BindingStart.parse?_eq, head?, exportWord?_place hr]
  cases h₁ : BindingStart.exportWord? r with
  | none => rfl
  | some e =>
  have hr₁ : e.2 <:+ t := (BindingStart.suffix_of_exportWord? h₁).trans hr
  simp only [Option.map_some, Option.bind_eq_bind, Option.bind_some, keyword?_place hr₁, Declarator.parse?]
  cases h₂ : [Declarator.const, .let, .var].findSome? fun k => (Token.word? k.word e.2).map (k, ·) with
  | none => rfl
  | some k =>
  have hr₂ : k.2 <:+ t := (Token.suffix_of_word? (Declarator.word?_of_parse? h₂)).trans hr₁
  simp only [Option.map_some, Option.bind_some, someBlanks?_place hr₂]
  cases h₃ : Token.someBlanks? k.2 with
  | none => rfl
  | some t₃ =>
  have hr₃ : t₃ <:+ t := (Token.suffix_of_someBlanks? h₃).trans hr₂
  simp only [Option.map_some, Option.bind_some, name?_place hr₃]
  cases h₄ : Token.name? t₃ with
  | none => rfl
  | some n =>
  have hr₄ : n.2 <:+ t := (Token.suffix_of_name? h₄).trans hr₃
  simp only [Option.map_some, Option.bind_some, blanks_place hr₄,
    char?_place ((Token.blanks_suffix n.2).trans hr₄) (c := '=') rfl]
  cases h₅ : Token.char? '=' (Token.blanks n.2) with
  | none => rfl
  | some t₅ =>
  have hr₅ : t₅ <:+ t := ((Token.suffix_of_char? h₅).trans (Token.blanks_suffix n.2)).trans hr₄
  simp only [Option.map_some, Option.bind_some, blanks_place hr₅,
    char?_place ((Token.blanks_suffix t₅).trans hr₅) (c := '\x7b') rfl, BindingStart.brace?]
  cases Token.blanks t₅ with
  | nil => rfl
  | cons c u =>
    rcases eq_or_ne c '\x7b' with rfl | hc
    · rfl
    · simp only [Token.char?, if_neg hc, List.head?_cons, Option.some.injEq, Option.map_none]
      rfl

end

end Cursor

end ElementModules.Script
