import ElementModules.Proofs.Script.Heads
import ElementModules.Proofs.Script.Written

/-!
# Names in written text

A name that is written in front of another character is read back whole: by the reader of names
(`Token.name?_append`), by the reader of words (`Token.word?_append`, `Token.word?_append_of_ne`)
and by the search for a word (`mentionsFrom_word`).

## Main results

* `takeWhile_isNameChar`: a name ends where a character follows that no name holds.
* `Token.name?_append`, `Token.word?_append_of_ne`: reading back a name.
* `mentionsFrom_word`: a word between other characters is found.
-/

namespace ElementModules.Script

open Text

/-- The code points of the characters of names. -/
theorem toNat_of_isNameChar {c : Char} (h : Token.isNameChar c = true) :
    c.toNat = 36 ∨ 48 ≤ c.toNat ∧ c.toNat ≤ 57 ∨ 65 ≤ c.toNat ∧ c.toNat ≤ 90 ∨ c.toNat = 95
      ∨ 97 ≤ c.toNat ∧ c.toNat ≤ 122 := by
  have halpha : c.isAlpha = (c.isUpper || c.isLower) := rfl
  have hupper : c.isUpper = decide ('A'.val ≤ c.val ∧ c.val ≤ 'Z'.val) := rfl
  have hlower : c.isLower = (decide ('a'.val ≤ c.val) && decide (c.val ≤ 'z'.val)) := rfl
  simp only [Token.isNameChar, Char.isAlphanum, halpha, hupper, hlower, Char.isDigit, ge_iff_le,
    Bool.or_eq_true, Bool.and_eq_true, decide_eq_true_eq, UInt32.le_iff_toNat_le] at h
  have hA : 'A'.val.toNat = 65 := rfl
  have hZ : 'Z'.val.toNat = 90 := rfl
  have ha : 'a'.val.toNat = 97 := rfl
  have hz : 'z'.val.toNat = 122 := rfl
  have h0 : '0'.val.toNat = 48 := rfl
  have h9 : '9'.val.toNat = 57 := rfl
  have hc : c.toNat = c.val.toNat := rfl
  rcases h with (((h | h) | h) | rfl) | rfl
  · omega
  · omega
  · omega
  · decide
  · decide

theorem isBlank_of_isNameChar {c : Char} (h : Token.isNameChar c = true) : isBlank c = false := by
  have := toNat_of_isNameChar h
  simp only [isBlank, blankRanges, List.any_cons, List.any_nil, Bool.or_false, Bool.or_eq_false_iff,
    Bool.and_eq_false_iff, decide_eq_false_iff_not]
  omega

/-- A character of a class differs from every character outside the class. -/
theorem ne_of_class {p : Char → Bool} {c d : Char} (h : p c = true) (hd : p d = false) : c ≠ d := by
  rintro rfl
  rw [h] at hd
  cases hd

/-- The characters of a class without slashes, quotes and brackets are plain. -/
theorem isPlain_of_class {p : Char → Bool} {c : Char} (h : p c = true)
    (hp : (['/', '\'', '"', '\x60', '\x7b', '\x7d', '(', ')', '[', ']'].all fun d => !p d) = true) :
    isPlain c = true := by
  simp only [List.all_cons, List.all_nil, Bool.and_eq_true, Bool.not_eq_true'] at hp
  simp [isPlain, isOpener, isCloser, ne_of_class h, hp]

theorem isPlain_of_isNameChar {c : Char} (h : Token.isNameChar c = true) : isPlain c = true :=
  isPlain_of_class h (by decide)

theorem isPlain_of_isBlank {c : Char} (h : isBlank c = true) : isPlain c = true :=
  isPlain_of_class h (by decide)

/-- A word may start behind a blank. -/
theorem startsWord_of_isBlank {c : Char} (h : isBlank c = true) :
    Token.startsWord (some c) = true := by
  have hn : Token.isNameChar c = false := by
    by_contra hn
    rw [isBlank_of_isNameChar (Bool.not_eq_false _ ▸ hn)] at h
    cases h
  simp [Token.startsWord, hn, ne_of_class h (d := '.') (by decide)]

theorem isNameChar_of_mem {n : Text} (h : isName n = true) {c : Char} (hc : c ∈ n) :
    Token.isNameChar c = true := by
  simp only [isName, Bool.and_eq_true, List.all_eq_true] at h
  exact h.2 c hc

theorem ne_nil_of_isName {n : Text} (h : isName n = true) : n ≠ [] := by
  rintro rfl
  cases h

/-- A name ends where a character follows that no name holds. -/
theorem takeWhile_isNameChar {n r : Text} (hn : ∀ c ∈ n, Token.isNameChar c = true)
    (hr : r.head?.any Token.isNameChar = false) :
    (n ++ r).takeWhile Token.isNameChar = n ∧ (n ++ r).dropWhile Token.isNameChar = r := by
  rw [List.takeWhile_append_of_pos hn, List.dropWhile_append_of_pos hn]
  cases r with
  | nil => simp
  | cons c r =>
    have hc : Token.isNameChar c = false := by simpa using hr
    simp [hc]

namespace Token

theorem name?_append {n r : Text} (hn : isName n = true) (hr : r.head?.any isNameChar = false) :
    name? (n ++ r) = some (n, r) := by
  obtain ⟨ht, hd⟩ := takeWhile_isNameChar (fun c => isNameChar_of_mem hn) hr
  cases n with
  | nil => cases hn
  | cons c n =>
    have hs : isNameStart c = true := by
      simp only [isName, Bool.and_eq_true] at hn
      simpa using hn.1
    rw [List.cons_append] at ht hd ⊢
    have hc := isNameChar_of_isNameStart hs
    rw [List.takeWhile_cons_of_pos hc] at ht
    rw [List.dropWhile_cons_of_pos hc] at hd
    rw [name?, if_pos hs, ht, hd]

theorem dropLeading?_eq_some {w t r : Text} (h : dropLeading? w t = some r) : t = w ++ r := by
  rw [dropLeading?] at h
  split at h
  · rename_i hp
    obtain ⟨u, rfl⟩ := List.isPrefixOf_iff_prefix.1 hp
    rw [← Option.some.inj h, List.drop_left]
  · cases h

theorem dropLeading?_append (w r : Text) : dropLeading? w (w ++ r) = some r := by
  rw [dropLeading?, if_pos (List.isPrefixOf_iff_prefix.2 (List.prefix_append w r)), List.drop_left]

theorem word?_append (w : Text) {r : Text} (hr : r.head?.any isNameChar = false) :
    word? w (w ++ r) = some r := by
  rw [word?, dropLeading?_append]
  simp [hr]

/-- A word that is read starts the text, and no character of a name follows it. -/
theorem word?_eq_some {w t r : Text} (h : word? w t = some r) :
    t = w ++ r ∧ r.head?.any isNameChar = false := by
  obtain ⟨hd, hr⟩ := Option.filter_eq_some_iff.1 h
  exact ⟨dropLeading?_eq_some hd, by simpa using hr⟩

/-- The name that a text begins with is no other word. -/
theorem word?_append_of_ne {w n r : Text} (hw : ∀ c ∈ w, isNameChar c = true)
    (hn : ∀ c ∈ n, isNameChar c = true) (hne : n ≠ w) (hr : r.head?.any isNameChar = false) :
    word? w (n ++ r) = none := by
  cases h : word? w (n ++ r) with
  | none => rfl
  | some u =>
    obtain ⟨hd, hu⟩ := word?_eq_some h
    refine absurd ?_ hne
    rw [← (takeWhile_isNameChar hn hr).1, hd, (takeWhile_isNameChar hw hu).1]

end Token

/-! ### Searching for a word -/

/-- **A word between other characters is found**, unless the search starts past the name in front of
it: occurrences that do not count lie inside names. -/
theorem mentionsFrom_word {word : Text} (hw : isName word = true) {sep : Char}
    (hs : Token.isNameChar sep = false) {r : Text} (hr : r.head?.any Token.isNameChar = false)
    (a : Text) {skip : Nat} (hk : skip ≤ (a.takeWhile Token.isNameChar).length)
    (before : Option Char) :
    Segment.mentionsFrom word before skip (a ++ sep :: (word ++ r)) = true := by
  obtain ⟨c, cs, rfl⟩ := List.exists_cons_of_ne_nil (ne_nil_of_isName hw)
  have hc : Token.isNameChar c = true := isNameChar_of_mem hw List.mem_cons_self
  induction a generalizing skip before with
  | nil =>
    obtain rfl : skip = 0 := by simpa using hk
    have hp : ((c :: cs).isPrefixOf (sep :: (c :: cs ++ r))) = false := by
      simp [List.isPrefixOf, ne_of_class hc hs]
    have hr' : r.head?.all (fun c => !Token.isNameChar c) = true := by
      cases h : r.head? <;> simp_all
    rw [List.nil_append, Segment.mentionsFrom, hp, if_neg (by simp)]
    rw [List.cons_append, Segment.mentionsFrom, if_pos (by simp)]
    simp [hs, hr']
  | cons d a ih =>
    rw [List.cons_append]
    cases skip with
    | succ k =>
      rw [Segment.mentionsFrom]
      refine ih ?_ _
      rw [List.takeWhile_cons] at hk
      split at hk
      · simpa using hk
      · simp at hk
    | zero =>
      rw [Segment.mentionsFrom]
      split
      · rename_i hp
        rw [Bool.or_eq_true]
        refine .inr (ih ?_ _)
        obtain ⟨u, hu⟩ := List.isPrefixOf_iff_prefix.1 hp
        rw [List.cons_append, List.cons.injEq] at hu
        have hcs : ∀ x ∈ cs, Token.isNameChar x = true := fun x hx =>
          isNameChar_of_mem hw (List.mem_cons_of_mem c hx)
        have ha : (a ++ sep :: (c :: cs ++ r)).takeWhile Token.isNameChar
            = a.takeWhile Token.isNameChar :=
          takeWhile_append_cons hs a _
        rw [← ha, ← hu.2, List.takeWhile_append_of_pos hcs]
        simp
      · exact ih (Nat.zero_le _) _

end ElementModules.Script
