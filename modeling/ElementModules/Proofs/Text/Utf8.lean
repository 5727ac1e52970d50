import ElementModules.Ignore.Glob
import ElementModules.Order
import Mathlib.Data.List.Lex
import Mathlib.Tactic.SplitIfs

/-!
# The bytes of a text

A character below 128 is one byte, its own code; every other character is made of bytes from 128
on. So the ASCII characters of a text can be told from its bytes (`utf8_head?_eq_asciiByte`), and a
scan that looks for ASCII characters alone may as well read bytes.

The first difference of two texts is a first difference of their bytes, and in the same direction:
the leading digits of a code point to the base 64 stand in front, and more digits mean a larger
first byte (`encodeChar_append_lt`).

## Main results

* `length_utf8`: the size of a text is the number of its bytes.
* `asciiByte_inj`, `le_of_mem_encodeChar`: which bytes a character has.
* `utf8_lt_iff`: texts are ordered as their bytes are.
-/

namespace ElementModules.Text

@[simp] theorem utf8_nil : utf8 [] = [] := rfl

@[simp] theorem utf8_cons (c : Char) (t : Text) :
    utf8 (c :: t) = String.utf8EncodeChar c ++ utf8 t :=
  List.flatMap_cons

/-- The size of a text is the number of its bytes. -/
theorem length_utf8 (t : Text) : (utf8 t).length = size t := by
  induction t with
  | nil => rfl
  | cons c t ih => rw [utf8_cons, List.length_append, String.length_utf8EncodeChar, ih, size_cons]

/-! ### ASCII characters -/

/-- Whether a character is one byte. -/
def isAscii (c : Char) : Bool := c.val < 128

/-- The code of a character as a byte. -/
def asciiByte (c : Char) : UInt8 := c.val.toUInt8

theorem toNat_asciiByte {c : Char} (h : isAscii c = true) : (asciiByte c).toNat = c.val.toNat := by
  have hc : c.val.toNat < 128 := by simpa [isAscii, UInt32.lt_iff_toNat_lt] using h
  rw [asciiByte, UInt32.toNat_toUInt8]
  omega

theorem asciiByte_lt {c : Char} (h : isAscii c = true) : (asciiByte c).toNat < 128 := by
  rw [toNat_asciiByte h]
  simpa [isAscii, UInt32.lt_iff_toNat_lt] using h

/-- ASCII characters are told apart by their bytes. -/
theorem asciiByte_inj {c d : Char} (hc : isAscii c = true) (hd : isAscii d = true) :
    asciiByte c = asciiByte d ↔ c = d := by
  constructor
  · intro h
    have hval := congrArg UInt8.toNat h
    rw [toNat_asciiByte hc, toNat_asciiByte hd] at hval
    exact Char.ext (UInt32.toNat_inj.1 hval)
  · rintro rfl
    rfl

/-- An ASCII character is its own byte. -/
theorem encodeChar_of_isAscii {c : Char} (h : isAscii c = true) :
    String.utf8EncodeChar c = [asciiByte c] := by
  refine String.utf8EncodeChar_eq_singleton (Char.utf8Size_eq_one_iff.2 ?_)
  rw [UInt32.le_iff_toNat_le]
  have hc : c.val.toNat < 128 := by simpa [isAscii, UInt32.lt_iff_toNat_lt] using h
  exact Nat.le_of_lt_succ hc

theorem utf8Size_of_isAscii {c : Char} (h : isAscii c = true) : c.utf8Size = 1 := by
  rw [← String.length_utf8EncodeChar, encodeChar_of_isAscii h, List.length_singleton]

theorem codePoint_lt (c : Char) : c.val.toNat < 1114112 := by
  rcases c.valid with h | h
  · exact Nat.lt_trans h (by decide)
  · exact h.2

/-- A character that is not ASCII has no byte of an ASCII character. -/
theorem le_of_mem_encodeChar {c : Char} (h : isAscii c = false) {b : UInt8}
    (hb : b ∈ String.utf8EncodeChar c) : 128 ≤ b.toNat := by
  have hc : 128 ≤ c.val.toNat := by simpa [isAscii, UInt32.lt_iff_toNat_lt] using h
  have hmax := codePoint_lt c
  simp only [String.utf8EncodeChar] at hb
  split_ifs at hb with h₁ <;>
    simp only [List.mem_cons, List.not_mem_nil, or_false] at hb
  · omega
  · rcases hb with rfl | rfl <;> rw [UInt8.toNat_ofNat'] <;> omega
  · rcases hb with rfl | rfl | rfl <;> rw [UInt8.toNat_ofNat'] <;> omega
  · rcases hb with rfl | rfl | rfl | rfl <;> rw [UInt8.toNat_ofNat'] <;> omega

theorem encodeChar_ne_nil (c : Char) : String.utf8EncodeChar c ≠ [] := by
  rw [Ne, ← List.length_eq_zero_iff, String.length_utf8EncodeChar]
  exact c.utf8Size_pos.ne'

/-- **The ASCII character at the start of a text** is its first byte. -/
theorem utf8_head?_eq_asciiByte (t : Text) {d : Char} (hd : isAscii d = true) :
    (utf8 t).head? = some (asciiByte d) ↔ t.head? = some d := by
  cases t with
  | nil => simp
  | cons c t =>
    rw [utf8_cons, List.head?_cons, Option.some.injEq]
    by_cases hc : isAscii c = true
    · rw [encodeChar_of_isAscii hc, List.singleton_append, List.head?_cons, Option.some.injEq,
        asciiByte_inj hc hd]
    · rw [Bool.not_eq_true] at hc
      obtain ⟨b, bs, hb⟩ := List.exists_cons_of_ne_nil (encodeChar_ne_nil c)
      have hle := le_of_mem_encodeChar hc (hb ▸ List.mem_cons_self)
      have hlt := asciiByte_lt hd
      rw [hb, List.cons_append, List.head?_cons, Option.some.injEq]
      constructor
      · rintro rfl
        omega
      · rintro rfl
        rw [hd] at hc
        cases hc

/-! ### The order of bytes -/

theorem bytes_lt_cons_iff {a b : UInt8} {x y : List UInt8} :
    a :: x < b :: y ↔ a.toNat < b.toNat ∨ a.toNat = b.toNat ∧ x < y := by
  rw [List.cons_lt_cons_iff, UInt8.lt_iff_toNat_lt, UInt8.toNat_inj]

theorem lt_of_div_eq {v w : Nat} (h : v < w) :
    v / 64 < w / 64 ∨ v / 64 = w / 64 ∧ v % 64 < w % 64 := by
  omega

/-- Numbers compare as their digits to the base 64, the leading ones first. -/
theorem digits_lt {v w : Nat} (h : v < w) :
    v / 262144 < w / 262144 ∨ v / 262144 = w / 262144
      ∧ (v / 4096 % 64 < w / 4096 % 64 ∨ v / 4096 % 64 = w / 4096 % 64
        ∧ (v / 64 % 64 < w / 64 % 64 ∨ v / 64 % 64 = w / 64 % 64 ∧ v % 64 < w % 64)) := by
  have h₂ := @lt_of_div_eq (v / 64) (w / 64)
  have h₃ := @lt_of_div_eq (v / 64 / 64) (w / 64 / 64)
  have hdiv : ∀ x : Nat, x / 262144 = x / 64 / 64 / 64 ∧ x / 4096 = x / 64 / 64 := by
    intro x; omega
  have := hdiv v
  have := hdiv w
  have := lt_of_div_eq h
  omega

/-- **The bytes of a smaller character** are smaller, whatever follows. -/
theorem encodeChar_append_lt {c d : Char} (h : c < d) (x y : List UInt8) :
    String.utf8EncodeChar c ++ x < String.utf8EncodeChar d ++ y := by
  have hval : c.val.toNat < d.val.toNat := h
  have hd : d.val.toNat / 262144 < 8 := by have := codePoint_lt d; omega
  have hc : c.val.toNat / 262144 < 8 := by have := codePoint_lt c; omega
  have hdigits := digits_lt hval
  -- Numbers of equal length differ in a digit; a longer number has the larger first byte.
  simp only [String.utf8EncodeChar]
  split_ifs <;>
    simp (disch := omega) only [List.cons_append, List.nil_append, bytes_lt_cons_iff,
      UInt8.toNat_ofNat', Nat.mod_eq_of_lt] <;> omega

theorem append_lt_append_iff {x y z : List UInt8} : x ++ y < x ++ z ↔ y < z := by
  induction x with
  | nil => rfl
  | cons a x ih => rw [List.cons_append, List.cons_append, List.cons_lt_cons_iff, ih]; simp

theorem utf8_lt_of_lexLe {s t : Text} (hle : lexLe charLt s t = true) (hne : s ≠ t) :
    utf8 s < utf8 t := by
  induction s generalizing t with
  | nil =>
    cases t with
    | nil => exact absurd rfl hne
    | cons d t =>
      obtain ⟨b, bs, hb⟩ := List.exists_cons_of_ne_nil (encodeChar_ne_nil d)
      rw [utf8_nil, utf8_cons, hb, List.cons_append]
      exact List.nil_lt_cons b _
  | cons c s ih =>
    cases t with
    | nil => cases hle
    | cons d t =>
      rw [lexLe, Bool.or_eq_true, Bool.and_eq_true, decide_eq_true_eq] at hle
      rw [utf8_cons, utf8_cons]
      rcases hle with hcd | ⟨rfl, hle⟩
      · exact encodeChar_append_lt (by simpa [charLt] using hcd) _ _
      · rw [append_lt_append_iff]
        exact ih hle fun he => hne (by rw [he])

/-- **Texts are ordered as their bytes are.** -/
theorem utf8_lt_iff {s t : Text} : utf8 s < utf8 t ↔ lexLt charLt s t = true := by
  constructor
  · intro h
    have hne : s ≠ t := fun he => List.lt_irrefl (utf8 t) (he ▸ h)
    rcases charLt_strictLinear.lexLt.connected s t hne with hst | hts
    · exact hst
    · rw [lexLt, Bool.and_eq_true, decide_eq_true_eq] at hts
      exact absurd (utf8_lt_of_lexLe hts.2 hts.1) (List.lt_asymm h)
  · intro h
    rw [lexLt, Bool.and_eq_true, decide_eq_true_eq] at h
    exact utf8_lt_of_lexLe h.2 h.1

end ElementModules.Text
