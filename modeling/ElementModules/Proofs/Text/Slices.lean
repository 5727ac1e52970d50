import ElementModules.Proofs.Text.Utf8
import Mathlib.Data.List.TakeWhile

/-!
# Cutting a text at byte offsets

A text can be cut at an offset that lies within it and not inside a character (`IsBoundary`). Between
two such offsets stands a piece of the text; where one of them is no boundary, or the second lies in
front of the first, there is none (`slice?_eq_some_iff`).

Between the cuts a text may be read byte by byte. Each byte is read as the character of its code, so
the bytes of a text are a text again, its octets. A class of ASCII characters holds of every byte of a
character what it holds of the character (`class_octet`). So a reader that looks for ASCII characters
alone finds the same among the octets as in the text.

## Main results

* `behind?_eq_some_iff`, `slice?_eq_some_iff`, `isSome_slice?_iff`: which pieces there are.
* `drop_octets`: cutting the octets at a boundary cuts the text.
* `takeWhile_octets`, `any_head?_octets`, `isPrefixOf_octets`: reading octets by ASCII characters.
-/

namespace ElementModules.Text

/-! ### Pieces -/

/-- What follows a byte offset. There is nothing past the end of a text and inside a character. -/
def behind? : Text → Nat → Option Text
  | [], n => if n = 0 then some [] else none
  | c :: t, n =>
    if n = 0 then some (c :: t)
    else if n < c.utf8Size then none
    else behind? t (n - c.utf8Size)

/-- Whether a byte offset lies within a text and not inside a character. -/
def IsBoundary (t : Text) (n : Nat) : Prop := ∃ a b, t = a ++ b ∧ size a = n

/-- The piece of a text between two byte offsets. -/
def slice? (t : Text) (s : Span) : Option Text :=
  if s.start ≤ s.stop then
    (behind? t s.start).bind fun b =>
      (behind? b (s.stop - s.start)).map fun c => b.take (b.length - c.length)
  else none

theorem behind?_append (a b : Text) : behind? (a ++ b) (size a) = some b := by
  induction a with
  | nil => cases b <;> simp [behind?]
  | cons c a ih =>
    have hc := c.utf8Size_pos
    rw [List.cons_append, behind?, size_cons, if_neg (by omega), if_neg (by omega),
      Nat.add_sub_cancel_left, ih]

/-- **What follows an offset** is there if the offset is the size of what stands in front. -/
theorem behind?_eq_some_iff {t b : Text} {n : Nat} :
    behind? t n = some b ↔ ∃ a, t = a ++ b ∧ size a = n := by
  constructor
  · intro h
    induction t generalizing n with
    | nil =>
      rw [behind?] at h
      split at h
      next hn => exact ⟨[], by simpa using h, hn.symm⟩
      next => cases h
    | cons c t ih =>
      rw [behind?] at h
      split at h
      next hn => exact ⟨[], Option.some.inj h, hn.symm⟩
      next =>
        split at h
        next => cases h
        next hc =>
          obtain ⟨a, rfl, ha⟩ := ih h
          exact ⟨c :: a, rfl, by rw [size_cons]; omega⟩
  · rintro ⟨a, rfl, rfl⟩
    exact behind?_append a b

/-- **The piece between two offsets** is there if they are the sizes of what stands in front of it
and of that together with the piece. -/
theorem slice?_eq_some_iff {t w : Text} {s : Span} :
    slice? t s = some w ↔ ∃ a b, t = a ++ (w ++ b) ∧ size a = s.start ∧ size (a ++ w) = s.stop := by
  rw [slice?]
  constructor
  · intro h
    split at h
    next hle =>
      obtain ⟨b, hb, hc⟩ := Option.bind_eq_some_iff.1 h
      obtain ⟨c, hc, hw⟩ := Option.map_eq_some_iff.1 hc
      obtain ⟨a, rfl, ha⟩ := behind?_eq_some_iff.1 hb
      obtain ⟨w', rfl, hw'⟩ := behind?_eq_some_iff.1 hc
      obtain rfl : w' = w := by simpa using hw
      exact ⟨a, c, rfl, ha, by rw [size_append]; omega⟩
    next => cases h
  · rintro ⟨a, b, rfl, ha, hw⟩
    rw [size_append] at hw
    have hsize : s.stop - s.start = size w := by omega
    rw [if_pos (by omega), ← ha, behind?_append, Option.bind_some, ha, hsize, behind?_append]
    simp

theorem slice?_append (a w b : Text) : slice? (a ++ (w ++ b)) ⟨size a, size (a ++ w)⟩ = some w :=
  slice?_eq_some_iff.2 ⟨a, b, rfl, rfl, rfl⟩

/-- The piece up to the end of a text. -/
theorem slice?_append_end (a b : Text) : slice? (a ++ b) ⟨size a, size (a ++ b)⟩ = some b := by
  have h := slice?_append a b []
  rwa [List.append_nil] at h

theorem isSome_slice?_iff {t : Text} {s : Span} :
    (slice? t s).isSome = true ↔ s.start ≤ s.stop ∧ IsBoundary t s.start ∧ IsBoundary t s.stop := by
  constructor
  · intro h
    obtain ⟨w, hw⟩ := Option.isSome_iff_exists.1 h
    obtain ⟨a, b, rfl, ha, haw⟩ := slice?_eq_some_iff.1 hw
    exact ⟨by rw [← ha, ← haw, size_append]; omega, ⟨a, w ++ b, rfl, ha⟩,
      ⟨a ++ w, b, (List.append_assoc a w b).symm, haw⟩⟩
  · rintro ⟨hle, ⟨a, b, rfl, ha⟩, ⟨a', b', hab, ha'⟩⟩
    obtain ⟨w, rfl⟩ : ∃ w, a' = a ++ w := by
      rcases List.append_eq_append_iff.1 hab with ⟨w, hw, -⟩ | ⟨w, hw, -⟩
      · exact ⟨w, hw⟩
      · have hsize : size w = 0 := by
          rw [hw, size_append] at ha
          omega
        exact ⟨[], by rw [hw, size_eq_zero.1 hsize]; simp⟩
    rw [List.append_assoc, List.append_right_inj] at hab
    rw [hab, slice?_eq_some_iff.2 ⟨a, b', rfl, ha, ha'⟩]
    rfl

/-! ### Octets -/

/-- The bytes of a text, each as the character of its code. -/
def octets (t : Text) : Text := (utf8 t).map fun b => Char.ofNat b.toNat

/-- A class of characters of one byte. -/
def IsAsciiClass (p : Char → Bool) : Prop := ∀ c, p c = true → isAscii c = true

@[simp] theorem octets_nil : octets [] = [] := rfl

@[simp] theorem octets_append (a b : Text) : octets (a ++ b) = octets a ++ octets b := by
  rw [octets, octets, octets, utf8, List.flatMap_append, List.map_append]
  rfl

theorem octets_cons (c : Char) (t : Text) : octets (c :: t) = octets [c] ++ octets t :=
  octets_append [c] t

@[simp] theorem length_octets (t : Text) : (octets t).length = size t := by
  rw [octets, List.length_map, length_utf8]

/-- The octets behind a first part. -/
theorem drop_octets (a b : Text) : (octets (a ++ b)).drop (size a) = octets b := by
  rw [octets_append, ← length_octets, List.drop_left]

theorem getElem?_octets (a b : Text) (k : Nat) :
    (octets (a ++ b))[size a + k]? = (octets b)[k]? := by
  rw [← List.getElem?_drop, drop_octets]

theorem octets_ne_nil (c : Char) : octets [c] ≠ [] := by
  rw [Ne, ← List.length_eq_zero_iff, length_octets, size_cons]
  have := c.utf8Size_pos
  omega

theorem isAscii_iff {c : Char} : isAscii c = true ↔ c.toNat < 128 := by
  rw [isAscii, decide_eq_true_eq, UInt32.lt_iff_toNat_lt]
  rfl

theorem toNat_ofNat_byte (b : UInt8) : (Char.ofNat b.toNat).toNat = b.toNat := by
  have hb := b.toNat_lt
  have hv : b.toNat.isValidChar := .inl (by omega)
  rw [Char.ofNat, dif_pos hv]
  rfl

/-- An ASCII character is its own octet. -/
theorem octets_of_isAscii {c : Char} (h : isAscii c = true) : octets [c] = [c] := by
  have hc : Char.ofNat (asciiByte c).toNat = c := by
    rw [toNat_asciiByte h]
    exact Char.ofNat_toNat c
  rw [octets, utf8_cons, encodeChar_of_isAscii h]
  simp [hc]

/-- The octets of any other character are none of ASCII. -/
theorem isAscii_octet {c d : Char} (h : isAscii c = false) (hd : d ∈ octets [c]) :
    isAscii d = false := by
  rw [octets, utf8_cons, utf8_nil, List.append_nil] at hd
  obtain ⟨b, hb, rfl⟩ := List.mem_map.1 hd
  have hle := le_of_mem_encodeChar h hb
  rw [← Bool.not_eq_true, isAscii_iff, toNat_ofNat_byte]
  omega

/-- **A class of ASCII characters** holds of every octet of a character what it holds of the
character. -/
theorem class_octet {p : Char → Bool} (hp : IsAsciiClass p) {c d : Char} (hd : d ∈ octets [c]) :
    p d = p c := by
  cases hc : isAscii c with
  | true =>
    rw [octets_of_isAscii hc, List.mem_singleton] at hd
    rw [hd]
  | false =>
    have hnot : ∀ x, isAscii x = false → p x = false := by
      intro x hx
      rw [← Bool.not_eq_true]
      exact fun hpx => by rw [hp x hpx] at hx; cases hx
    rw [hnot c hc, hnot d (isAscii_octet hc hd)]

/-- The octet at an offset inside a character. -/
theorem exists_octet_at {a b : Text} {c : Char} {i : Nat} (hle : size a ≤ i)
    (hlt : i < size a + c.utf8Size) : ∃ d ∈ octets [c], (octets (a ++ c :: b))[i]? = some d := by
  obtain ⟨k, rfl⟩ := Nat.exists_eq_add_of_le hle
  have hk : k < (octets [c]).length := by rw [length_octets, size_cons, size_nil]; omega
  refine ⟨(octets [c])[k], List.getElem_mem hk, ?_⟩
  rw [getElem?_octets, octets_cons, List.getElem?_append_left hk, List.getElem?_eq_getElem hk]

section

variable {p : Char → Bool} (hp : IsAsciiClass p)
include hp

/-- The first octet of a text. -/
theorem any_head?_octets (t : Text) : (octets t).head?.any p = t.head?.any p := by
  cases t with
  | nil => rfl
  | cons c t =>
    obtain ⟨d, ds, hd⟩ := List.exists_cons_of_ne_nil (octets_ne_nil c)
    rw [octets_cons, hd]
    exact class_octet hp (hd ▸ List.mem_cons_self)

/-- The octets of a class in front of a text are the characters of the class. -/
theorem takeWhile_octets (t : Text) : (octets t).takeWhile p = t.takeWhile p := by
  induction t with
  | nil => rfl
  | cons c t ih =>
    rw [octets_cons]
    cases hc : p c with
    | true =>
      rw [octets_of_isAscii (hp c hc), List.singleton_append, List.takeWhile_cons_of_pos hc,
        List.takeWhile_cons_of_pos hc, ih]
    | false =>
      obtain ⟨d, ds, hd⟩ := List.exists_cons_of_ne_nil (octets_ne_nil c)
      have hpd : p d = false := (class_octet hp (hd ▸ List.mem_cons_self)).trans hc
      rw [hd, List.cons_append, List.takeWhile_cons_of_neg (by simp [hpd]),
        List.takeWhile_cons_of_neg (by simp [hc])]

theorem size_of_class {t : Text} (h : ∀ c ∈ t, p c = true) : size t = t.length := by
  induction t with
  | nil => rfl
  | cons c t ih =>
    obtain ⟨hc, ht⟩ := List.forall_mem_cons.1 h
    rw [size_cons, utf8Size_of_isAscii (hp c hc), ih ht, List.length_cons, Nat.add_comm]

end

/-- One ASCII character as a class. -/
theorem isAsciiClass_eq {d : Char} (hd : isAscii d = true) : IsAsciiClass (· = d) := by
  intro c hc
  rw [of_decide_eq_true hc, hd]

/-- **An ASCII character at an offset** is the octet there. -/
theorem getElem?_octets_eq_some_iff {d : Char} (hd : isAscii d = true) (a b : Text) :
    (octets (a ++ b))[size a]? = some d ↔ b.head? = some d := by
  have hany : ∀ o : Option Char, o = some d ↔ o.any (· = d) = true := by
    rintro (_ | c) <;> simp
  have hzero := getElem?_octets a b 0
  rw [Nat.add_zero] at hzero
  rw [hzero, ← List.head?_eq_getElem?, hany, hany, any_head?_octets (isAsciiClass_eq hd)]

/-- An ASCII text is in front of the octets of a text if it is in front of the text. -/
theorem isPrefixOf_octets {w : Text} (hw : ∀ c ∈ w, isAscii c = true) (t : Text) :
    w.isPrefixOf (octets t) = w.isPrefixOf t := by
  induction w generalizing t with
  | nil => rw [List.isPrefixOf_nil_left, List.isPrefixOf_nil_left]
  | cons d w ih =>
    obtain ⟨hd, hw⟩ := List.forall_mem_cons.1 hw
    cases t with
    | nil => rfl
    | cons c t =>
      by_cases hc : c = d
      · rw [octets_cons, hc, octets_of_isAscii hd, List.singleton_append, List.isPrefixOf_cons_cons,
          List.isPrefixOf_cons_cons, ih hw]
      · obtain ⟨x, xs, hx⟩ := List.exists_cons_of_ne_nil (octets_ne_nil c)
        have hclass := class_octet (isAsciiClass_eq hd) (c := c) (d := x) (hx ▸ List.mem_cons_self)
        have hxd : x ≠ d := by simpa [hc] using hclass
        rw [octets_cons, hx, List.cons_append, List.isPrefixOf_cons_cons, List.isPrefixOf_cons_cons,
          beq_false_of_ne hxd.symm, beq_false_of_ne (Ne.symm hc), Bool.false_and, Bool.false_and]

end ElementModules.Text
