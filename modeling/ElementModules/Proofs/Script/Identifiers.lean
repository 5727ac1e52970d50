import ElementModules.Proofs.Script.Names

/-!
# Names that are made from any text

A name is made of the letters, digits and dollar signs of a text, in camel case. An underscore goes
in front if these begin with a digit or are a reserved word (`guarded`), and a text without any of
them gets a fixed name. Since no underscore is ever kept, the one in front is always a guard: to make a
name of a guarded text is to drop the guard, to find the same characters behind it, and to put it
back. So the made names are the guarded texts, and these are the texts that are their own names.

## Main results

* `isIdentifier_guarded`: a guarded text may be bound.
* `toIdentifier_eq_self_iff`: which texts are their own names.
* `toIdentifier_usable`: a made name may be bound, and is its own name.
-/

namespace ElementModules.Script

open Text

/-- The characters that a made name takes from a text. -/
def isKept (c : Char) : Bool := c.isAlphanum || c = '$'

/-- A text behind an underscore if it could not be bound without one. -/
def guarded (w : Text) : Text :=
  if w.head?.any Char.isDigit || isReserved w then '_' :: w else w

theorem isNameChar_of_isKept {c : Char} (h : isKept c = true) : Token.isNameChar c = true := by
  rw [Token.isNameChar]
  rcases Bool.or_eq_true_iff.1 h with h | h <;> simp [h]

/-! ### Camel case -/

/-- The upper case of a letter or digit of ASCII is one. -/
theorem isAlphanum_toUpper {c : Char} (h : c.isAlphanum = true) : c.toUpper.isAlphanum = true := by
  have hA : 'A'.val.toNat = 65 := rfl
  have hZ : 'Z'.val.toNat = 90 := rfl
  have ha : 'a'.val.toNat = 97 := rfl
  have hz : 'z'.val.toNat = 122 := rfl
  unfold Char.toUpper
  split
  · rename_i hc
    simp only [UInt32.le_iff_toNat_le, ha, hz] at hc
    have hval : (c.val + ('A'.val - 'a'.val)).toNat = c.val.toNat - 32 := by
      rw [UInt32.toNat_add, UInt32.toNat_sub, hA, ha]
      omega
    have halnum : ∀ d : Char, d.isAlphanum
        = (decide ('A'.val ≤ d.val ∧ d.val ≤ 'Z'.val) || d.isLower || d.isDigit) := fun _ => rfl
    rw [halnum, Bool.or_eq_true, Bool.or_eq_true, decide_eq_true_eq,
      UInt32.le_iff_toNat_le, UInt32.le_iff_toNat_le, hval]
    exact .inl (.inl (by omega))
  · exact h

/-- The upper case of a kept character is kept. -/
theorem isKept_toUpper {c : Char} (h : isKept c = true) : isKept c.toUpper = true := by
  rcases Bool.or_eq_true_iff.1 h with h | h
  · simp [isKept, isAlphanum_toUpper h]
  · obtain rfl : c = '$' := by simpa using h
    rfl

/-- A kept character in camel case. -/
theorem camelCase_cons {c : Char} (h : isKept c = true) (started raise : Bool) (t : Text) :
    camelCase started raise (c :: t)
      = (if raise && started then c.toUpper else c) :: camelCase true false t := by
  rw [camelCase]
  exact if_pos h

/-- Camel case has kept characters only. -/
theorem isKept_of_mem_camelCase {t : Text} {started raise : Bool} {c : Char}
    (h : c ∈ camelCase started raise t) : isKept c = true := by
  induction t generalizing started raise with
  | nil => cases h
  | cons d t ih =>
    rw [camelCase] at h
    split at h
    next hd =>
      rcases List.mem_cons.1 h with rfl | h
      · split
        · exact isKept_toUpper hd
        · exact hd
      · exact ih h
    next => exact ih h

/-- Kept characters stay as they are: nothing between them asks for upper case. -/
theorem camelCase_of_isKept {w : Text} (hw : ∀ c ∈ w, isKept c = true) (started : Bool) :
    camelCase started false w = w := by
  induction w generalizing started with
  | nil => rfl
  | cons c w ih =>
    obtain ⟨hc, hw⟩ := List.forall_mem_cons.1 hw
    rw [camelCase_cons hc, ih hw]
    rfl

/-- An underscore in front is dropped, and raises no character since none is in front of it. -/
theorem camelCase_underscore {w : Text} (hw : ∀ c ∈ w, isKept c = true) :
    camelCase false false ('_' :: w) = w := by
  have hdrop : camelCase false false ('_' :: w) = camelCase false true w := rfl
  rw [hdrop]
  cases w with
  | nil => rfl
  | cons c w =>
    obtain ⟨hc, hw⟩ := List.forall_mem_cons.1 hw
    rw [camelCase_cons hc, camelCase_of_isKept hw]
    rfl

/-! ### Guarded texts -/

/-- The name made from a text of which something is kept. -/
theorem toIdentifier_eq {t : Text} (h : camelCase false false t ≠ []) :
    toIdentifier t = guarded (camelCase false false t) := by
  obtain ⟨c, w, hc⟩ := List.exists_cons_of_ne_nil h
  rw [toIdentifier, hc]
  rfl

theorem toIdentifier_of_nil {t : Text} (h : camelCase false false t = []) :
    toIdentifier t = "element" := by
  rw [toIdentifier, h]

theorem exists_guarded (t : Text) :
    ∃ w, w ≠ [] ∧ (∀ c ∈ w, isKept c = true) ∧ toIdentifier t = guarded w := by
  by_cases h : camelCase false false t = []
  · have hkept : ("element" : Text).all isKept = true := by decide
    exact ⟨"element", by decide, List.all_eq_true.1 hkept,
      (toIdentifier_of_nil h).trans (by decide)⟩
  · exact ⟨_, h, fun _ => isKept_of_mem_camelCase, toIdentifier_eq h⟩

section

variable {w : Text} (hne : w ≠ []) (hw : ∀ c ∈ w, isKept c = true)
include hw

/-- Behind a guard or without one, the same characters are kept. -/
theorem camelCase_guarded : camelCase false false (guarded w) = w := by
  rw [guarded]
  split
  · exact camelCase_underscore hw
  · exact camelCase_of_isKept hw false

include hne

/-- **A guarded text is its own name.** -/
theorem toIdentifier_guarded : toIdentifier (guarded w) = guarded w := by
  have hw' := camelCase_guarded hw
  rw [toIdentifier_eq (by rw [hw']; exact hne), hw']

/-- **A guarded text may be bound.** -/
theorem isIdentifier_guarded : isIdentifier (guarded w) = true := by
  obtain ⟨c, u, rfl⟩ := List.exists_cons_of_ne_nil hne
  have hchars : (c :: u).all Token.isNameChar = true :=
    List.all_eq_true.2 fun d hd => isNameChar_of_isKept (hw d hd)
  rw [isIdentifier, Bool.and_eq_true, Bool.not_eq_true']
  by_cases hg : ((c :: u).head?.any Char.isDigit || isReserved (c :: u)) = true
  · -- No reserved word begins with an underscore.
    have hwords : ∀ r ∈ reservedWords, r.head? ≠ some '_' := by decide
    rw [guarded, if_pos hg]
    refine ⟨by rw [isName, List.all_cons, hchars]; rfl, ?_⟩
    rw [isReserved, List.contains_eq_mem, decide_eq_false_iff_not]
    exact fun hmem => hwords _ hmem rfl
  · rw [guarded, if_neg hg]
    rw [Bool.not_eq_true, Bool.or_eq_false_iff] at hg
    refine ⟨?_, hg.2⟩
    have hstart : Token.isNameStart c = true := by
      have hc := hw c List.mem_cons_self
      rw [isKept, Char.isAlphanum, show c.isDigit = false from hg.1, Bool.or_false] at hc
      rw [Token.isNameStart]
      rcases Bool.or_eq_true_iff.1 hc with h | h <;> simp [h]
    rw [isName, hchars, Bool.and_true]
    exact hstart

end

theorem isName_toIdentifier (t : Text) : isName (toIdentifier t) = true := by
  obtain ⟨w, hne, hw, he⟩ := exists_guarded t
  have h := isIdentifier_guarded hne hw
  rw [isIdentifier, ← he, Bool.and_eq_true] at h
  exact h.1

/-- **The texts that are their own names** are the guarded ones. -/
theorem toIdentifier_eq_self_iff {t : Text} :
    toIdentifier t = t ↔ ∃ w, w ≠ [] ∧ (∀ c ∈ w, isKept c = true) ∧ t = guarded w := by
  constructor
  · intro h
    obtain ⟨w, hne, hw, he⟩ := exists_guarded t
    exact ⟨w, hne, hw, h.symm.trans he⟩
  · rintro ⟨w, hne, hw, rfl⟩
    exact toIdentifier_guarded hne hw

/-- **Made names are usable.** Whatever the text, its name may be bound, and is its own name. -/
theorem toIdentifier_usable (t : Text) :
    isIdentifier (toIdentifier t) = true ∧ toIdentifier (toIdentifier t) = toIdentifier t := by
  obtain ⟨w, hne, hw, he⟩ := exists_guarded t
  rw [he]
  exact ⟨isIdentifier_guarded hne hw, toIdentifier_guarded hne hw⟩

/-- A reserved word, a digit in front, separators alone, and characters beyond ASCII. -/
example : (["switch", "7-segment", "--", "é_x"] : List Text).map toIdentifier
    = ["_switch", "_7Segment", "element", "x"] := by
  decide

end ElementModules.Script
