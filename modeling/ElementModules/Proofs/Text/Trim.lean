import ElementModules.Text.Blank
import Mathlib.Data.List.DropRight
import Mathlib.Data.List.TakeWhile

/-!
# Trimmed texts

Trimming looks at the two ends of a text only: blanks added at either end are cut off again
(`trim_append_blanks`, `trim_blanks_append`), and what is left neither begins nor ends with a blank.

## Main results

* `trim_append_blanks`, `trim_blanks_append`: added blanks do not matter.
* `exists_eq_blanks_trim_blanks`: a text is its trimmed text between blanks.
* `trim_eq_nil`: only blank texts are trimmed to nothing.
-/

namespace ElementModules.Text

theorem trimEnd_append_blanks (t : Text) {b : Text} (hb : ∀ c ∈ b, isBlank c = true) :
    trimEnd (t ++ b) = trimEnd t := by
  rw [trimEnd, List.reverse_append, List.dropWhile_append_of_pos (by simpa using hb)]
  rfl

theorem trimStart_blanks_append {b : Text} (hb : ∀ c ∈ b, isBlank c = true) (t : Text) :
    trimStart (b ++ t) = trimStart t :=
  List.dropWhile_append_of_pos hb

theorem trim_blanks_append {b : Text} (hb : ∀ c ∈ b, isBlank c = true) (t : Text) :
    trim (b ++ t) = trim t := by
  rw [trim, trimStart_blanks_append hb]
  rfl

/-- A text is its trimmed text with blanks behind it. -/
theorem exists_eq_trimEnd_blanks (t : Text) :
    ∃ b, t = trimEnd t ++ b ∧ ∀ c ∈ b, isBlank c = true := by
  refine ⟨(t.reverse.takeWhile isBlank).reverse, ?_, fun c hc => ?_⟩
  · rw [trimEnd, ← List.reverse_append, List.takeWhile_append_dropWhile, List.reverse_reverse]
  · exact List.mem_takeWhile_imp (List.mem_reverse.1 hc)

/-- A text is its trimmed text between blanks. -/
theorem exists_eq_blanks_trim_blanks (t : Text) :
    ∃ b b', t = b ++ trim t ++ b' ∧ (∀ c ∈ b, isBlank c = true) ∧ ∀ c ∈ b', isBlank c = true := by
  have hs : t = t.takeWhile isBlank ++ trimStart t := (List.takeWhile_append_dropWhile).symm
  have he : trimStart t
      = trim t ++ ((trimStart t).reverse.takeWhile isBlank).reverse := by
    rw [trim, trimEnd, ← List.reverse_append, List.takeWhile_append_dropWhile, List.reverse_reverse]
  refine ⟨t.takeWhile isBlank, ((trimStart t).reverse.takeWhile isBlank).reverse, ?_,
    fun c hc => List.mem_takeWhile_imp hc,
    fun c hc => List.mem_takeWhile_imp (List.mem_reverse.1 hc)⟩
  rw [List.append_assoc, ← he]
  exact hs

/-- Only blank texts are trimmed to nothing. -/
theorem trim_eq_nil {t : Text} : trim t = [] ↔ ∀ c ∈ t, isBlank c = true := by
  constructor
  · intro h
    obtain ⟨b, b', ht, hb, hb'⟩ := exists_eq_blanks_trim_blanks t
    rw [h, List.append_nil] at ht
    rw [ht]
    intro c hc
    exact (List.mem_append.1 hc).elim (hb c) (hb' c)
  · intro h
    rw [← List.append_nil t, trim_blanks_append h]
    rfl

theorem trim_append_blanks (t : Text) {b : Text} (hb : ∀ c ∈ b, isBlank c = true) :
    trim (t ++ b) = trim t := by
  by_cases ht : ∀ c ∈ t, isBlank c = true
  · rw [trim_blanks_append ht, trim_eq_nil.2 hb, trim_eq_nil.2 ht]
  · have hne : trimStart t ≠ [] := by
      rw [trimStart, Ne, List.dropWhile_eq_nil_iff]
      exact ht
    have : trimStart (t ++ b) = trimStart t ++ b := by
      rw [trimStart, List.dropWhile_append, if_neg]
      · rfl
      · rw [List.isEmpty_iff]
        exact hne
    rw [trim, this, trimEnd_append_blanks _ hb]
    rfl

/-- A line feed at the end is cut off. -/
@[simp] theorem trim_append_newline (t : Text) : trim (t ++ ['\n']) = trim t :=
  trim_append_blanks t (by simp only [List.mem_singleton, forall_eq]; decide)

theorem trimEnd_eq_self {t : Text} (h : ∀ c ∈ t.getLast?, isBlank c = false) :
    trimEnd t = t := by
  rw [trimEnd]
  cases hr : t.reverse with
  | nil => simpa using hr.symm
  | cons c r =>
    have hc : isBlank c = false := h c (by rw [← List.head?_reverse, hr]; rfl)
    rw [List.dropWhile_cons_of_neg (by simp [hc]), ← hr, List.reverse_reverse]

/-- Trimming stops at a character that is not blank. -/
theorem exists_trimEnd_append {x : Char} (hx : isBlank x = false) (a r : Text) :
    ∃ r', trimEnd (a ++ x :: r) = a ++ x :: r' := by
  have hstop : (x :: a.reverse).dropWhile isBlank = x :: a.reverse :=
    List.dropWhile_cons_of_neg (by simp [hx])
  simp only [trimEnd, List.reverse_append, List.reverse_cons, List.append_assoc,
    List.singleton_append, List.dropWhile_append, hstop]
  split
  · exact ⟨[], by simp⟩
  · exact ⟨(r.reverse.dropWhile isBlank).reverse, by simp⟩

theorem getLast?_trimEnd (t : Text) : ∀ c ∈ (trimEnd t).getLast?, isBlank c = false := by
  intro c hc
  obtain ⟨hne, rfl⟩ := List.mem_getLast?_eq_getLast hc
  exact Bool.eq_false_iff.2 (List.rdropWhile_last_not isBlank t hne)

theorem trimEnd_trimEnd (t : Text) : trimEnd (trimEnd t) = trimEnd t :=
  List.rdropWhile_idempotent isBlank t

/-- Cutting at the start and trimming at the end do not disturb each other. -/
theorem drop_trimEnd (n : Nat) (t : Text) : (trimEnd t).drop n = trimEnd (t.drop n) := by
  obtain ⟨b, ht, hb⟩ := exists_eq_trimEnd_blanks t
  have hdrop : t.drop n = (trimEnd t).drop n ++ b.drop (n - (trimEnd t).length) := by
    rw [← List.drop_append, ← ht]
  have hlast : ∀ c ∈ ((trimEnd t).drop n).getLast?, isBlank c = false := by
    intro c hc
    rw [List.getLast?_drop] at hc
    split at hc
    · cases hc
    · exact getLast?_trimEnd t c hc
  rw [hdrop, trimEnd_append_blanks _ fun c hc => hb c (List.mem_of_mem_drop hc),
    trimEnd_eq_self hlast]

/-- A text that neither begins nor ends with a blank is trimmed. -/
theorem trim_eq_self {t : Text} (hs : ∀ c ∈ t.head?, isBlank c = false)
    (he : ∀ c ∈ t.getLast?, isBlank c = false) : trim t = t := by
  have h1 : trimStart t = t := by
    cases t with
    | nil => rfl
    | cons c t => simp [trimStart, hs c (by simp)]
  rw [trim, h1, trimEnd_eq_self he]

end ElementModules.Text
