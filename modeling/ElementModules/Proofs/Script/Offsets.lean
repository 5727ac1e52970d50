import ElementModules.Proofs.Script.Places
import ElementModules.Script.Bracket

/-!
# What stands at a byte offset

Layers, depths and characters are asked for by byte offset. Every offset inside a text lies in one
of its characters (`exists_char_at`), and the answer is that of the state of the scan in front of
that character. Behind a first part, the answer is that of the second part, scanned from the state
in which the first one ends (`markAt?_append`).

## Main results

* `layerAt?_at`, `depthBefore_at`, `charAt?_at`: what stands at an offset inside a character.
* `depthBefore_size`: the depth behind a first part.
* `exists_depthBefore`: the depth at any offset is the depth behind some first part.
-/

namespace ElementModules.Script

open Text

/-! ### Cutting at an offset -/

@[simp] theorem fromOffset_zero (ms : List Mark) : fromOffset 0 ms = ms :=
  fromOffset_eq [] ms

/-- Marks that end in front of an offset are passed over. -/
theorem fromOffset_append (a b : List Mark) (k : Nat) :
    fromOffset (sizeOf a + k) (a ++ b) = fromOffset k b := by
  induction a with
  | nil => rw [sizeOf, chars, List.map_nil, size_nil, Nat.zero_add, List.nil_append]
  | cons m a ih =>
    rw [sizeOf_cons, List.cons_append, fromOffset, if_neg (by omega), ← ih]
    congr 1
    omega

/-- Past the last mark there is none. -/
theorem fromOffset_of_le {a : List Mark} {k : Nat} (h : sizeOf a ≤ k) : fromOffset k a = [] := by
  obtain ⟨j, rfl⟩ := Nat.exists_eq_add_of_le h
  have happ := fromOffset_append a [] j
  rwa [List.append_nil] at happ

@[simp] theorem sizeOf_marksFrom (s : State) (t : Text) : sizeOf (marksFrom s t) = size t := by
  rw [sizeOf, chars_marksFrom]

/-- The marks of a joined text are those of its first part, but for the layer of the last one, and
those of the second part from where the first one ends. -/
theorem exists_marksFrom_append (s : State) (a b : Text) :
    ∃ u, marksFrom s (a ++ b) = u ++ marksFrom (s.run a) b ∧ chars u = a := by
  induction a generalizing s with
  | nil => exact ⟨[], rfl, rfl⟩
  | cons c a ih =>
    obtain ⟨u, hu, ha⟩ := ih (s.step c)
    refine ⟨⟨c, s.layer c (a ++ b).head?, s.depth⟩ :: u, ?_, ?_⟩
    · rw [List.cons_append, marksFrom, hu, List.cons_append, State.run_cons]
    · rw [chars, List.map_cons, ← chars, ha]

/-- What is cut off behind a first part is cut off the second part. -/
theorem fromOffset_marks_append (a b : Text) (k : Nat) :
    fromOffset (size a + k) (marks (a ++ b)) = fromOffset k (marksFrom (endState a) b) := by
  obtain ⟨u, hu, rfl⟩ := exists_marksFrom_append .start a b
  rw [marks, hu]
  exact fromOffset_append u _ k

/-- **Behind a first part** the second part is read from where the first one ends. -/
theorem markAt?_append (a b : Text) (k : Nat) :
    markAt? (size a + k) (marks (a ++ b)) = markAt? k (marksFrom (endState a) b) := by
  rw [markAt?, fromOffset_marks_append, markAt?]

/-! ### The character at an offset -/

/-- An offset inside a text lies in one of its characters. -/
theorem exists_char_at {t : Text} {i : Nat} (h : i < size t) :
    ∃ a c b, t = a ++ c :: b ∧ size a ≤ i ∧ i < size a + c.utf8Size := by
  induction t generalizing i with
  | nil => exact absurd h (Nat.not_lt_zero i)
  | cons c t ih =>
    by_cases hi : i < c.utf8Size
    · exact ⟨[], c, t, rfl, Nat.zero_le i, by rwa [size_nil, Nat.zero_add]⟩
    · rw [size_cons] at h
      obtain ⟨a, d, b, rfl, hle, hlt⟩ := ih (i := i - c.utf8Size) (by omega)
      exact ⟨c :: a, d, b, rfl, by rw [size_cons]; omega, by rw [size_cons]; omega⟩

section

variable {a : Text} {c : Char} {b : Text} {i : Nat}

theorem markAt?_at (hle : size a ≤ i) (hlt : i < size a + c.utf8Size) :
    markAt? i (marks (a ++ c :: b))
      = some ⟨c, (endState a).layer c b.head?, (endState a).depth⟩ := by
  obtain ⟨k, rfl⟩ := Nat.exists_eq_add_of_le hle
  have hk : k < c.utf8Size := by omega
  rw [markAt?_append, markAt?, marksFrom, fromOffset, Mark.size, if_pos hk, List.head?_cons]

/-- Every byte of a character has the layer of the character. -/
theorem layerAt?_at (hle : size a ≤ i) (hlt : i < size a + c.utf8Size) :
    layerAt? (a ++ c :: b) i = some ((endState a).layer c b.head?) := by
  rw [layerAt?, markAt?_at hle hlt, Option.map_some]

/-- Every byte of a character has the depth in front of the character. -/
theorem depthBefore_at (hle : size a ≤ i) (hlt : i < size a + c.utf8Size) :
    depthBefore (a ++ c :: b) i = (endState a).depth := by
  rw [depthBefore, markAt?_at hle hlt, Option.map_some, Option.getD_some]

theorem charAt?_at (hle : size a ≤ i) (hlt : i < size a + c.utf8Size) :
    charAt? (a ++ c :: b) i = some c := by
  induction a generalizing i with
  | nil => rw [List.nil_append, charAt?, if_pos (by simpa using hlt)]
  | cons d a ih =>
    rw [size_cons] at hle hlt
    rw [List.cons_append, charAt?, if_neg (by omega)]
    exact ih (by omega) (by omega)

end

/-- Past the end the depth is that of the end. -/
theorem depthBefore_of_le {t : Text} {i : Nat} (h : size t ≤ i) : depthBefore t i = endDepth t := by
  rw [depthBefore, markAt?, fromOffset_of_le (by rwa [marks, sizeOf_marksFrom]), List.head?_nil,
    Option.map_none, Option.getD_none]

/-- Past the end there is no layer. -/
theorem layerAt?_of_le {t : Text} {i : Nat} (h : size t ≤ i) : layerAt? t i = none := by
  rw [layerAt?, markAt?, fromOffset_of_le (by rwa [marks, sizeOf_marksFrom]), List.head?_nil,
    Option.map_none]

/-- **The depth behind a first part** is that of the state in which it ends. -/
theorem depthBefore_size (a b : Text) : depthBefore (a ++ b) (size a) = (endState a).depth := by
  cases b with
  | nil => rw [List.append_nil, depthBefore_of_le (Nat.le_refl _), endDepth]
  | cons c b => exact depthBefore_at (Nat.le_refl _) (Nat.lt_add_of_pos_right c.utf8Size_pos)

/-- **The depth at any offset** is the depth behind a first part that ends there or in front of it;
no character lies between. -/
theorem exists_depthBefore (t : Text) (i : Nat) :
    ∃ a b, t = a ++ b ∧ size a ≤ i ∧ depthBefore t i = (endState a).depth
      ∧ ∀ p q, t = p ++ q → size p ≤ i → size p ≤ size a := by
  by_cases h : i < size t
  · obtain ⟨a, c, b, rfl, hle, hlt⟩ := exists_char_at h
    refine ⟨a, c :: b, rfl, hle, depthBefore_at hle hlt, fun p q hpq hp => ?_⟩
    by_contra hlong
    rcases List.append_eq_append_iff.1 hpq with ⟨w, rfl, hw⟩ | ⟨w, rfl, -⟩
    · cases w with
      | nil => simp at hlong
      | cons d w =>
        obtain ⟨rfl, -⟩ := List.cons.inj hw
        simp only [size_append, size_cons] at hp
        omega
    · rw [size_append] at hlong
      omega
  · refine ⟨t, [], (List.append_nil t).symm, by omega, depthBefore_of_le (by omega), ?_⟩
    rintro p q rfl -
    rw [size_append]
    exact Nat.le_add_right _ _

end ElementModules.Script
