import ElementModules.Proofs.Script.Bytes

/-!
# Scanning joined texts by offset

What stands at an offset of a joined text is what stands there in one of its parts. For the first
part that holds up to its last byte: only a slash looks at the character behind it, and a slash is
one byte. For the second part it holds where the first one leaves the scan as it began, as an empty
text does and a balanced one that ends its line (`LeavesStart`).

## Main results

* `placeAt_append_left`: what stands in a first part.
* `LeavesStart.placeAt_append_right`, `LeavesStart.closeOffset?_append`: what stands in a second
  part, and where its brackets close.
* `placeAt_append`: the scan of a joined text, and of the bytes of a character.
-/

namespace ElementModules.Script

open Text

/-- What stands at a byte offset: the layer of the byte, if there is one, and the depth there. -/
def placeAt (t : Text) (i : Nat) : Option Layer × Nat :=
  (layerAt? t i, depthBefore t i)

/-- A text behind which the scan starts anew: it is empty, or it is balanced and ends its line. -/
def LeavesStart (a : Text) : Prop :=
  a = [] ∨ a.getLast? = some '\n' ∧ isBalanced a = true

/-! ### One character -/

section

variable {a : Text} {c : Char} {b : Text} {i : Nat}

theorem placeAt_at (hle : size a ≤ i) (hlt : i < size a + c.utf8Size) :
    placeAt (a ++ c :: b) i = (some ((endState a).layer c b.head?), (endState a).depth) := by
  rw [placeAt, layerAt?_at hle hlt, depthBefore_at hle hlt]

/-- The scan by bytes says the same of every byte of a character. -/
theorem getElem?_byteMarks_at (hle : size a ≤ i) (hlt : i < size a + c.utf8Size) :
    (byteMarks (a ++ c :: b))[i]? = some ((endState a).layer c b.head?, (endState a).depth) := by
  rw [getElem?_byteMarks, layerAt?_at hle hlt, depthBefore_at hle hlt, Option.map_some]

end

/-! ### The first part -/

/-- **What stands in a first part** does not depend on what follows, but for a slash at its end. -/
theorem placeAt_append_left {a : Text} (b : Text) {i : Nat} (hi : i < size a)
    (h : i + 1 < size a ∨ a.getLast? ≠ some '/') : placeAt (a ++ b) i = placeAt a i := by
  obtain ⟨p, c, r, rfl, hle, hlt⟩ := exists_char_at hi
  have hlayer : (endState p).layer c (r ++ b).head? = (endState p).layer c r.head? := by
    cases r with
    | cons d r => rfl
    | nil =>
      refine State.layer_of_ne_slash ?_ _ _ _
      rintro rfl
      -- A slash is one byte, so it has none in front of its last one.
      rcases h with hlast | hlast
      · have hslash : Char.utf8Size '/' = 1 := rfl
        simp only [size_append, size_cons, size_nil, hslash] at hlast
        omega
      · exact hlast List.getLast?_concat
  rw [List.append_assoc, List.cons_append, placeAt_at hle hlt, placeAt_at hle hlt, hlayer]

/-! ### The second part -/

namespace LeavesStart

variable {a : Text} (h : LeavesStart a) (b : Text)
include h

theorem endState : endState a = .start := by
  rcases h with rfl | ⟨hl, hb⟩
  · rfl
  · exact Closed.endState (.inl (closedBy_of_isBalanced hb hl))

theorem getLast?_ne : a.getLast? ≠ some '/' := by
  rcases h with rfl | ⟨hl, -⟩
  · exact nofun
  · rw [hl]
    decide

theorem endState_append : Script.endState (a ++ b) = Script.endState b := by
  rw [Script.endState_append, h.endState]
  rfl

/-- The second part is scanned as if it stood alone. -/
theorem placeAt_append_right (i : Nat) : placeAt (a ++ b) (size a + i) = placeAt b i := by
  have hmark : markAt? (size a + i) (marks (a ++ b)) = markAt? i (marks b) := by
    rw [markAt?_append, h.endState, marks]
  rw [placeAt, layerAt?, depthBefore, hmark, endDepth, h.endState_append, placeAt, layerAt?,
    depthBefore, endDepth]

/-- The brackets of the second part close where they close when it stands alone. -/
theorem closeOffset?_append (i : Nat) :
    closeOffset? (marks (a ++ b)) (size a + i) = (closeOffset? (marks b) i).map (size a + ·) := by
  rw [closeOffset?, fromOffset_marks_append, h.endState, ← marks, closeOffset?, Option.map_map]
  refine congrArg (Option.map · _) (funext fun k => ?_)
  rw [Function.comp_apply, Nat.add_assoc]

end LeavesStart

/-- **Scanning is compositional.** If the first part leaves the scan where it began, the scan of the
joined text is that of the first part followed by that of the second, the brackets of the second
part close where they close in it alone, and the text ends as the second part does. Behind any part,
what stands in front of the last byte of that part is left as it is. And every byte of a character
has the layer and the depth of the character, also where the scan reads bytes. -/
theorem placeAt_append (a b : Text) :
    (LeavesStart a →
      (∀ i, i < size a → placeAt (a ++ b) i = placeAt a i)
        ∧ (∀ i, placeAt (a ++ b) (size a + i) = placeAt b i)
        ∧ endDepth (a ++ b) = endDepth b ∧ isBalanced (a ++ b) = isBalanced b
        ∧ ∀ i, closeOffset? (marks (a ++ b)) (size a + i)
            = (closeOffset? (marks b) i).map (size a + ·))
      ∧ (∀ i, i + 1 < size a → placeAt (a ++ b) i = placeAt a i)
      ∧ ∀ p c r, a = p ++ c :: r → ∃ l d, ∀ i, size p ≤ i → i < size p + c.utf8Size →
          placeAt a i = (some l, d) ∧ (byteMarks a)[i]? = some (l, d) := by
  refine ⟨fun h => ⟨fun i hi => ?_, h.placeAt_append_right b, ?_, ?_, h.closeOffset?_append b⟩,
    fun i hi => ?_, ?_⟩
  · exact placeAt_append_left b hi (.inr h.getLast?_ne)
  · rw [endDepth, h.endState_append, endDepth]
  · rw [isBalanced, h.endState_append, isBalanced]
  · exact placeAt_append_left b (by omega) (.inl hi)
  · rintro p c r rfl
    exact ⟨_, _, fun i hle hlt => ⟨placeAt_at hle hlt, getElem?_byteMarks_at hle hlt⟩⟩

/-- A balanced script that ends its line. -/
def callLine : Text := "f(\x7b\x7d);\n"

/-- A script with a character of two bytes in brackets, and with a slash at its end. -/
def openLine : Text := "g([é])/"

theorem placeAt_callLine_append :
    (LeavesStart callLine ∧ placeAt (callLine ++ openLine) 10 = placeAt openLine 3
        ∧ closeOffset? (marks (callLine ++ openLine)) 8 = some 13)
      ∧ placeAt (openLine ++ callLine) 5 = placeAt openLine 5
      ∧ ∃ l d, placeAt openLine 4 = (some l, d) ∧ (byteMarks openLine)[4]? = some (l, d) := by
  have hleaves : LeavesStart callLine := .inr ⟨by decide, by decide⟩
  obtain ⟨-, hright, -, -, hclose⟩ := (placeAt_append callLine openLine).1 hleaves
  obtain ⟨l, d, hbytes⟩ := (placeAt_append openLine callLine).2.2 "g([".toList 'é' "])/".toList rfl
  refine ⟨⟨hleaves, hright 3, ?_⟩, ?_, l, d, hbytes 4 (by decide) (by decide)⟩
  · exact (hclose 1).trans (by decide)
  · exact (placeAt_append openLine callLine).2.1 5 (by decide)

end ElementModules.Script
