import ElementModules.Text.Basic

/-!
# Positions in a text

A position names a byte offset by its line, counted from one, and by the bytes between the start of
that line and the offset. Main statement: `Position.offset_ofOffset`, within a text the offset of a
position is the one it was made from.
-/

namespace ElementModules

/-- A place in a text. -/
structure Position where
  /-- The number of the line, from one. -/
  line : Nat
  /-- The bytes since the start of the line. -/
  column : Nat
  /-- The bytes since the start of the text. -/
  offset : Nat
  deriving DecidableEq, Repr

namespace Position

/-- The position before the first character. -/
def first : Position := ⟨1, 0, 0⟩

/-- The position `n` bytes further on, where `t` is the text that follows `p`. It may fall inside a
character; past the end it is the position of the end. -/
def advance (p : Position) : Text → Nat → Position
  | [], _ => p
  | c :: t, n =>
    if n = 0 then p
    else if c = '\n' then advance ⟨p.line + 1, 0, p.offset + 1⟩ t (n - 1)
    else
      let k := min n c.utf8Size
      advance ⟨p.line, p.column + k, p.offset + k⟩ t (n - k)

/-- The position of a byte offset. -/
def ofOffset (t : Text) (offset : Nat) : Position :=
  first.advance t offset

/-- The number of a line and the number of a column, both from one. -/
def display (p : Position) : String :=
  toString p.line ++ ":" ++ toString (p.column + 1)

theorem offset_advance (p : Position) (t : Text) (n : Nat) (h : n ≤ Text.size t) :
    (p.advance t n).offset = p.offset + n := by
  induction t generalizing p n with
  | nil => simp only [Text.size_nil] at h; simp [advance]; omega
  | cons c t ih =>
    unfold advance
    split
    · omega
    · split
      next hc =>
        subst hc
        have h1 : ('\n' : Char).utf8Size = 1 := by decide
        rw [Text.size_cons, h1] at h
        rw [ih _ _ (by omega)]
        show p.offset + 1 + (n - 1) = _
        omega
      next =>
        rw [Text.size_cons] at h
        rw [ih _ _ (by omega)]
        show p.offset + min n c.utf8Size + (n - min n c.utf8Size) = _
        omega

/-- Within a text a position keeps the offset it was made from. -/
theorem offset_ofOffset {t : Text} {n : Nat} (h : n ≤ Text.size t) :
    (ofOffset t n).offset = n := by
  simpa [ofOffset, first] using offset_advance first t n h

end Position

end ElementModules
