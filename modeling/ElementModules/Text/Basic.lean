/-!
# Texts

A text is the list of its characters. Offsets into a text count the bytes of its UTF-8 form, so the
size of a text is the sum of its characters' sizes, and a span is a pair of such offsets.

Main statements: `Text.size_append`, and `Text.size_eq_zero`: only the empty text has size zero.
-/

namespace ElementModules

/-- The characters of a file, a name or a fragment of either. -/
abbrev Text := List Char

/-- A string literal stands for the list of its characters wherever a text is expected. -/
instance : Coe String Text := ⟨String.toList⟩

/-- A half-open range of byte offsets. -/
structure Span where
  start : Nat
  stop : Nat
  deriving DecidableEq, Repr

namespace Span

/-- Two ranges overlap if each starts before the other ends. -/
def overlaps (a b : Span) : Bool :=
  a.start < b.stop && b.start < a.stop

end Span

namespace Text

/-- The number of bytes of the UTF-8 form. -/
def size : Text → Nat
  | [] => 0
  | c :: t => c.utf8Size + size t

@[simp] theorem size_nil : size [] = 0 := rfl

@[simp] theorem size_cons (c : Char) (t : Text) : size (c :: t) = c.utf8Size + size t := rfl

@[simp] theorem size_append (s t : Text) : size (s ++ t) = size s + size t := by
  induction s with
  | nil => simp
  | cons c s ih => simp [ih, Nat.add_assoc]

/-- Every character has at least one byte. -/
theorem size_eq_zero {t : Text} : size t = 0 ↔ t = [] := by
  cases t with
  | nil => simp
  | cons c t =>
    have := c.utf8Size_pos
    simp only [size_cons, reduceCtorEq, iff_false]
    omega

/-- The character whose bytes cover `offset`. -/
def charAt? : Text → Nat → Option Char
  | [], _ => none
  | c :: t, offset => if offset < c.utf8Size then some c else charAt? t (offset - c.utf8Size)

/-- The texts in order, `separator` between neighbours. -/
def joinWith (separator : Text) (ts : List Text) : Text :=
  (ts.intersperse separator).flatten

/-- Whether `t` starts with `w`. -/
def startsWith (t w : Text) : Bool :=
  w.isPrefixOf t

/-- `t` without `w` in front, if it starts with `w`. -/
def dropLeading? (w t : Text) : Option Text :=
  if w.isPrefixOf t then some (t.drop w.length) else none

/-- `t` without `w` at its end, if it ends with `w`. -/
def dropTrailing? (w t : Text) : Option Text :=
  if w.isSuffixOf t then some (t.take (t.length - w.length)) else none

/-- `t` without `w` at its end, or `t` itself. -/
def dropTrailing (w t : Text) : Text :=
  (dropTrailing? w t).getD t

/-- Whether `w` occurs in `t`. -/
def contains (w : Text) : Text → Bool
  | [] => w.isEmpty
  | c :: t => w.isPrefixOf (c :: t) || contains w t

/-- The characters up to the first line feed, which is left out. -/
def firstLine (t : Text) : Text :=
  t.takeWhile (· != '\n')

/-- The lines of a text, each with its line feed; the last may lack one. -/
def lines : Text → List Text
  | [] => []
  | c :: t =>
    if c = '\n' then [c] :: lines t
    else match lines t with
      | [] => [[c]]
      | l :: ls => (c :: l) :: ls

/-- The text with the given lines, each ended by a line feed. -/
def ofLines (ls : List String) : Text :=
  ls.flatMap fun l => l.toList ++ ['\n']

theorem ofLines_nil : ofLines [] = [] := rfl

/-- A line is written with its line feed. -/
theorem ofLines_cons (t : Text) (ls : List String) :
    ofLines (String.ofList t :: ls) = t ++ '\n' :: ofLines ls := by
  simp [ofLines]

/-- Splitting into lines loses nothing. -/
theorem flatten_lines (t : Text) : (lines t).flatten = t := by
  induction t with
  | nil => rfl
  | cons c t ih =>
    unfold lines
    split
    · simp [ih]
    · revert ih
      cases lines t with
      | nil => intro ih; simp_all
      | cons l ls => intro ih; simp_all

end Text

end ElementModules
