import ElementModules.Script.Bracket

/-!
# Indentation of a literal's body

A body is indented to two spaces. Lines that begin inside a string or a template are left as they
are; all others lose their common indentation. Blank lines at both ends go, and blanks at the end of
a line go unless the line ends inside a literal.

Main statement: `linesOf_text`, the lines of a body hold its text.
-/

namespace ElementModules.Descriptor

open Text Script

/-- A line of a body, without its line feed. -/
structure BodyLine where
  text : Text
  /-- Whether the line begins inside a literal. -/
  verbatim : Bool
  /-- Whether the line ends inside a literal. -/
  openEnd : Bool
  deriving DecidableEq, Repr

namespace BodyLine

/-- Whether a line may be dropped at either end of the body. -/
def isBlank (l : BodyLine) : Bool := !l.verbatim && isBlankText l.text

/-- The number of spaces and tabs in front. -/
def indent (l : BodyLine) : Nat :=
  (l.text.takeWhile fun c => c = ' ' || c = '\t').length

/-- The line as it is written when `common` characters of indentation are taken away. -/
def render (common : Nat) (l : BodyLine) : Text :=
  if l.verbatim then l.text ++ ['\n']
  else if l.isBlank then ['\n']
  else
    let rest := l.text.drop common
    ' ' :: ' ' :: (if l.openEnd then rest else trimEnd rest) ++ ['\n']

end BodyLine

/-- The lines of scanned text; the flag tells whether the first begins inside a literal. -/
def linesOf (verbatim : Bool) : List Mark → List BodyLine
  | [] => [⟨[], verbatim, false⟩]
  | m :: ms =>
    if m.char = '\n' then ⟨[], verbatim, m.isLiteral⟩ :: linesOf m.isLiteral ms
    else match linesOf verbatim ms with
      | [] => [⟨[m.char], verbatim, false⟩]
      | l :: ls => { l with text := m.char :: l.text } :: ls

/-- The lines without blank lines at either end. -/
def trimLines (ls : List BodyLine) : List BodyLine :=
  ((ls.dropWhile BodyLine.isBlank).reverse.dropWhile BodyLine.isBlank).reverse

/-- The indentation that all lines share, apart from blank lines and those left as they are. -/
def commonIndent (ls : List BodyLine) : Nat :=
  (((ls.filter fun l => !l.verbatim && !l.isBlank).map BodyLine.indent).min?).getD 0

/-- The body indented to two spaces. -/
def indentBody (body : Text) : Text :=
  let ls := trimLines (linesOf false (marks body))
  ls.flatMap (BodyLine.render (commonIndent ls))

/-- There is always a line. -/
theorem linesOf_ne_nil (verbatim : Bool) (ms : List Mark) : linesOf verbatim ms ≠ [] := by
  cases ms with
  | nil => simp [linesOf]
  | cons m ms =>
    unfold linesOf
    split
    · simp
    · split <;> simp

/-- The lines of a text, joined again, are the text. -/
theorem linesOf_text (verbatim : Bool) (ms : List Mark) :
    joinWith ['\n'] ((linesOf verbatim ms).map BodyLine.text) = chars ms := by
  induction ms generalizing verbatim with
  | nil => rfl
  | cons m ms ih =>
    unfold linesOf
    by_cases h : m.char = '\n'
    · have hs := ih m.isLiteral
      obtain ⟨l, ls, hl⟩ := List.exists_cons_of_ne_nil (linesOf_ne_nil m.isLiteral ms)
      rw [hl] at hs
      simp only [if_pos h, hl]
      simp only [joinWith, chars, List.map_cons, h] at hs ⊢
      simp [hs]
    · have hs := ih verbatim
      obtain ⟨l, ls, hl⟩ := List.exists_cons_of_ne_nil (linesOf_ne_nil verbatim ms)
      rw [hl] at hs
      simp only [if_neg h, hl]
      cases ls with
      | nil => simp only [joinWith, chars, List.map_cons] at hs ⊢; simp_all
      | cons l' ls => simp only [joinWith, chars, List.map_cons] at hs ⊢; simp_all

end ElementModules.Descriptor
