import ElementModules.Text.Blank

/-!
# Tokens

Readers of single tokens. Each takes a text and gives back what follows the token, or `none` if the
text does not begin with one. They look at characters only, not at layers. Main statement:
`name?_eq_some`, the name that is read and the rest make up the text, and the rest cannot extend it.
-/

namespace ElementModules.Script.Token

open Text

/-- A letter of ASCII, an underscore or a dollar sign. -/
def isNameStart (c : Char) : Bool := c.isAlpha || c = '_' || c = '$'

/-- A character that may stand in a name. -/
def isNameChar (c : Char) : Bool := c.isAlphanum || c = '_' || c = '$'

/-- Whether a word may start after a character: not inside a name, and not after a dot. -/
def startsWord (before : Option Char) : Bool :=
  before.all fun c => !isNameChar c && c != '.'

/-- Whether a word may start at a byte offset of a text. -/
def startsWordAt (t : Text) : Nat → Bool
  | 0 => true
  | offset + 1 => (charAt? t offset).any fun c => startsWord (some c)

/-- What follows the ASCII blanks in front. -/
def blanks (t : Text) : Text := t.dropWhile isAsciiBlank

/-- What follows the ASCII blanks in front, of which there is at least one. -/
def someBlanks? (t : Text) : Option Text :=
  if t.head?.any isAsciiBlank then some (blanks t) else none

/-- What follows a character. -/
def char? (c : Char) : Text → Option Text
  | [] => none
  | d :: t => if d = c then some t else none

/-- What follows a whole word. -/
def word? (w t : Text) : Option Text :=
  (dropLeading? w t).filter fun rest => !rest.head?.any isNameChar

/-- A name and what follows it. -/
def name? : Text → Option (Text × Text)
  | [] => none
  | c :: t =>
    if isNameStart c then some (c :: t.takeWhile isNameChar, t.dropWhile isNameChar) else none

/-- What stands between two quotes of one kind, and what follows. Escapes are not known. -/
def quoted? : Text → Option (Text × Text)
  | [] => none
  | q :: t =>
    if (q = '\'' || q = '"') && t.contains q then
      some (t.takeWhile (· != q), (t.dropWhile (· != q)).drop 1)
    else none

/-- A name that is read is followed by no character that could belong to it. -/
theorem name?_eq_some {t n rest : Text} (h : name? t = some (n, rest)) :
    t = n ++ rest ∧ n.all isNameChar = true ∧ rest.head?.all (fun c => !isNameChar c) = true := by
  cases t with
  | nil => simp [name?] at h
  | cons c t =>
    simp only [name?] at h
    split at h
    next hc =>
      simp only [Option.some.injEq, Prod.mk.injEq] at h
      obtain ⟨rfl, rfl⟩ := h
      refine ⟨by simp, ?_, ?_⟩
      · have hcc : isNameChar c = true := by
          simp only [isNameStart, isNameChar, Char.isAlphanum, Bool.or_eq_true] at hc ⊢
          rcases hc with (h | h) | h <;> simp [h]
        simp [hcc]
      · have := List.head?_dropWhile_not isNameChar t
        cases hr : (t.dropWhile isNameChar).head? with
        | none => rfl
        | some d => simp_all
    next => simp at h

end ElementModules.Script.Token
