import ElementModules.Text.Basic

/-!
# Quoted strings

A string literal between single quotes. A quote, a backslash, a line feed and a carriage return are
escaped; every other character stands for itself. Main statement: `unescape_escape`, undoing the
escapes gives back the text.
-/

namespace ElementModules.Text

/-- The escaped form of one character. -/
def escapeChar (c : Char) : Text :=
  if c = '\\' then ['\\', '\\']
  else if c = '\'' then ['\\', '\'']
  else if c = '\n' then ['\\', 'n']
  else if c = '\r' then ['\\', 'r']
  else [c]

/-- The escaped form of a text. -/
def escape (t : Text) : Text :=
  t.flatMap escapeChar

/-- A text as a string literal. -/
def quote (t : Text) : Text :=
  '\'' :: escape t ++ ['\'']

/-- Undoes the escapes. -/
def unescape : Text → Text
  | [] => []
  | [c] => [c]
  | c :: d :: t =>
    if c = '\\' then
      (if d = 'n' then '\n' else if d = 'r' then '\r' else d) :: unescape t
    else c :: unescape (d :: t)

@[simp] theorem escape_nil : escape [] = [] := rfl

@[simp] theorem escape_cons (c : Char) (t : Text) :
    escape (c :: t) = escapeChar c ++ escape t := by
  simp [escape]

theorem unescape_cons {c : Char} (h : c ≠ '\\') (t : Text) : unescape (c :: t) = c :: unescape t := by
  cases t with
  | nil => simp [unescape]
  | cons d t => simp [unescape, h]

/-- Escaping loses nothing. -/
theorem unescape_escape (t : Text) : unescape (escape t) = t := by
  induction t with
  | nil => rfl
  | cons c t ih =>
    rw [escape_cons]
    unfold escapeChar
    split
    next h => simp [unescape, ih, h]
    next h =>
      split
      next h => simp [unescape, ih, h]
      next =>
        split
        next h => simp [unescape, ih, h]
        next =>
          split
          next h => simp [unescape, ih, h]
          next => rw [List.singleton_append, unescape_cons h, ih]

end ElementModules.Text
