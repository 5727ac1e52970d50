import ElementModules.Script.Token
import ElementModules.Text.Casing

/-!
# Names and labels

Which names may be bound, how a name is made from a file name, and how a label is made from a name.

Main statement: `flatten_labelWords`, the words of a label hold every character that is no separator.
-/

namespace ElementModules.Script

open Text

/-- The words that cannot be bound. -/
def reservedWords : List Text :=
  List.map String.toList ["await", "break", "case", "catch", "class", "const", "continue",
   "debugger", "default", "delete", "do", "else", "enum", "export", "extends", "false", "finally", "for", "function",
   "if", "import", "in", "instanceof", "let", "new", "null", "return", "static", "super",
   "switch", "this", "throw", "true", "try", "typeof", "var", "void", "while", "with", "yield"]

/-- Whether a text is a word that cannot be bound. -/
def isReserved (t : Text) : Bool :=
  reservedWords.contains t

/-- Whether a text is a name: characters of ASCII names, of which the first is no digit. -/
def isName (t : Text) : Bool :=
  t.head?.any Token.isNameStart && t.all Token.isNameChar

/-- Whether a text is a name that may be bound. -/
def isIdentifier (t : Text) : Bool :=
  isName t && !isReserved t

/-- The characters of a name without underscores, in camel case: any other character is dropped and
makes the next one upper case, unless nothing is kept before it. -/
def camelCase (started raise : Bool) : Text → Text
  | [] => []
  | c :: t =>
    if c.isAlphanum || c = '$' then
      (if raise && started then c.toUpper else c) :: camelCase true false t
    else camelCase started true t

/-- A name that may be bound, made from any text. -/
def toIdentifier (t : Text) : Text :=
  match camelCase false false t with
  | [] => "element"
  | c :: rest => if c.isDigit || isReserved (c :: rest) then '_' :: c :: rest else c :: rest

/-- Whether a character separates the words of a label. -/
def isSeparator (c : Char) : Bool :=
  c = '_' || c = '-' || isBlank c

/-- The words of a label: they are parted by separators and before every upper-case character. The
first argument is the word read so far. -/
def labelWords (word : Text) : Text → List Text
  | [] => if word.isEmpty then [] else [word]
  | c :: t =>
    if isSeparator c then
      if word.isEmpty then labelWords [] t else word :: labelWords [] t
    else if isUppercase c && !word.isEmpty then word :: labelWords [c] t
    else labelWords (word ++ [c]) t

/-- A word with its first character in upper case and the others in lower case. -/
def capitalized : Text → Text
  | [] => []
  | c :: t => upper c ++ t.flatMap lower

/-- A label for a name: its words in title case, with spaces between them. -/
def label (t : Text) : Text :=
  joinWith [' '] ((labelWords [] t).map capitalized)

/-- The words of a label hold every character that is no separator, in order. -/
theorem flatten_labelWords (word t : Text) :
    (labelWords word t).flatten = word ++ t.filter fun c => !isSeparator c := by
  induction t generalizing word with
  | nil => unfold labelWords; split <;> simp_all
  | cons c t ih =>
    unfold labelWords
    split
    next hc => split <;> simp_all
    next hc => split <;> simp_all

end ElementModules.Script
