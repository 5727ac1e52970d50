import ElementModules.Json.Value

/-!
# JSON tokens

The tokens of JSON texts, how each is written, and how a text is cut into tokens. Blanks between
tokens carry no meaning. Strings are read in two steps: characters and escapes first, then pairs of
escaped surrogates are joined.
-/

namespace ElementModules.Json

/-- A token of a JSON text. A number or a string without a value has the value `none`. -/
inductive Token
  | openBrace
  | closeBrace
  | openBracket
  | closeBracket
  | comma
  | colon
  | null
  | bool (value : Bool)
  | number (value : Option JsonNumber)
  | string (value : Option Text)
  deriving DecidableEq, Repr

/-! ### Writing -/

/-- A hexadecimal digit in lower case. -/
def hexDigit (n : Nat) : Char :=
  Nat.digitChar n

/-- The escaped form of a character of a string. -/
def escapeChar (c : Char) : Text :=
  if c = '"' then ['\\', '"']
  else if c = '\\' then ['\\', '\\']
  else if c = '\x08' then ['\\', 'b']
  else if c = '\x0c' then ['\\', 'f']
  else if c = '\n' then ['\\', 'n']
  else if c = '\r' then ['\\', 'r']
  else if c = '\t' then ['\\', 't']
  else if c.toNat < 0x20 then
    ['\\', 'u', '0', '0', hexDigit (c.toNat / 16), hexDigit (c.toNat % 16)]
  else [c]

/-- A string with its quotes. -/
def quoteString (t : Text) : Text :=
  '"' :: t.flatMap escapeChar ++ ['"']

/-- The text of a token. -/
def Token.render : Token → Text
  | .openBrace => ['\x7b']
  | .closeBrace => ['\x7d']
  | .openBracket => ['[']
  | .closeBracket => [']']
  | .comma => [',']
  | .colon => [':']
  | .null => "null"
  | .bool true => "true"
  | .bool false => "false"
  | .number value => (value.map JsonNumber.render).getD []
  | .string value => (value.map quoteString).getD []

/-! ### Reading -/

/-- A character of a string, or an escaped unit of 16 bits. -/
inductive StringItem
  | char (c : Char)
  | unit (n : Nat)
  deriving DecidableEq, Repr

/-- The value of a hexadecimal digit. -/
def hexValue? (c : Char) : Option Nat :=
  if c.isDigit then some (c.toNat - '0'.toNat)
  else if 'a' ≤ c && c ≤ 'f' then some (c.toNat - 'a'.toNat + 10)
  else if 'A' ≤ c && c ≤ 'F' then some (c.toNat - 'A'.toNat + 10)
  else none

/-- The value of four hexadecimal digits. -/
def hexUnit? (a b c d : Char) : Option Nat := do
  return (((← hexValue? a) * 16 + (← hexValue? b)) * 16 + (← hexValue? c)) * 16 + (← hexValue? d)

/-- The character that a short escape stands for. -/
def shortEscape? (c : Char) : Option Char :=
  if c = '"' || c = '\\' || c = '/' then some c
  else if c = 'b' then some '\x08'
  else if c = 'f' then some '\x0c'
  else if c = 'n' then some '\n'
  else if c = 'r' then some '\r'
  else if c = 't' then some '\t'
  else none

/-- The items of a string after its opening quote, and what follows the closing quote. Control
characters must be escaped. -/
def stringItems : Text → Option (List StringItem × Text)
  | [] => none
  | [c] => if c = '"' then some ([], []) else none
  | c :: e :: t =>
    if c = '"' then some ([], e :: t)
    else if c = '\\' then
      if e = 'u' then
        match t with
        | h₁ :: h₂ :: h₃ :: h₄ :: t => do
          let n ← hexUnit? h₁ h₂ h₃ h₄
          let (items, rest) ← stringItems t
          return (.unit n :: items, rest)
        | _ => none
      else do
        let d ← shortEscape? e
        let (items, rest) ← stringItems t
        return (.char d :: items, rest)
    else if c.toNat < 0x20 then none
    else do
      let (items, rest) ← stringItems (e :: t)
      return (.char c :: items, rest)

/-- Whether a code unit is the first of a surrogate pair. -/
def isHighSurrogate (n : Nat) : Bool := 0xD800 ≤ n && n < 0xDC00

/-- Whether a code unit is the second of a surrogate pair. -/
def isLowSurrogate (n : Nat) : Bool := 0xDC00 ≤ n && n < 0xE000

/-- The text of a string, unless it has half of a surrogate pair. -/
def joinItems : List StringItem → Option Text
  | [] => some []
  | .char c :: items => (joinItems items).map (c :: ·)
  | .unit n :: items =>
    if isHighSurrogate n then
      match items with
      | .unit m :: items =>
        if isLowSurrogate m then
          (joinItems items).map
            (Char.ofNat (0x10000 + (n - 0xD800) * 0x400 + (m - 0xDC00)) :: ·)
        else none
      | _ => none
    else if isLowSurrogate n then none
    else (joinItems items).map (Char.ofNat n :: ·)

/-- The digits in front of a text, of which there is at least one, and what follows. -/
def someDigits? (t : Text) : Option (Text × Text) :=
  let ds := t.takeWhile Char.isDigit
  if ds.isEmpty then none else some (ds, t.dropWhile Char.isDigit)

/-- The fraction in front of a text, if it starts with a point. -/
def fraction? (t : Text) : Option (Option Text × Text) :=
  match t with
  | '.' :: t => (someDigits? t).map fun (ds, t) => (some ds, t)
  | _ => some (none, t)

/-- The exponent in front of a text, if it starts with its mark. -/
def exponent? (t : Text) : Option (Option (Bool × Text) × Text) :=
  match t with
  | [] => some (none, t)
  | c :: r =>
    if c = 'e' || c = 'E' then
      let (down, r) := match r with
        | '+' :: r => (false, r)
        | '-' :: r => (true, r)
        | _ => (false, r)
      (someDigits? r).map fun (ds, t) => (some (down, ds), t)
    else some (none, t)

/-- The number in front of a text. Its first digit is zero only if it is the only one before the
point. -/
def number? (t : Text) : Option (Option JsonNumber × Text) := do
  let (negative, t) := match t with
    | '-' :: t => (true, t)
    | _ => (false, t)
  let (whole, t) ← someDigits? t
  if whole.head? = some '0' && 1 < whole.length then none
  let (fraction, t) ← fraction? t
  let (exponent, t) ← exponent? t
  return (JsonNumber.ofParts? negative whole fraction exponent, t)

/-- Whether a character may stand between tokens. -/
def isSpace (c : Char) : Bool := c = ' ' || c = '\n' || c = '\t' || c = '\r'

/-- A token that is a word. -/
def word? (t : Text) : Option (Token × Text) :=
  ([("null", .null), ("true", .bool true), ("false", .bool false)] : List (Text × Token)).findSome?
    fun w => (Text.dropLeading? w.1 t).map (w.2, ·)

/-- The token that a text starts with. -/
def token? : Text → Option (Token × Text)
  | [] => none
  | c :: t =>
    if c = '\x7b' then some (.openBrace, t)
    else if c = '\x7d' then some (.closeBrace, t)
    else if c = '[' then some (.openBracket, t)
    else if c = ']' then some (.closeBracket, t)
    else if c = ',' then some (.comma, t)
    else if c = ':' then some (.colon, t)
    else if c = '"' then (stringItems t).map fun (items, rest) => (.string (joinItems items), rest)
    else if c = '-' || c.isDigit then
      (number? (c :: t)).map fun (value, rest) => (.number value, rest)
    else word? (c :: t)

/-- The tokens of a text; every token takes at least one character, and `fuel` bounds their
number. -/
def tokensWithin : Nat → Text → Option (List Token)
  | 0, _ => none
  | fuel + 1, t =>
    match t.dropWhile isSpace with
    | [] => some []
    | c :: rest => do
      let (token, rest) ← token? (c :: rest)
      return token :: (← tokensWithin fuel rest)

/-- The tokens of a text. -/
def tokens? (t : Text) : Option (List Token) :=
  tokensWithin (t.length + 1) t

end ElementModules.Json
