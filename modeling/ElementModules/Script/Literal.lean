import ElementModules.Script.Field
import ElementModules.Text.Position

/-!
# Object literals bound at the top level

A literal is bound by a statement `[export] (const | let | var) name = {` that starts in code outside
all brackets. It ends at the brace that closes it. Where the brackets do not balance, it runs up to
the first later line that begins an export or a `console` statement or holds a registration, or to
the end of the text.
-/

namespace ElementModules.Script

open Text

/-- The word that introduces a binding. -/
inductive Declarator
  | const
  | let
  | var
  deriving DecidableEq, Repr

namespace Declarator

/-- The keyword as it is written. -/
def word : Declarator → Text
  | .const => "const"
  | .let => "let"
  | .var => "var"

/-- The keyword in front of a text, and what follows it. -/
def parse? (t : Text) : Option (Declarator × Text) :=
  [const, .let, .var].findSome? fun k => (Token.word? k.word t).map (k, ·)

end Declarator

/-- How the end of a literal was found. -/
inductive Closing
  /-- At the brace that closes it. -/
  | balanced
  /-- By the shape of the lines that follow. -/
  | heuristic
  deriving DecidableEq, Repr

/-- An object literal and the statement that binds it. -/
structure ObjectLiteral where
  keyword : Declarator
  identifier : Text
  exported : Bool
  /-- From the first word of the statement to the end of the literal and the semicolon after it. -/
  statement : Span
  /-- The literal with its braces. -/
  span : Span
  text : Text
  /-- What stands between the braces. -/
  body : Text
  position : Position
  closing : Closing
  deriving DecidableEq, Repr

namespace ObjectLiteral

/-- The fields of the literal. -/
def fields (l : ObjectLiteral) : List Field := Script.fields l.body

/-- The contents of the plain string under a key. -/
def stringField? (l : ObjectLiteral) (key : Text) : Option Text := Script.stringField? l.body key

end ObjectLiteral

/-- A binding statement up to its opening brace. -/
structure BindingStart where
  exported : Bool
  keyword : Declarator
  identifier : Text
  /-- The text from the opening brace. -/
  opening : Text
  deriving DecidableEq, Repr

namespace BindingStart

/-- Reads the binding of an object literal that a text starts with. -/
def parse? (t : Text) : Option BindingStart := do
  let (exported, t) ← match Token.word? "export" t with
    | some rest => (Token.someBlanks? rest).map (true, ·)
    | none => some (false, t)
  let (keyword, t) ← Declarator.parse? t
  let (identifier, t) ← Token.name? (← Token.someBlanks? t)
  let t ← Token.char? '=' (Token.blanks t)
  let t := Token.blanks t
  if t.head? = some '\x7b' then some ⟨exported, keyword, identifier, t⟩ else none

end BindingStart

/-- Whether a line, given without blanks in front, ends a literal whose brackets do not balance. -/
def endsOpenLiteral (line : Text) : Bool :=
  (dropLeading? "export" line).any
      (fun rest => rest.head?.any fun c => c = ' ' || c = '\t' || c = '\x7b' || c = '*')
    || startsWith line "console."
    || contains ".register(" line

/-- The literal that starts with the brace in front of `opening` and is never closed: its text and
its body. -/
def openLiteral (opening : Text) : Text × Text :=
  let region := match lines opening with
    | [] => []
    | first :: rest =>
      first ++ (rest.takeWhile fun l => !endsOpenLiteral (trimStart l)).flatten
  let region := trimEnd region
  let region := match dropTrailing? [';'] region with
    | some r => trimEnd r
    | none => region
  (region, dropTrailing ['\x7d'] (region.drop 1))

/-- The literal that starts with the brace in front of some marks: its text, its body and how its
end was found. -/
def literalAt (opening : List Mark) : Text × Text × Closing :=
  let t := chars opening
  match closeAfter? opening with
  | some k =>
    if t[k]? = some '\x7d' then (t.take (k + 1), (t.take k).drop 1, .balanced)
    else let (text, body) := openLiteral t; (text, body, .heuristic)
  | none => let (text, body) := openLiteral t; (text, body, .heuristic)

/-- The literal bound by the statement that some marks of `whole` start with; `offset` is that of
the statement. The number tells how many marks belong to the statement up to the end of the
literal. -/
def boundLiteral? (whole : Text) (offset : Nat) (ms : List Mark) : Option (ObjectLiteral × Nat) := do
  let t := chars ms
  let head ← BindingStart.parse? t
  let before := t.length - head.opening.length
  let (text, body, closing) := literalAt (ms.drop before)
  let start := offset + size (t.take before)
  let stop := start + size text
  let semicolon := if (head.opening.drop text.length).head? = some ';' then 1 else 0
  return (⟨head.keyword, head.identifier, head.exported, ⟨offset, stop + semicolon⟩, ⟨start, stop⟩,
    text, body, Position.ofOffset whole offset, closing⟩, before + text.length)

/-- Whether a binding statement may start at a mark that follows `before`. -/
def mayStartBinding (before : Option Char) (m : Mark) : Bool :=
  (m.char = 'e' || m.char = 'c' || m.char = 'l' || m.char = 'v')
    && m.isTopLevel && Token.startsWord before

/-- The literals bound in a stretch of `whole`: `before` is the character in front of the stretch,
`offset` its offset, and `skip` the number of marks that still belong to the last literal. -/
def literalsFrom (whole : Text) : Option Char → Nat → Nat → List Mark → List ObjectLiteral
  | _, _, _, [] => []
  | _, offset, skip + 1, m :: ms =>
    literalsFrom whole (some m.char) (offset + m.size) skip ms
  | before, offset, 0, m :: ms =>
    match if mayStartBinding before m then boundLiteral? whole offset (m :: ms) else none with
    | some (l, width) => l :: literalsFrom whole (some m.char) (offset + m.size) (width - 1) ms
    | none => literalsFrom whole (some m.char) (offset + m.size) 0 ms

/-- The object literals bound at the top level of a text, in order. -/
def literals (t : Text) : List ObjectLiteral :=
  literalsFrom t none 0 0 (marks t)

/-- The first object literal bound at the top level of a text. -/
def firstLiteral? (t : Text) : Option ObjectLiteral :=
  (literals t).head?

/-- Whether a text starts with the export of a constant `descriptor`. -/
def startsDescriptorExport (t : Text) : Bool :=
  (do
    let t ← Token.someBlanks? (← Token.word? "export" t)
    let t ← Token.someBlanks? (← Token.word? "const" t)
    Token.char? '=' (Token.blanks (← Token.word? "descriptor" t))).isSome

/-- Whether a stretch that follows `before` exports a constant `descriptor` at the top level. -/
def exportsDescriptorFrom : Option Char → List Mark → Bool
  | _, [] => false
  | before, m :: ms =>
    (m.char = 'e' && m.isTopLevel && Token.startsWord before
        && startsDescriptorExport (chars (m :: ms)))
      || exportsDescriptorFrom (some m.char) ms

/-- Whether a text exports a constant `descriptor` at the top level, as modules in canonical form
do. -/
def exportsDescriptor (t : Text) : Bool :=
  exportsDescriptorFrom none (marks t)

end ElementModules.Script
