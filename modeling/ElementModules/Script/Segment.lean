import ElementModules.Script.Bracket
import ElementModules.Script.Token

/-!
# Statements of a script

A script is cut into segments: after every line feed in code outside all brackets, and after every
semicolon there that is followed on its line by something other than a comment. A segment is
classified by its shape.

The cut is made on the marks, where each segment is a stretch; spans and texts are read off. Main
statement: `flatten_stretches`, the stretches concatenate to the whole.
-/

namespace ElementModules.Script

open Text

/-- The shape of a statement. -/
inductive SegmentKind
  /-- Blanks only. -/
  | blank
  /-- Comments only. -/
  | comment
  /-- An import declaration. -/
  | importDecl
  /-- The binding of a name to an object literal. -/
  | binding (identifier : Text) (exported : Bool)
  /-- The export of `descriptor` as another name for a binding. -/
  | descriptorAlias (target : Text)
  /-- A default export. -/
  | exportDefault
  /-- A call of `register` on some receiver. -/
  | registration (receiver : Text)
  /-- A statement that starts with a member of `console`. -/
  | log
  /-- Anything else. -/
  | other
  deriving DecidableEq, Repr

/-- A statement with the line feed that ends it. -/
structure Segment where
  kind : SegmentKind
  span : Span
  text : Text
  deriving DecidableEq, Repr

namespace Segment

/-- The text of a segment without blanks around it. -/
def trimmed (s : Segment) : Text := trim s.text

/-- Whether the segment ends with a line feed. -/
def endsLine (s : Segment) : Bool := s.text.getLast? = some '\n'

/-- Whether a text has `word` as a whole word; `before` is the character in front, `skip` counts the
characters of the last occurrence still to be passed over. -/
def mentionsFrom (word : Text) : Option Char → Nat → Text → Bool
  | before, 0, [] =>
    word.isEmpty && before.all fun c => !Token.isNameChar c
  | _, _ + 1, [] => false
  | _, skip + 1, c :: t => mentionsFrom word (some c) skip t
  | before, 0, c :: t =>
    if word.isPrefixOf (c :: t) then
      (before.all (fun c => !Token.isNameChar c)
          && ((c :: t).drop word.length).head?.all fun c => !Token.isNameChar c)
        || mentionsFrom word (some c) (word.length - 1) t
    else mentionsFrom word (some c) 0 t

/-- Whether `word` appears as a whole word, among its occurrences that do not overlap. -/
def mentions (s : Segment) (word : Text) : Bool :=
  mentionsFrom word none 0 s.text

end Segment

/-- The marks before the next line feed. -/
def restOfLine (ms : List Mark) : List Mark :=
  ms.takeWhile fun m => m.char != '\n'

/-- Whether a segment ends with `m`, where `rest` follows. -/
def endsSegment (m : Mark) (rest : List Mark) : Bool :=
  m.isTopLevel
    && (m.char = '\n'
      || (m.char = ';'
        && !isBlankText (chars (restOfLine rest)) && !holdsOnlyComments (restOfLine rest)))

/-- The stretches of marks that make up the segments. -/
def stretches : List Mark → List (List Mark)
  | [] => []
  | m :: ms =>
    if endsSegment m ms then [m] :: stretches ms
    else match stretches ms with
      | [] => [[m]]
      | p :: ps => (m :: p) :: ps

/-- The shape of a statement that starts with `export`, of which `t` is the rest, or of one that
does not. -/
def bindingKind (exported : Bool) (t : Text) : SegmentKind :=
  let keyword := (["const", "let", "var"] : List Text).find? fun k =>
    (Token.word? k t).isSome
  let afterEquals : Option (Text × Text) := do
    let rest ← Token.someBlanks? (← Token.word? (← keyword) t)
    let (identifier, rest) ← Token.name? rest
    let rest ← Token.char? '=' (Token.blanks rest)
    return (identifier, Token.blanks rest)
  match afterEquals with
  | none => .other
  | some (identifier, value) =>
    if value.head? = some '{' then .binding identifier exported
    else if exported && keyword = some ("const" : Text) && identifier = "descriptor" then
      match Token.name? value with
      | none => .other
      | some (target, rest) =>
        let rest := Token.blanks rest
        if (Token.blanks ((Token.char? ';' rest).getD rest)).isEmpty then .descriptorAlias target
        else .other
    else .other

/-- The receiver of a call of `register` that a statement starts with. -/
def registrationReceiver? (t : Text) : Option Text := do
  let (receiver, rest) ← Token.name? t
  let rest ← Token.char? '.' (Token.blanks rest)
  let rest ← Token.word? "register" (Token.blanks rest)
  let _ ← Token.char? '(' (Token.blanks rest)
  return receiver

/-- The shape of a statement that is neither blank nor a comment, given without blanks around it. -/
def statementKind (t : Text) : SegmentKind :=
  if (Token.word? "import" t).isSome then .importDecl
  else match Token.word? "export" t with
    | some rest =>
      let rest := Token.blanks rest
      if (Token.word? "default" rest).isSome then .exportDefault else bindingKind true rest
    | none =>
      if startsWith t "console." then .log
      else match registrationReceiver? t with
        | some receiver => .registration receiver
        | none => bindingKind false t

/-- The shape of a stretch. -/
def kindOf (ms : List Mark) : SegmentKind :=
  let t := trim (chars ms)
  if t.isEmpty then .blank
  else if holdsOnlyComments ms then .comment
  else statementKind t

/-- The segments of consecutive stretches, the first of which starts at `offset`. -/
def segmentsOf : Nat → List (List Mark) → List Segment
  | _, [] => []
  | offset, p :: ps =>
    let stop := offset + sizeOf p
    ⟨kindOf p, ⟨offset, stop⟩, chars p⟩ :: segmentsOf stop ps

/-- The segments of a text. -/
def segments (t : Text) : List Segment :=
  segmentsOf 0 (stretches (marks t))

/-- Cutting into stretches loses nothing. -/
theorem flatten_stretches (ms : List Mark) : (stretches ms).flatten = ms := by
  induction ms with
  | nil => rfl
  | cons m ms ih =>
    unfold stretches
    split
    · simp [ih]
    · revert ih
      cases stretches ms with
      | nil => intro ih; simp_all
      | cons p ps => intro ih; simp_all

end ElementModules.Script
