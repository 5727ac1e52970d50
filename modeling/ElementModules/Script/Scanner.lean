import ElementModules.Text.Basic

/-!
# Scanning a script

A script is read character by character. The state of the scan is a mode (code, a comment, a quoted
string, a template) and the stack of enclosures opened so far: a bracket in code, or a substitution
inside a template. Every character gets a layer (code, comment or literal) and the depth of the stack
before it. Scanning never fails: a text that leaves something open ends in a state that says so.

The state after a text is a fold over its characters, so scanning is compositional by construction.
Only the layer of a slash looks at the character that follows. Regular expressions are not known.

Main statements: `State.run_append`, `marksFrom_append` (up to the last character of the first part,
the marks of a text do not depend on what follows it) and `chars_marksFrom`.
-/

namespace ElementModules.Script

/-- What a character belongs to. -/
inductive Layer
  /-- Code, with its brackets and blanks. -/
  | code
  /-- A line comment or a block comment. -/
  | comment
  /-- A quoted string or the text of a template. -/
  | literal
  deriving DecidableEq, Repr

/-- Where the scan stands. -/
inductive Mode
  | code
  /-- In code, after a slash that may open a comment. -/
  | slash
  | lineComment
  | blockComment
  /-- In a block comment, after a star that may close it. -/
  | blockStar
  | quoted (quote : Char)
  /-- In a quoted string, after a backslash. -/
  | quotedEscape (quote : Char)
  | template
  /-- In a template, after a dollar sign that may open a substitution. -/
  | templateDollar
  /-- In a template, after a backslash. -/
  | templateEscape
  deriving DecidableEq, Repr

/-- What an entry of the stack waits for. -/
inductive Enclosure
  /-- A closing bracket of any kind. -/
  | bracket
  /-- The brace that ends a substitution and returns to the template. -/
  | substitution
  deriving DecidableEq, Repr

/-- A state of the scan: the mode, and the open enclosures, innermost first. -/
structure State where
  mode : Mode
  stack : List Enclosure
  deriving DecidableEq, Repr

/-- A scanned character. -/
structure Mark where
  char : Char
  layer : Layer
  /-- The number of enclosures open before the character. -/
  depth : Nat
  deriving DecidableEq, Repr

/-- Whether a character opens a bracket. -/
def isOpener (c : Char) : Bool := c = '{' || c = '(' || c = '['

/-- Whether a character closes a bracket. -/
def isCloser (c : Char) : Bool := c = '}' || c = ')' || c = ']'

namespace State

/-- Code outside all brackets. -/
def start : State := ⟨.code, []⟩

/-- The number of open enclosures. -/
def depth (s : State) : Nat := s.stack.length

/-- The brace that ends the innermost substitution. -/
def endsSubstitution (s : State) (c : Char) : Bool :=
  c = '}' && s.stack.head? = some .substitution

/-- A character of code. A closing bracket of any kind closes the innermost bracket; one with no
bracket to close is passed over. -/
def stepCode (s : State) (c : Char) : State :=
  if c = '/' then ⟨.slash, s.stack⟩
  else if c = '\'' || c = '"' then ⟨.quoted c, s.stack⟩
  else if c = '\x60' then ⟨.template, s.stack⟩
  else if isOpener c then ⟨.code, .bracket :: s.stack⟩
  else if isCloser c then
    match s.stack with
    | .bracket :: rest => ⟨.code, rest⟩
    | .substitution :: rest => if c = '}' then ⟨.template, rest⟩ else ⟨.code, s.stack⟩
    | [] => ⟨.code, []⟩
  else ⟨.code, s.stack⟩

/-- A character of a template. -/
def stepTemplate (s : State) (c : Char) : State :=
  if c = '\\' then ⟨.templateEscape, s.stack⟩
  else if c = '\x60' then ⟨.code, s.stack⟩
  else if c = '$' then ⟨.templateDollar, s.stack⟩
  else ⟨.template, s.stack⟩

/-- The state after one more character. A quoted string that is still open at the end of its line
ends there. -/
def step (s : State) (c : Char) : State :=
  match s.mode with
  | .code => s.stepCode c
  | .slash =>
    if c = '/' then ⟨.lineComment, s.stack⟩
    else if c = '*' then ⟨.blockComment, s.stack⟩
    else s.stepCode c
  | .lineComment => if c = '\n' then ⟨.code, s.stack⟩ else ⟨.lineComment, s.stack⟩
  | .blockComment => if c = '*' then ⟨.blockStar, s.stack⟩ else ⟨.blockComment, s.stack⟩
  | .blockStar =>
    if c = '/' then ⟨.code, s.stack⟩
    else if c = '*' then ⟨.blockStar, s.stack⟩
    else ⟨.blockComment, s.stack⟩
  | .quoted q =>
    if c = '\\' then ⟨.quotedEscape q, s.stack⟩
    else if c = '\n' || c = q then ⟨.code, s.stack⟩
    else ⟨.quoted q, s.stack⟩
  | .quotedEscape q => ⟨.quoted q, s.stack⟩
  | .template => s.stepTemplate c
  | .templateDollar =>
    if c = '{' then ⟨.code, .substitution :: s.stack⟩ else s.stepTemplate c
  | .templateEscape => ⟨.template, s.stack⟩

/-- The state after a text. -/
def run (s : State) (t : Text) : State :=
  t.foldl step s

/-- The layer of a character in code: a slash is a comment if the next character makes it one. -/
def layerInCode (s : State) (c : Char) (next : Option Char) : Layer :=
  if c = '/' && (next = some '/' || next = some '*') then .comment
  else if c = '\'' || c = '"' || c = '\x60' || s.endsSubstitution c then .literal
  else .code

/-- The layer of a character, given the one that follows it. -/
def layer (s : State) (c : Char) (next : Option Char) : Layer :=
  match s.mode with
  | .code => s.layerInCode c next
  | .slash => if c = '/' || c = '*' then .comment else s.layerInCode c next
  | .lineComment => if c = '\n' then .code else .comment
  | .blockComment | .blockStar => .comment
  | .quoted _ => if c = '\n' then .code else .literal
  | .quotedEscape _ | .template | .templateDollar | .templateEscape => .literal

/-- Whether a text may end here: every enclosure closed, and no string, template or block comment
open. -/
def isSettled (s : State) : Bool :=
  s.stack.isEmpty && (s.mode = .code || s.mode = .slash || s.mode = .lineComment)

@[simp] theorem run_nil (s : State) : s.run [] = s := rfl

@[simp] theorem run_cons (s : State) (c : Char) (t : Text) : s.run (c :: t) = (s.step c).run t := rfl

/-- Scanning two texts one after the other scans their concatenation. -/
theorem run_append (s : State) (a b : Text) : s.run (a ++ b) = (s.run a).run b := by
  simp [run, List.foldl_append]

end State

/-- The scanned characters of a text read from a given state. -/
def marksFrom (s : State) : Text → List Mark
  | [] => []
  | c :: t => ⟨c, s.layer c t.head?, s.depth⟩ :: marksFrom (s.step c) t

/-- The scanned characters of a text. -/
def marks (t : Text) : List Mark :=
  marksFrom .start t

/-- The state at the end of a text. -/
def endState (t : Text) : State :=
  State.start.run t

/-- The depth at the end of a text. -/
def endDepth (t : Text) : Nat :=
  (endState t).depth

/-- Whether every bracket is closed and nothing but a line comment is open at the end. -/
def isBalanced (t : Text) : Bool :=
  (endState t).isSettled

/-- The characters of a stretch of marks. -/
def chars (ms : List Mark) : Text :=
  ms.map Mark.char

namespace Mark

/-- The number of bytes of the character. -/
def size (m : Mark) : Nat := m.char.utf8Size

/-- Whether the character is code. -/
def isCode (m : Mark) : Bool := m.layer = .code

/-- Whether the character is part of a string or a template. -/
def isLiteral (m : Mark) : Bool := m.layer = .literal

/-- Code outside every bracket. -/
def isTopLevel (m : Mark) : Bool := m.isCode && m.depth = 0

end Mark

/-- The number of bytes of a stretch of marks. -/
def sizeOf (ms : List Mark) : Nat :=
  Text.size (chars ms)

/-- Scanning keeps the characters. -/
@[simp] theorem chars_marksFrom (s : State) (t : Text) : chars (marksFrom s t) = t := by
  induction t generalizing s with
  | nil => rfl
  | cons c t ih => simpa [marksFrom, chars] using ih (s.step c)

/-- The marks of a text followed by `d` do not depend on what stands after `d`. -/
theorem marksFrom_append (s : State) (a : Text) (d : Char) (b : Text) :
    marksFrom s (a ++ d :: b)
      = (marksFrom s (a ++ [d])).take a.length ++ marksFrom (s.run a) (d :: b) := by
  induction a generalizing s with
  | nil => rfl
  | cons c a ih =>
    have hd : ∀ r : Text, (a ++ d :: r).head? = (a ++ [d]).head? := by
      intro r; cases a <;> rfl
    simp [marksFrom, ih, hd b]

end ElementModules.Script
