import ElementModules.Script.Bracket
import ElementModules.Script.Token

/-!
# Fields of an object literal

The body of an object literal is cut at its commas outside all brackets. Each piece that is not
blank is a field; its key, kind and value are read from its first character that is neither blank
nor comment. Main statement: `flatten_commaPieces`, the pieces and their commas make up the body.
-/

namespace ElementModules.Script

open Text

/-- The form of a field. -/
inductive FieldKind
  /-- A key with a value, or a key alone that is its own value. -/
  | property
  /-- A method, asynchronous or not, or an accessor. -/
  | method
  /-- A spread expression. -/
  | spread
  /-- Anything else. -/
  | other
  deriving DecidableEq, Repr

/-- A field of an object literal. -/
structure Field where
  /-- The key, where it can be read. -/
  key : Option Text
  kind : FieldKind
  /-- The bytes between the commas on both sides. -/
  span : Span
  /-- The same with the comma that follows. -/
  spanWithComma : Span
  /-- The field without blanks around it, comments included. -/
  text : Text
  /-- The value of a property, without blanks around it. -/
  value : Option Text
  deriving DecidableEq, Repr

namespace Field

/-- The contents of a value that is one quoted string without escapes or substitutions. -/
def unquoted? (value : Text) : Option Text := do
  let quote ← value.head?
  let inner := (value.drop 1).dropLast
  if (quote = '\'' || quote = '"' || quote = '\x60') && 2 ≤ value.length
      && value.getLast? = some quote && !inner.contains quote && !inner.contains '\\'
      && !(quote = '\x60' && Text.contains ['$', '\x7b'] inner) then
    some inner
  else none

/-- The contents of the value, if it is one plain quoted string. -/
def stringValue? (f : Field) : Option Text :=
  f.value.bind unquoted?

end Field

/-- The pieces of a body between its commas outside all brackets; the flag tells whether a comma
follows the piece. -/
def commaPieces : List Mark → List (List Mark × Bool)
  | [] => [([], false)]
  | m :: ms =>
    if m.char = ',' && m.isTopLevel then ([], true) :: commaPieces ms
    else match commaPieces ms with
      | [] => [([m], false)]
      | (p, comma) :: ps => (m :: p, comma) :: ps

/-- The marks from the first that is neither an ASCII blank nor part of a comment. -/
def contentOf (ms : List Mark) : List Mark :=
  ms.dropWhile fun m => isAsciiBlank m.char || m.layer = .comment

/-- The name of a method written after one of the words `async`, `get` and `set`. -/
def modifiedMethod? (t : Text) : Option Text :=
  (["async", "get", "set"] : List Text).findSome? fun modifier => do
    let rest ← Token.someBlanks? (← Token.word? modifier t)
    let (name, rest) ← Token.name? rest
    let _ ← Token.char? '(' (Token.blanks rest)
    return name

/-- The key, the kind and the value of a field that starts with its content. -/
def readField (t : Text) : Option Text × FieldKind × Option Text :=
  if startsWith t "..." then (none, .spread, none)
  else match modifiedMethod? t with
    | some name => (some name, .method, none)
    | none =>
      match (Token.name? t).or (Token.quoted? t) with
      | none => (none, .other, none)
      | some (key, rest) =>
        match Token.blanks rest with
        | [] => (some key, .property, some key)
        | c :: rest =>
          if c = ':' then (some key, .property, some (trim rest))
          else if c = '(' then (some key, .method, none)
          else (some key, .other, none)

/-- The fields of consecutive pieces, the first of which starts at `offset`. -/
def fieldsOf : Nat → List (List Mark × Bool) → List Field
  | _, [] => []
  | offset, (p, comma) :: ps =>
    let stop := offset + sizeOf p
    let next := stop + if comma then 1 else 0
    let rest := fieldsOf next ps
    let raw := chars p
    if isBlankText raw then rest
    else
      let (key, kind, value) := match contentOf p with
        | [] => (none, .other, none)
        | content => readField (chars content)
      ⟨key, kind, ⟨offset, stop⟩, ⟨offset, next⟩, trim raw, value⟩ :: rest

/-- The fields of the body of an object literal. -/
def fields (body : Text) : List Field :=
  fieldsOf 0 (commaPieces (marks body))

/-- The contents of the plain string under a key: the first field with that key decides. -/
def stringField? (body key : Text) : Option Text :=
  ((fields body).find? fun f => f.key = some key).bind Field.stringValue?

/-- The pieces with their commas put back make up the body. -/
theorem flatten_commaPieces (ms : List Mark) :
    ((commaPieces ms).map fun p => chars p.1 ++ if p.2 then [','] else []).flatten = chars ms := by
  induction ms with
  | nil => rfl
  | cons m ms ih =>
    unfold commaPieces
    split
    next h =>
      simp only [Bool.and_eq_true, decide_eq_true_eq] at h
      simp only [List.map_cons, List.flatten_cons, ih]
      simp [chars, h.1]
    next =>
      revert ih
      cases commaPieces ms with
      | nil => intro ih; simp [chars] at ih ⊢; simp [← ih]
      | cons p ps => intro ih; simp_all [chars]

end ElementModules.Script
