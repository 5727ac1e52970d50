import ElementModules.Json.Token

/-!
# Writing JSON

A value has one sequence of tokens. The compact form writes them without blanks. The layered form
puts each element of an array or object on a line of its own, indented by two spaces for every level,
and a space after each colon; empty arrays and objects stay on one line.
-/

namespace ElementModules.Json

mutual

/-- The tokens of a value. -/
def toTokens : Json → List Token
  | .null | .unreadable => [.null]
  | .bool b => [.bool b]
  | .number n => [.number (some n)]
  | .string s => [.string (some s)]
  | .array items => .openBracket :: itemTokens items ++ [.closeBracket]
  | .object fields => .openBrace :: fieldTokens fields ++ [.closeBrace]

/-- The tokens of the items of an array. -/
def itemTokens : List Json → List Token
  | [] => []
  | [v] => toTokens v
  | v :: w :: items => toTokens v ++ .comma :: itemTokens (w :: items)

/-- The tokens of the fields of an object. -/
def fieldTokens : List (Text × Json) → List Token
  | [] => []
  | [(key, v)] => .string (some key) :: .colon :: toTokens v
  | (key, v) :: f :: fields =>
    .string (some key) :: .colon :: toTokens v ++ .comma :: fieldTokens (f :: fields)

end

/-- The text of a value without blanks. -/
def compact (v : Json) : Text :=
  v.toTokens.flatMap Token.render

/-- Whether a token opens an array or an object. -/
def Token.opens (t : Token) : Bool := t = .openBrace || t = .openBracket

/-- Whether a token closes an array or an object. -/
def Token.closes (t : Token) : Bool := t = .closeBrace || t = .closeBracket

/-- A new line at a level. -/
def newLine (level : Nat) : Text :=
  '\n' :: List.replicate (2 * level) ' '

/-- The text of a run of tokens in lines; `level` counts the arrays and objects that are open. -/
def layered (level : Nat) : List Token → Text
  | [] => []
  | token :: rest =>
    if token.opens then
      match rest.head? with
      | some next =>
        if next.closes then token.render ++ layered (level + 1) rest
        else token.render ++ newLine (level + 1) ++ layered (level + 1) rest
      | none => token.render
    else if token = .comma then token.render ++ newLine level ++ layered level rest
    else if token = .colon then token.render ++ ' ' :: layered level rest
    else
      let level := if token.closes then level - 1 else level
      let afterwards := match rest.head? with
        | some next => if next.closes && !token.opens then newLine (level - 1) else []
        | none => []
      token.render ++ afterwards ++ layered level rest

/-- The text of a value in lines. -/
def pretty (v : Json) : Text :=
  layered 0 v.toTokens

end ElementModules.Json
