import ElementModules.Json.Token

/-!
# Reading JSON

A JSON value is read by a machine with a stack of unfinished arrays and objects. Each token is one
step, so reading a text is a fold over its tokens.

Main statement: `Reader.run_append`, reading two runs of tokens one after the other reads their
concatenation.
-/

namespace ElementModules.Json

/-- An array or an object of which some elements have been read, the last one first. A key without
a text is `none`. -/
inductive Unfinished
  | items (done : List Json)
  | fields (done : List (Option Text × Json))
  | field (done : List (Option Text × Json)) (key : Option Text)

/-- What may come next. -/
inductive Reader
  /-- A value. -/
  | value (stack : List Unfinished)
  /-- The first element of what is on top of the stack, or its end. -/
  | first (top : Unfinished) (stack : List Unfinished)
  /-- The key of another field. -/
  | nextKey (done : List (Option Text × Json)) (stack : List Unfinished)
  /-- The colon after a key. -/
  | colon (done : List (Option Text × Json)) (key : Option Text) (stack : List Unfinished)
  /-- A comma or the end of what is on top of the stack. -/
  | next (top : Unfinished) (stack : List Unfinished)
  /-- Nothing more. -/
  | finished (result : Json)

/-- An object with some fields, the last one first; it has no value if a key has none. -/
def objectOf (done : List (Option Text × Json)) : Json :=
  match done.reverse.mapM fun f => f.1.map fun key => (key, f.2) with
  | some fields => .object fields
  | none => .unreadable

namespace Reader

/-- The state after a complete value. -/
def complete (v : Json) : List Unfinished → Option Reader
  | [] => some (.finished v)
  | .items done :: stack => some (.next (.items (v :: done)) stack)
  | .field done key :: stack => some (.next (.fields ((key, v) :: done)) stack)
  | .fields _ :: _ => none

/-- The state after the end of an array or object. -/
def close (top : Unfinished) (token : Token) (stack : List Unfinished) : Option Reader :=
  match top, token with
  | .items done, .closeBracket => complete (.array done.reverse) stack
  | .fields done, .closeBrace => complete (objectOf done) stack
  | _, _ => none

/-- The state after the first token of a value. -/
def begin (stack : List Unfinished) : Token → Option Reader
  | .openBracket => some (.first (.items []) stack)
  | .openBrace => some (.first (.fields []) stack)
  | .null => complete .null stack
  | .bool b => complete (.bool b) stack
  | .number n => complete ((n.map Json.number).getD .unreadable) stack
  | .string s => complete ((s.map Json.string).getD .unreadable) stack
  | _ => none

/-- The state after one more token. -/
def step (r : Reader) (token : Token) : Option Reader :=
  match r with
  | .value stack => begin stack token
  | .first top stack =>
    match top, token with
    | .items _, .closeBracket | .fields _, .closeBrace => close top token stack
    | .items done, token => begin (.items done :: stack) token
    | .fields done, .string key => some (.colon done key stack)
    | _, _ => none
  | .nextKey done stack =>
    match token with
    | .string key => some (.colon done key stack)
    | _ => none
  | .colon done key stack =>
    match token with
    | .colon => some (.value (.field done key :: stack))
    | _ => none
  | .next top stack =>
    match top, token with
    | .items done, .comma => some (.value (.items done :: stack))
    | .fields done, .comma => some (.nextKey done stack)
    | top, token => close top token stack
  | .finished _ => none

/-- The state after a run of tokens. -/
def run (r : Reader) (tokens : List Token) : Option Reader :=
  tokens.foldlM step r

theorem run_append (r : Reader) (a b : List Token) :
    r.run (a ++ b) = (r.run a).bind fun r => r.run b := by
  simp [run, List.foldlM_append]

end Reader

/-- The value that a run of tokens stands for. -/
def ofTokens? (tokens : List Token) : Option Json :=
  match (Reader.value []).run tokens with
  | some (.finished v) => some v
  | _ => none

/-- The value of a JSON text. -/
def parse? (t : Text) : Option Json :=
  (tokens? t).bind ofTokens?

end ElementModules.Json
