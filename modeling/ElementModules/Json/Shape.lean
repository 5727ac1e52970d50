import ElementModules.Json.Reader
import ElementModules.Keyed

/-!
# Shapes of JSON values

Readers of JSON values of a known shape. A record may be written as an object, in which unknown
fields are passed over and known ones occur at most once, or as an array of its fields in order. In a
map a key that is repeated keeps its first place and its last value.
-/

namespace ElementModules.Json

/-- The number of arrays and objects that may enclose each other. -/
def greatestNesting : Nat := 127

/-- The text that a value is. -/
def asText? : Json → Option Text
  | .string s => some s
  | _ => none

/-- The truth value that a value is. -/
def asBool? : Json → Option Bool
  | .bool b => some b
  | _ => none

/-- The items of an array, each read by `item`. -/
def asList? {α : Type} (item : Json → Option α) : Json → Option (List α)
  | .array items => items.mapM item
  | _ => none

/-- A value that may be `null`. -/
def asOption? {α : Type} (item : Json → Option α) : Json → Option (Option α)
  | .null => some none
  | v => (item v).map some

/-- A map from texts. -/
def asMap? {α : Type} (value : Json → Option α) : Json → Option (List (Text × α))
  | .object fields => (fields.mapM fun f => (value f.2).map (f.1, ·)).map Keyed.settle
  | _ => none

/-- A value that names one of several cases: as a string, or as an object with that one key and the
value `null`. -/
def asCase? {α : Type} (cases : List (Text × α)) : Json → Option α
  | .string s => cases.lookup s
  | .object [(s, .null)] => cases.lookup s
  | _ => none

/-- The fields of a record with the given names that are present. -/
def asRecord? (names : List Text) : Json → Option (List (Text × Json))
  | .object fields =>
    let known := fields.filter fun f => names.contains f.1
    if (known.map Prod.fst).Nodup then some known else none
  | .array items => if items.length ≤ names.length then some (names.zip items) else none
  | _ => none

/-- A field that must be present. -/
def required? {α : Type} (fields : List (Text × Json)) (name : Text) (value : Json → Option α) :
    Option α :=
  (fields.lookup name).bind value

/-- A field with a value that stands in when it is absent. -/
def optional? {α : Type} (fields : List (Text × Json)) (name : Text) (value : Json → Option α)
    (default : α) : Option α :=
  match fields.lookup name with
  | some v => value v
  | none => some default

mutual

/-- The value with settled keys, if all of it can be read and at most `levels` arrays and objects
enclose each other. -/
def settle? : Nat → Json → Option Json
  | _, .unreadable => none
  | 0, .array _ => none
  | 0, .object _ => none
  | levels + 1, .array items => (settleItems? levels items).map .array
  | levels + 1, .object fields => (settleFields? levels fields).map fun fs => .object (Keyed.settle fs)
  | _, v => some v

/-- The items of an array, settled. -/
def settleItems? : Nat → List Json → Option (List Json)
  | _, [] => some []
  | levels, v :: items => do return (← settle? levels v) :: (← settleItems? levels items)

/-- The fields of an object, settled. -/
def settleFields? : Nat → List (Text × Json) → Option (List (Text × Json))
  | _, [] => some []
  | levels, (key, v) :: fields => do
    return (key, ← settle? levels v) :: (← settleFields? levels fields)

end

end ElementModules.Json
