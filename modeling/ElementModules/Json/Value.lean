import ElementModules.Number.Shortest

/-!
# JSON values

A JSON number is an integer of at most 64 bits or a double. An object keeps its fields in the order
in which they are written, repetitions included.
-/

namespace ElementModules

/-- A number of a JSON text. -/
inductive JsonNumber
  /-- An integer that fits 64 bits. -/
  | integer (value : Int)
  /-- Any other number, with its sign. -/
  | double (negative : Bool) (magnitude : Double)
  deriving DecidableEq, Repr

/-- A value of a JSON text. -/
inductive Json
  | null
  | bool (value : Bool)
  | number (value : JsonNumber)
  | string (value : Text)
  | array (items : List Json)
  | object (fields : List (Text × Json))
  /-- A text that is well formed and yet has no value: a number that is too large, or a string with
  half of a surrogate pair. It may stand only where the value is not looked at. -/
  | unreadable
  deriving Repr, Inhabited

namespace JsonNumber

/-- How doubles are written: positional from 0.00001 up to sixteen digits before the point. -/
def style : DecimalStyle := ⟨-5, 16⟩

/-- The text of a number. -/
def render : JsonNumber → Text
  | .integer value =>
    if value < 0 then '-' :: Decimal.ofNat value.natAbs else Decimal.ofNat value.natAbs
  | .double negative d =>
    let sign : Text := if negative then ['-'] else []
    sign ++ if d.isZero then "0.0".toList else style.render (Decimal.shortest d)

/-- Appends digits to a number as long as it fits 64 bits; the second component counts the digits
that were appended. -/
def appendFitting (n : Nat) : Text → Nat × Nat
  | [] => (n, 0)
  | c :: ds =>
    let next := n * 10 + (c.toNat - '0'.toNat)
    if next < Nat.pow 2 64 then
      let (m, k) := appendFitting next ds
      (m, k + 1)
    else (n, 0)

/-- The value of a run of digits. -/
def digitsValue (ds : Text) : Nat :=
  ds.foldl (fun n c => n * 10 + (c.toNat - '0'.toNat)) 0

/-- The number with the given digits before the point, after the point and in the exponent. Digits
that do not fit 64 bits only move the exponent. -/
def ofParts? (negative : Bool) (whole : Text) (fraction : Option Text)
    (exponent : Option (Bool × Text)) : Option JsonNumber :=
  let (n, kept) := appendFitting 0 whole
  if fraction.isNone && exponent.isNone && kept = whole.length
      && (!negative || (n ≠ 0 && n ≤ Nat.pow 2 63)) then
    some (.integer (if negative then -(n : Int) else n))
  else
    let (m, used) := appendFitting n (fraction.getD [])
    let written : Int := match exponent with
      | none => 0
      | some (down, ds) => if down then -(digitsValue ds : Int) else digitsValue ds
    (Double.ofDecimal? m (written + (whole.length - kept : Nat) - used)).map (.double negative)

end JsonNumber

end ElementModules
