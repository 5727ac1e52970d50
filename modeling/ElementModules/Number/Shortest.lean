import ElementModules.Number.Double
import ElementModules.Text.Basic

/-!
# Shortest decimals

The fewest digits that read back as a given double. The numbers that round to a double form an
interval around it; its ends belong to it if the mantissa is even. For one digit, two digits and so
on, the two neighbours of the double on that decimal grid are tried; the first grid that hits the
interval wins, and of two hits the nearer.
-/

namespace ElementModules

/-- The number `digits * 10 ^ exponent`. -/
structure Decimal where
  digits : Nat
  exponent : Int
  deriving DecidableEq, Repr

namespace Decimal

/-- The digits of a natural number in base ten. -/
def ofNat (n : Nat) : Text := Nat.toDigits 10 n

/-- The same number without zeros at the end of the digits; at most `fuel` are taken away. -/
def normalize : Nat → Decimal → Decimal
  | 0, d => d
  | fuel + 1, d =>
    if d.digits ≠ 0 ∧ d.digits % 10 = 0 then normalize fuel ⟨d.digits / 10, d.exponent + 1⟩ else d

/-- The numbers that round to a double: lower end, upper end and common denominator, and whether
the ends belong to them. -/
structure Interval where
  lower : Nat
  value : Nat
  upper : Nat
  den : Nat
  closed : Bool

/-- The interval of a double. Below a power of two the gap is half as wide. -/
def intervalOf (d : Double) : Interval :=
  let m := d.mantissa
  let narrow := m = Nat.pow 2 (Double.precision - 1) && Double.leastExponent < d.exponent
  let lower := if narrow then 4 * m - 1 else 4 * m - 2
  let closed := m % 2 = 0
  if 0 ≤ d.exponent then
    let s := Nat.pow 2 d.exponent.toNat
    ⟨lower * s, 4 * m * s, (4 * m + 2) * s, 4, closed⟩
  else ⟨lower, 4 * m, 4 * m + 2, 4 * Nat.pow 2 (-d.exponent).toNat, closed⟩

/-- Whether `n * unitNum / unitDen` lies in the interval. -/
def Interval.contains (i : Interval) (n unitNum unitDen : Nat) : Bool :=
  let x := n * unitNum * i.den
  let below := i.lower * unitDen
  let above := i.upper * unitDen
  if i.closed then below ≤ x && x ≤ above else below < x && x < above

/-- The nearer of the two neighbours on the grid of multiples of `10 ^ exponent`, among those in the
interval. A tie goes to the even neighbour. -/
def onGrid? (i : Interval) (exponent : Int) : Option Decimal :=
  let unitNum := if 0 ≤ exponent then Nat.pow 10 exponent.toNat else 1
  let unitDen := if 0 ≤ exponent then 1 else Nat.pow 10 (-exponent).toNat
  let num := i.value * unitDen
  let den := i.den * unitNum
  let low := num / den
  let lowHit := low ≠ 0 && i.contains low unitNum unitDen
  let highHit := i.contains (low + 1) unitNum unitDen
  if lowHit && highHit then some ⟨Double.roundHalfEven num den, exponent⟩
  else if lowHit then some ⟨low, exponent⟩
  else if highHit then some ⟨low + 1, exponent⟩
  else none

/-- The number of digits before the point of `num / den`: negative if zeros follow the point. -/
def magnitude (num den : Nat) : Int :=
  if den ≤ num then ((ofNat (num / den)).length : Int)
  else 1 - ((ofNat ((den - 1) / num)).length : Int)

/-- The grids of one to seventeen digits, coarsest first. -/
def grids (magnitude : Int) : List Int :=
  (List.range 17).map fun n => magnitude - (n + 1 : Nat)

/-- The shortest decimal that reads back as a double other than zero. -/
def shortest (d : Double) : Decimal :=
  let i := intervalOf d
  normalize 20 (((grids (magnitude i.value i.den)).findSome? (onGrid? i)).getD ⟨0, 0⟩)

end Decimal

/-- How a decimal is written. -/
structure DecimalStyle where
  /-- The place of the point, counted from the first digit, from which numbers are positional. -/
  leastPoint : Int
  /-- The place of the point up to which numbers are positional. -/
  greatestPoint : Int

namespace DecimalStyle

/-- The text of a decimal. Positional numbers have a digit after the point; others have a signed
exponent and a point only if they have several digits. -/
def render (style : DecimalStyle) (d : Decimal) : Text :=
  let ds := Decimal.ofNat d.digits
  let point : Int := ds.length + d.exponent
  if 0 ≤ d.exponent && point ≤ style.greatestPoint then
    ds ++ List.replicate d.exponent.toNat '0' ++ ['.', '0']
  else if 0 < point && point ≤ style.greatestPoint then
    ds.take point.toNat ++ '.' :: ds.drop point.toNat
  else if style.leastPoint < point && point ≤ 0 then
    '0' :: '.' :: List.replicate (-point).toNat '0' ++ ds
  else
    let fraction := if ds.length ≤ 1 then [] else '.' :: ds.drop 1
    let e := point - 1
    ds.take 1 ++ fraction ++ 'e' :: (if 0 ≤ e then '+' else '-') :: Decimal.ofNat e.natAbs

end DecimalStyle

end ElementModules
