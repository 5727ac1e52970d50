/-!
# Double-precision magnitudes

The nonnegative finite numbers of the binary64 format, as a mantissa and a power of two, with
rounding to nearest and ties to even. All arithmetic is exact arithmetic on natural numbers followed
by one rounding.

Main statement: `roundHalfEven_mul`, rounding leaves an exact quotient alone.
-/

namespace ElementModules

/-- The number `mantissa * 2 ^ exponent`. Normal numbers have a mantissa of 53 bits; subnormal
numbers and zero have the least exponent. -/
structure Double where
  mantissa : Nat
  exponent : Int
  deriving DecidableEq, Repr

namespace Double

/-- The number of bits of a mantissa. -/
def precision : Nat := 53

/-- The exponent of the subnormal numbers. -/
def leastExponent : Int := -1074

/-- The exponent of the largest numbers. -/
def greatestExponent : Int := 971

/-- The number zero. -/
def zero : Double := ⟨0, leastExponent⟩

/-- Whether a number is zero. -/
def isZero (d : Double) : Bool := d.mantissa = 0

/-- A quotient rounded to nearest, a half going to the even neighbour. -/
def roundHalfEven (num den : Nat) : Nat :=
  let q := num / den
  let r := num % den
  if den < 2 * r || (2 * r = den && q % 2 = 1) then q + 1 else q

/-- An exact quotient stays. -/
theorem roundHalfEven_mul (q den : Nat) (h : 0 < den) : roundHalfEven (q * den) den = q := by
  simp [roundHalfEven, h]
  omega

/-- `num / den` divided by a power of two, as a quotient of natural numbers. -/
def scaled (num den : Nat) (exponent : Int) : Nat × Nat :=
  if 0 ≤ exponent then (num, den * Nat.pow 2 exponent.toNat)
  else (num * Nat.pow 2 (-exponent).toNat, den)

/-- The exponent that gives `num / den` a mantissa of full precision, or the least exponent. -/
def exponentFor (num den : Nat) : Int :=
  let guess : Int := (num.log2 : Int) - den.log2 - precision
  let e := max guess leastExponent
  let (n, d) := scaled num den e
  if Nat.pow 2 precision ≤ n / d then e + 1 else e

/-- The double nearest to a quotient, unless it is too large. -/
def ofRatio? (num den : Nat) : Option Double :=
  if num = 0 || den = 0 then some zero
  else
    let e := exponentFor num den
    let (n, d) := scaled num den e
    let m := roundHalfEven n d
    let (m, e) := if m = Nat.pow 2 precision then (Nat.pow 2 (precision - 1), e + 1) else (m, e)
    if greatestExponent < e then none else some ⟨m, e⟩

/-- The double as a quotient. -/
def toRatio (d : Double) : Nat × Nat :=
  if 0 ≤ d.exponent then (d.mantissa * Nat.pow 2 d.exponent.toNat, 1)
  else (d.mantissa, Nat.pow 2 (-d.exponent).toNat)

/-- The product, rounded once. -/
def mul? (a b : Double) : Option Double :=
  let (an, ad) := a.toRatio
  let (bn, bd) := b.toRatio
  ofRatio? (an * bn) (ad * bd)

/-- The quotient, rounded once. -/
def div? (a b : Double) : Option Double :=
  let (an, ad) := a.toRatio
  let (bn, bd) := b.toRatio
  ofRatio? (an * bd) (ad * bn)

/-- The greatest power of ten that is a double. -/
def greatestTenPower : Nat := 308

/-- `d / 10 ^ n`, by divisions through powers of ten that are doubles. -/
def divTenPower (d : Double) (n : Nat) : Option Double :=
  if n ≤ greatestTenPower then do div? d (← ofRatio? (Nat.pow 10 n) 1)
  else if d.isZero then some d
  else do
    let tenPower ← ofRatio? (Nat.pow 10 greatestTenPower) 1
    let next ← div? d tenPower
    divTenPower next (n - greatestTenPower)
  termination_by n
  decreasing_by simp [greatestTenPower] at *; omega

/-- A decimal number read in two steps: its digits are rounded to a double, which is then multiplied
or divided by a power of ten. Numbers that are too large have no reading. -/
def ofDecimal? (digits : Nat) (tenExponent : Int) : Option Double := do
  let d ← ofRatio? digits 1
  if d.isZero then return zero
  if 0 ≤ tenExponent then
    if tenExponent.toNat ≤ greatestTenPower then
      mul? d (← ofRatio? (Nat.pow 10 tenExponent.toNat) 1)
    else none
  else divTenPower d (-tenExponent).toNat

end Double

end ElementModules
