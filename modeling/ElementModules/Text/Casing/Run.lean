/-!
# Runs of character codes

A run is a stretch of codes with a fixed step. Tables of character properties are lists of runs.
-/

namespace ElementModules.Text.Casing

/-- The codes from `first` to `last` in steps of `step`. -/
structure Run where
  first : Nat
  last : Nat
  step : Nat
  deriving DecidableEq, Repr

/-- Whether a code belongs to the run. -/
def Run.covers (r : Run) (n : Nat) : Bool :=
  r.first ≤ n && n ≤ r.last && (n - r.first) % r.step = 0

/-- The image of a code: the runs keep the distance to their first code. -/
def imageOf? (runs : List (Run × Nat)) (n : Nat) : Option Nat :=
  (runs.find? fun r => r.1.covers n).map fun r => r.2 + (n - r.1.first)

end ElementModules.Text.Casing
