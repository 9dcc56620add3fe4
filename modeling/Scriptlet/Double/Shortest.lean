import Scriptlet.Double.Decimal

/-! # The shortest decimal of a double

Of the decimals that read back as a double the one with the fewest digits is taken, and of those
the one nearest to it. On the grid of the decimals with a number of digits only the two neighbours
of the value can be meant. A finer grid holds the coarser ones, so the grids are searched by halves,
from one digit to seventeen. The search starts from the exact decimal of the double, so the result
reads back whatever it finds.
-/

namespace Scriptlet.Double

/-- Whether the value of a code is at least a power of ten. -/
def reaches (code : Nat) (exponent : Int) : Bool :=
  if 0 ≤ exponent then one * Nat.pow 10 exponent.toNat ≤ units code
  else one ≤ units code * Nat.pow 10 (-exponent).toNat

/-- The power of ten of the first digit of a positive finite code. It is estimated from the power
of two, with 30103 / 100000 for the logarithm of two, which is too small by one at most. -/
def leadingExponent (code : Nat) : Int :=
  let estimate := (((units code).log2 : Int) - 1074) * 30103 / 100000
  if reaches code (estimate + 1) then estimate + 1 else estimate

/-- The value of a code in steps of `10 ^ step`, as a quotient. -/
def inSteps (code : Nat) (step : Int) : Nat × Nat :=
  if 0 ≤ step then (units code, one * Nat.pow 10 step.toNat)
  else (units code * Nat.pow 10 (-step).toNat, one)

/-- The decimal on one grid that reads back as a code: the nearer neighbour if it does, else the
other one if it does. -/
def onGrid? (code : Nat) (step : Int) : Option Decimal :=
  let (num, den) := inSteps code step
  let nearer := roundDiv num den
  let other := if nearer = num / den then nearer + 1 else num / den
  [nearer, other].findSome? fun n =>
    let d : Decimal := ⟨n, step⟩
    if d.code = code then some d else none

def exactDecimal (code : Nat) : Decimal := ⟨units code * Nat.pow 5 1074, -1074⟩

/-- Searches the grids from `low` on and below `high` by halves for the coarsest one that holds a
decimal. The grids below `low` hold none, and `found` is on the grid `high`. -/
def bisect (grid : Nat → Option Decimal) : Nat → Nat → Nat → Decimal → Decimal
  | 0, _, _, found => found
  | rounds + 1, low, high, found =>
    if low < high then
      let middle := (low + high) / 2
      match grid middle with
      | some d => bisect grid rounds low middle d
      | none => bisect grid rounds (middle + 1) high found
    else found

/-- The shortest decimal of a finite code, and of those the nearest. Five rounds of halving leave
none of the seventeen grids. -/
def shortest (code : Nat) : Decimal :=
  let lead := leadingExponent code
  bisect (fun places => onGrid? code (lead - places)) 5 0 17 (exactDecimal code)

end Scriptlet.Double
