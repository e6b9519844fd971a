import FlagStack.Decimal.Binary64

/-!
# Shortest decimal of a binary number

Among the decimals that round to a given finite number, the shortest are those
with the fewest digits, and of these the nearest to the number is taken.  Of two
that are equally near, that is the one with the even last digit.

The decimals that round to a number form an interval around it, its ends
included when the significand is even.  For one, two, … seventeen digits the
two neighbours of the number on that decimal grid are tested; if any point of a
grid lies in the interval, one of these two does.
-/

namespace FlagStack

/-- The decimal `coefficient * 10 ^ exponent`. -/
structure Decimal where
  coefficient : Nat
  exponent : Int
deriving DecidableEq

namespace Binary64

/-- Ends of the interval of magnitudes that round to `x`, in quarters of a unit.
Below a power of two the neighbours are twice as close. -/
def roundingInterval (x : Binary64) : Nat × Nat :=
  let step := twoPow x.scale
  let below := if x.significand = twoPow 52 ∧ 0 < x.scale then step else 2 * step
  (4 * x.units - below, 4 * x.units + 2 * step)

/-- The magnitude of `num / den` quarter units rounds to `x`. -/
def roundsFrom (x : Binary64) (num den : Nat) : Bool :=
  let (low, high) := x.roundingInterval
  if x.significand % 2 = 0 then low * den ≤ num && num ≤ high * den
  else low * den < num && num < high * den

/-- Exponent of the leading digit of a positive finite number. -/
def leadingExponent (x : Binary64) : Int :=
  ((Nat.toDigits 10 (x.units * tenPow 324 / unitsPerOne)).length : Int) - 325

/-- Quarter units in `coefficient * 10 ^ exponent`, as a quotient. -/
def quarterUnits (coefficient : Nat) (exponent : Int) : Nat × Nat :=
  (coefficient * tenPow exponent.toNat * (4 * unitsPerOne), tenPow (-exponent).toNat)

/-- The neighbour of `x` on the grid of multiples of `10 ^ exponent` that rounds
to `x`; the nearer one if both do, and the even one if they are equally near. -/
def onGrid? (x : Binary64) (exponent : Int) : Option Nat :=
  let (stepNum, stepDen) := quarterUnits 1 exponent
  let value := 4 * x.units * stepDen
  let below := value / stepNum
  let hit := fun n => x.roundsFrom (n * stepNum) stepDen
  match hit below, hit (below + 1) with
  | true, true => some (roundToEven value stepNum)
  | true, false => some below
  | false, true => some (below + 1)
  | false, false => none

/-- The coarsest grid with a hit, trying `count` grids of ever more digits. -/
def shortestFrom (x : Binary64) : Nat → Int → Decimal
  | 0, exponent => ⟨0, exponent⟩
  | count + 1, exponent =>
      match x.onGrid? exponent with
      | some n => ⟨n, exponent⟩
      | none => x.shortestFrom count (exponent - 1)

/-- Shortest decimal that rounds to the magnitude of a finite number. -/
def shortest (x : Binary64) : Decimal :=
  if x.isZero then ⟨0, 0⟩ else x.shortestFrom 17 x.leadingExponent

end Binary64
end FlagStack
