import FlagStack.Powers

/-!
# Binary floating point numbers of 64 bits

A number is its word: a sign bit, eleven bits of exponent and fifty-two bits of
fraction.  Finite magnitudes are counted in *units* of `2 ^ -1074`, the least
positive magnitude, so that every operation below is exact arithmetic on `Nat`
followed by one rounding.

**Rounding** goes to the nearest magnitude, a tie to the even word, and past
the greatest finite magnitude to infinity.
-/

namespace FlagStack

/-- A binary floating point number, given by its word. -/
structure Binary64 where
  bits : UInt64
deriving DecidableEq, Inhabited

namespace Binary64

/-- The word of infinity, the least magnitude that is not finite. -/
def infinityWord : Nat := 0x7FF * twoPow 52

/-- Number of units in one. -/
def unitsPerOne : Nat := twoPow 1074

/-- The number with this sign and magnitude word. -/
def ofWord (negative : Bool) (word : Nat) : Binary64 :=
  ⟨UInt64.ofNat (word + if negative then twoPow 63 else 0)⟩

def zero : Binary64 := ofWord false 0

def infinity (negative : Bool) : Binary64 := ofWord negative infinityWord

/-- A word that is no number. -/
def nan : Binary64 := ofWord false (infinityWord + twoPow 51)

def negative (x : Binary64) : Bool :=
  twoPow 63 ≤ x.bits.toNat

/-- The word without its sign bit. -/
def word (x : Binary64) : Nat :=
  x.bits.toNat % twoPow 63

def isFinite (x : Binary64) : Bool :=
  x.word < infinityWord

def isZero (x : Binary64) : Bool :=
  x.word == 0

def neg (x : Binary64) : Binary64 :=
  ofWord (!x.negative) x.word

/-- Significand of a finite number, hidden bit included. -/
def significand (x : Binary64) : Nat :=
  if x.word < twoPow 52 then x.word else x.word % twoPow 52 + twoPow 52

/-- A finite magnitude is `significand * 2 ^ scale` units. -/
def scale (x : Binary64) : Nat :=
  x.word / twoPow 52 - 1

/-- Magnitude of a finite number in units. -/
def units (x : Binary64) : Nat :=
  x.significand * twoPow x.scale

/-- Nearest natural number to `num / den`, the even one on a tie. -/
def roundToEven (num den : Nat) : Nat :=
  let quotient := num / den
  let remainder := num % den
  if 2 * remainder < den then quotient
  else if den < 2 * remainder then quotient + 1
  else quotient + quotient % 2

/-- Word of the magnitude nearest to `num / den` units.  The scale is the least
one at which the significand has at most fifty-three bits; a significand that
rounds up to fifty-four bits carries into the exponent field by itself. -/
def nearestWord (num den : Nat) : Nat :=
  let scale := (num / den).log2 + 1 - 53
  min infinityWord (scale * twoPow 52 + roundToEven num (den * twoPow scale))

/-- Number nearest to `num / den` units, with the given sign. -/
def ofUnits (negative : Bool) (num den : Nat) : Binary64 :=
  ofWord negative (nearestWord num den)

/-- Number nearest to a natural number. -/
def ofNat (n : Nat) : Binary64 :=
  ofUnits false (n * unitsPerOne) 1

/-- Number nearest to an integer. -/
def ofInt (n : Int) : Binary64 :=
  ofUnits (n < 0) (n.natAbs * unitsPerOne) 1

/-- Product with the power of ten that is nearest to `10 ^ k`. -/
def timesTenPow (x : Binary64) (k : Nat) : Binary64 :=
  ofUnits x.negative (x.units * (ofNat (tenPow k)).units) unitsPerOne

/-- Quotient by the power of ten that is nearest to `10 ^ k`. -/
def overTenPow (x : Binary64) (k : Nat) : Binary64 :=
  ofUnits x.negative (x.units * unitsPerOne) (ofNat (tenPow k)).units

end Binary64
end FlagStack
