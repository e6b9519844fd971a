import FlagStack.Decimal.Shortest

/-!
# Layout of a decimal

How the digits of a decimal are written out: positionally while the exponent of
the leading digit lies in a given range, and with an exponent outside of it.
-/

namespace FlagStack
namespace Decimal

/-- The leading exponents that are written positionally. -/
structure Layout where
  least : Int
  greatest : Int

def digits (d : Decimal) : List Char :=
  Nat.toDigits 10 d.coefficient

/-- The digits without zeros at their end. -/
def significantDigits (d : Decimal) : List Char :=
  (d.digits.reverse.dropWhile (· == '0')).reverse

/-- Exponent of the leading digit. -/
def leading (d : Decimal) : Int :=
  d.exponent + d.digits.length - 1

/-- Digits with a point after the first `whole` of them, padded with zeros so
that at least one digit stands on either side. -/
def pointed (digits : List Char) (whole : Nat) : List Char :=
  let padded := digits ++ List.replicate (whole + 1 - digits.length) '0'
  padded.take whole ++ '.' :: padded.drop whole

/-- Digits behind `0.` and `zeros` zeros. -/
def fractional (digits : List Char) (zeros : Nat) : List Char :=
  '0' :: '.' :: List.replicate zeros '0' ++ digits

/-- First digit, and the others behind a point if there are any. -/
def mantissa : List Char → List Char
  | first :: second :: others => first :: '.' :: second :: others
  | short => short

/-- A mantissa and a signed exponent. -/
def scientific (digits : List Char) (exponent : Int) : List Char :=
  mantissa digits ++ 'e' :: (if exponent < 0 then '-' else '+') ::
    Nat.toDigits 10 exponent.natAbs

/-- The decimal written out. -/
def write (layout : Layout) (d : Decimal) : List Char :=
  if d.coefficient = 0 then ['0', '.', '0']
  else if d.leading < layout.least ∨ layout.greatest < d.leading then
    scientific d.significantDigits d.leading
  else if d.leading < 0 then fractional d.significantDigits (-d.leading - 1).toNat
  else pointed d.significantDigits (d.leading.toNat + 1)

end Decimal
end FlagStack
