import FlagStack.Json.Error
import FlagStack.Powers

/-!
# Numerals

A numeral is read in two steps: its spelling is taken apart first, and then its
value is found.  Only a value that is kept needs the second step, which is the
only one that can go out of range.

**Value.**  A numeral without point and exponent that fits into 64 bits is an
integer; `-0` and every other numeral is a floating point number.  Its digits
are gathered into a 64-bit significand for as long as they fit; further digits
before the point count into the exponent, those behind it are dropped.  The
significand is then multiplied or divided by a power of ten, each of the two
steps rounded.
-/

namespace FlagStack
namespace Json

/-- The spelling of a number, its digits as characters. -/
structure Numeral where
  negative : Bool
  whole : List Char
  fraction : Option (List Char)
  exponent : Option (Bool × List Char)

namespace Numeral

/-- A digit or more; `atEnd` is the fault if the text breaks off instead. -/
def someDigits (atEnd : Error) (s : List Char) :
    Except Error (List Char × List Char) :=
  match s with
  | [] => .error atEnd
  | c :: _ =>
      if c.isDigit then .ok (s.takeWhile Char.isDigit, s.dropWhile Char.isDigit)
      else .error .invalidNumber

/-- The digits before the point: no zero stands before another digit. -/
def wholePart (atEnd : Error) (s : List Char) :
    Except Error (List Char × List Char) :=
  match s with
  | '0' :: c :: rest =>
      if c.isDigit then .error .invalidNumber else .ok (['0'], c :: rest)
  | _ => someDigits atEnd s

def fractionPart (atEnd : Error) (s : List Char) :
    Except Error (Option (List Char) × List Char) :=
  match s with
  | '.' :: rest => do
      let (digits, rest) ← someDigits atEnd rest
      return (some digits, rest)
  | _ => .ok (none, s)

/-- A minus that may stand before a number, with `true` for one that does. -/
def minus (s : List Char) : Bool × List Char :=
  match s with
  | '-' :: rest => (true, rest)
  | _ => (false, s)

/-- The sign that may stand before an exponent, with `true` for a minus. -/
def exponentSign (s : List Char) : Bool × List Char :=
  match s with
  | '+' :: rest => (false, rest)
  | _ => minus s

/-- The exponent, with `true` for a negative one. -/
def exponentPart (atEnd : Error) (s : List Char) :
    Except Error (Option (Bool × List Char) × List Char) :=
  match s with
  | c :: rest =>
      if c = 'e' ∨ c = 'E' then do
        let (sign, rest) := exponentSign rest
        let (digits, rest) ← someDigits atEnd rest
        return (some (sign, digits), rest)
      else .ok (none, s)
  | [] => .ok (none, [])

/-- The parts of a numeral behind its sign, and what is left of the text. -/
def unsigned (atEnd : Error) (negative : Bool) (s : List Char) :
    Except Error (Numeral × List Char) := do
  let (whole, s) ← wholePart atEnd s
  let (fraction, s) ← fractionPart atEnd s
  let (exponent, s) ← exponentPart atEnd s
  return (⟨negative, whole, fraction, exponent⟩, s)

/-- The numeral at the head of a text. -/
def scan (atEnd : Error) (s : List Char) : Except Error (Numeral × List Char) :=
  let (negative, s) := minus s
  unsigned atEnd negative s

/-- Value of a digit. -/
def digitValue (c : Char) : Nat :=
  c.toNat - '0'.toNat

/-- Appends digits to a significand while it stays below `2 ^ 64`: the
significand and the digits that are left. -/
def gather (significand : Nat) : List Char → Nat × List Char
  | [] => (significand, [])
  | c :: rest =>
      let next := significand * 10 + digitValue c
      if next < twoPow 64 then gather next rest else (significand, c :: rest)

/-- Value of a sequence of digits. -/
def natural (digits : List Char) : Nat :=
  digits.foldl (fun n c => n * 10 + digitValue c) 0

/-- Quotient by `10 ^ 308`, taken `count` times or until nothing is left. -/
def overLargestPow : Nat → Binary64 → Binary64
  | 0, x => x
  | count + 1, x =>
      if x.isZero then x else overLargestPow count (x.overTenPow 308)

/-- `significand * 10 ^ exponent`, computed in floating point numbers: `none`
where that is infinite. -/
def scaled (significand : Nat) (exponent : Int) : Option Binary64 :=
  let x := Binary64.ofNat significand
  match exponent with
  | .ofNat k =>
      if k ≤ 308 then
        let y := x.timesTenPow k
        if y.isFinite then some y else none
      else if x.isZero then some x
      else none
  | .negSucc k =>
      let large := k / 308
      some ((overLargestPow large x).overTenPow (k + 1 - 308 * large))

/-- The greatest exponent that is taken at its value. -/
def greatestExponent : Nat := twoPow 31 - 1

/-- Magnitude of a numeral that is read as a floating point number. -/
def magnitude (n : Numeral) : Option Binary64 :=
  let (significand, surplus) := gather 0 n.whole
  let digits := n.fraction.getD []
  let (significand, dropped) := gather significand digits
  let point : Int := surplus.length - (digits.length - dropped.length : Nat)
  match n.exponent with
  | none => scaled significand point
  | some (negative, digits) =>
      let exponent := natural digits
      if exponent ≤ greatestExponent then
        scaled significand (point + if negative then -(exponent : Int) else exponent)
      else if significand = 0 ∨ negative then some Binary64.zero
      else none

/-- The value as a floating point number. -/
def float? (n : Numeral) : Option Binary64 :=
  n.magnitude.map fun x => if n.negative then x.neg else x

/-- The value as an integer, where the numeral is read as one. -/
def integer? (n : Numeral) : Option Int :=
  if n.fraction.isSome ∨ n.exponent.isSome then none
  else
    match gather 0 n.whole with
    | (m, []) =>
        if n.negative then
          if 0 < m ∧ m ≤ twoPow 63 then some (-m) else none
        else some m
    | _ => none

/-- The value, if it is in range. -/
def value (n : Numeral) : Except Error Json :=
  match n.integer? with
  | some i => .ok (.integer i)
  | none =>
      match n.float? with
      | some x => .ok (.float x)
      | none => .error .numberOutOfRange

end Numeral
end Json
end FlagStack
