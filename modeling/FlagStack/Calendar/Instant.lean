import FlagStack.Calendar.Date

/-!
# Instants

A point in time, in Coordinated Universal Time: whole seconds since the start
of 1970 and nanoseconds within the second.  A leap second belongs to the second
before it; there the nanoseconds go on from one to two thousand million, and it
is written as second `60`.

Two forms are written.  The stamp stands in templates and config files, the
label in messages to people.
-/

namespace FlagStack

structure Instant where
  seconds : Int
  nanos : Nat
deriving DecidableEq

namespace Instant

/-- Nanoseconds in a second. -/
def nanosPerSecond : Nat := 1000000000

def secondsPerDay : Int := 86400

def date (t : Instant) : Date :=
  Date.ofNumber (t.seconds / secondsPerDay)

/-- Seconds since midnight. -/
def secondOfDay (t : Instant) : Nat :=
  (t.seconds % secondsPerDay).toNat

/-- Second of the minute, `60` in a leap second. -/
def second (t : Instant) : Nat :=
  t.secondOfDay % 60 + if nanosPerSecond ≤ t.nanos then 1 else 0

/-- Decimal digits, padded with zeros to a width. -/
def padded (width n : Nat) : List Char :=
  let digits := Nat.toDigits 10 n
  List.replicate (width - digits.length) '0' ++ digits

/-- Four digits, or a sign and at least four digits outside of the years that
have four. -/
def writeYear (year : Int) : List Char :=
  if 0 ≤ year ∧ year ≤ 9999 then padded 4 year.toNat
  else (if year < 0 then '-' else '+') :: padded 4 year.natAbs

def writeDate (d : Date) : List Char :=
  writeYear d.year ++ '-' :: padded 2 d.month ++ '-' :: padded 2 d.day

/-- Three, six or nine digits of a second, or none for a whole one. -/
def writeFraction (nanos : Nat) : List Char :=
  if nanos = 0 then []
  else if nanos % 1000000 = 0 then '.' :: padded 3 (nanos / 1000000)
  else if nanos % 1000 = 0 then '.' :: padded 6 (nanos / 1000)
  else '.' :: padded 9 nanos

def writeTime (t : Instant) : List Char :=
  padded 2 (t.secondOfDay / 3600) ++ ':' :: padded 2 (t.secondOfDay / 60 % 60) ++
    ':' :: padded 2 t.second ++ writeFraction (t.nanos % nanosPerSecond)

/-- The form for machines, such as `2025-01-31T09:30:00Z`. -/
def stamp (t : Instant) : String :=
  String.ofList (writeDate t.date ++ 'T' :: t.writeTime ++ ['Z'])

/-- The form for people, such as `2025-01-31 09:30:00 UTC`. -/
def label (t : Instant) : String :=
  String.ofList (writeDate t.date ++ ' ' :: t.writeTime ++ [' ', 'U', 'T', 'C'])

end Instant
end FlagStack
