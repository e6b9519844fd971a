/-!
# Dates

Dates of the Gregorian calendar, extended to all years, and their numbers: the
count of days since 1 January 1970.

A year is counted from March, so that the day that leap years add is its last.
Four hundred such years have the same number of days everywhere.
-/

namespace FlagStack

structure Date where
  year : Int
  month : Nat
  day : Nat
deriving DecidableEq

namespace Date

/-- Days in four hundred years. -/
def daysPerEra : Int := 146097

/-- Days from 1 March of year 0 to 1 January 1970. -/
def daysBeforeEpoch : Int := 719468

def isLeapYear (year : Int) : Bool :=
  year % 4 = 0 && (year % 100 ≠ 0 || year % 400 = 0)

def daysInMonth (year : Int) (month : Nat) : Nat :=
  if month = 2 then (if isLeapYear year then 29 else 28)
  else if month = 4 ∨ month = 6 ∨ month = 9 ∨ month = 11 then 30
  else 31

/-- The calendar has such a day. -/
def isValid (d : Date) : Bool :=
  1 ≤ d.month && d.month ≤ 12 && 1 ≤ d.day && d.day ≤ daysInMonth d.year d.month

/-- Days since 1 January 1970. -/
def number (d : Date) : Int :=
  let year := if d.month ≤ 2 then d.year - 1 else d.year
  let yearOfEra := year % 400
  let month := (d.month + 9) % 12
  let dayOfYear : Int := (153 * month + 2) / 5 + d.day - 1
  year / 400 * daysPerEra +
    (yearOfEra * 365 + yearOfEra / 4 - yearOfEra / 100 + dayOfYear) - daysBeforeEpoch

/-- The date with a given number. -/
def ofNumber (n : Int) : Date :=
  let days := n + daysBeforeEpoch
  let dayOfEra := days % daysPerEra
  let yearOfEra :=
    (dayOfEra - dayOfEra / 1460 + dayOfEra / 36524 - dayOfEra / 146096) / 365
  let dayOfYear := (dayOfEra - (365 * yearOfEra + yearOfEra / 4 - yearOfEra / 100)).toNat
  let month := (5 * dayOfYear + 2) / 153
  let day := dayOfYear - (153 * month + 2) / 5 + 1
  let year := yearOfEra + days / daysPerEra * 400
  if month < 10 then ⟨year, month + 3, day⟩ else ⟨year + 1, month - 9, day⟩

end Date
end FlagStack
