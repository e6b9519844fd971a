import FlagStack.Calendar.Instant
import FlagStack.Powers
import FlagStack.Text.Blank

/-!
# Reading timestamps

A timestamp is a date, a time of day and an offset from Coordinated Universal
Time.  Blanks may stand before every number and separator but not directly
before the character between date and time; a year with a sign may have any
number of digits.

Numbers are held to their ranges as they are read.  Whether the calendar has the
day, whether the offset is less than a day, and whether the instant is in the
range of years that is supported, are found out at the end.
-/

namespace FlagStack
namespace Timestamp

inductive Fault where
  | invalid
  | outOfRange
  | truncated
  | trailing
  | impossible
deriving DecidableEq

def Fault.message : Fault → String
  | .invalid => "input contains invalid characters"
  | .outOfRange => "input is out of range"
  | .truncated => "premature end of input"
  | .trailing => "trailing input"
  | .impossible => "no possible date and time matching input"

/-- A reader of one part, on the characters that are left. -/
abbrev Part (α : Type) : Type :=
  StateT (List Char) (Except Fault) α

def leastYear : Int := -262143

def greatestYear : Int := 262142

def skipBlanks : Part Unit := fun s =>
  .ok ((), s.dropWhile Text.isBlank)

/-- The digits at the front of a text, or as many of them as a number may have. -/
def leadingDigits (most : Option Nat) (s : List Char) : List Char :=
  let run := s.takeWhile Char.isDigit
  match most with
  | some n => run.take n
  | none => run

/-- A number below `2 ^ 63`, of at least one digit and at most `most`. -/
def number (most : Option Nat) : Part Nat := fun s =>
  match s with
  | [] => .error .truncated
  | c :: _ =>
      if c.isDigit then
        let digits := leadingDigits most s
        let value := digits.foldl (fun n c => n * 10 + (c.toNat - '0'.toNat)) 0
        if value < twoPow 63 then .ok (value, s.drop digits.length) else .error .outOfRange
      else .error .invalid

/-- A number of one or two digits within a range. -/
def ranged (least most : Nat) : Part Nat := do
  skipBlanks
  let n ← number (some 2)
  if least ≤ n ∧ n ≤ most then return n else throw .outOfRange

/-- A character that has to stand here, blanks before it apart. -/
def separator (c : Char) : Part Unit := do
  skipBlanks
  fun s =>
    match s with
    | [] => .error .truncated
    | d :: rest => if d = c then .ok ((), rest) else .error .invalid

/-- A year: up to four digits, or any number of them behind a sign. -/
def signedYear : Part Int := fun s =>
  match s with
  | '-' :: rest => (do return -(← number none : Int)).run rest
  | '+' :: rest => (do return (← number none : Int)).run rest
  | _ => (do return (← number (some 4) : Int)).run s

/-- A year of 32 bits. -/
def year : Part Int := do
  skipBlanks
  let n ← signedYear
  if -(twoPow 31 : Int) ≤ n ∧ n < twoPow 31 then return n else throw .outOfRange

/-- Nanoseconds from the digits behind a point, those past the ninth dropped. -/
def fraction : Part Nat := fun s =>
  match s with
  | '.' :: rest => do
      let (value, after) ← number (some 9) rest
      let count := rest.length - after.length
      return (value * tenPow (9 - count), after.dropWhile Char.isDigit)
  | _ => .ok (0, s)

/-- The character between date and time. -/
def divider : Part Unit := fun s =>
  match s with
  | [] => .error .truncated
  | c :: rest => if c = 't' ∨ c = 'T' ∨ c = ' ' then .ok ((), rest) else .error .invalid

/-- Two digits; a text too short for them has fewer than two bytes. -/
def twoDigits : Part Nat := fun s =>
  match s with
  | a :: b :: rest =>
      if a.isDigit ∧ b.isDigit then
        .ok ((a.toNat - '0'.toNat) * 10 + (b.toNat - '0'.toNat), rest)
      else .error .invalid
  | [a] => .error (if a.utf8Size < 2 then .truncated else .invalid)
  | [] => .error .truncated

/-- The sign of an offset, `true` for west. -/
def offsetSign : Part Bool := fun s =>
  match s with
  | [] => .error .truncated
  | c :: rest =>
      if c = '+' then .ok (false, rest)
      else if c = '-' ∨ c = '\u2212' then .ok (true, rest)
      else .error .invalid

/-- Offset from Coordinated Universal Time, in seconds. -/
def offset : Part Int := do
  skipBlanks
  fun s =>
    match s with
    | 'Z' :: rest => .ok (0, rest)
    | 'z' :: rest => .ok (0, rest)
    | a :: b :: c :: rest =>
        if a.toUpper = 'U' ∧ b.toUpper = 'T' ∧ c.toUpper = 'C' then .ok (0, rest)
        else numeric s
    | _ => numeric s
where
  numeric : Part Int := do
    let west ← offsetSign
    let hours ← twoDigits
    modify (List.dropWhile fun c => c = ':' || Text.isBlank c)
    let minutes ← twoDigits
    let seconds : Int := hours * 3600 + minutes * 60
    if minutes < 60 then return if west then -seconds else seconds else throw .outOfRange

/-- What a text says, number by number. -/
structure Reading where
  date : Date
  hour : Nat
  minute : Nat
  second : Nat
  nanos : Nat
  offset : Int

/-- The numbers of a whole text. -/
def reading : Part Reading := do
  let year ← year
  separator '-'
  let month ← ranged 1 12
  separator '-'
  let day ← ranged 1 31
  divider
  let hour ← ranged 0 23
  separator ':'
  let minute ← ranged 0 59
  separator ':'
  let second ← ranged 0 60
  let nanos ← fraction
  let offset ← offset
  skipBlanks
  if !(← get).isEmpty then throw .trailing
  return ⟨⟨year, month, day⟩, hour, minute, second, nanos, offset⟩

/-- The instant that the numbers of a reading add up to. -/
def Reading.total (r : Reading) : Instant :=
  let leap := r.second = 60
  let ofDay : Int := r.hour * 3600 + r.minute * 60 + if leap then 59 else r.second
  let seconds := r.date.number * Instant.secondsPerDay + ofDay - r.offset
  ⟨seconds, r.nanos + if leap then Instant.nanosPerSecond else 0⟩

/-- The instant of a reading, if there is one. -/
def Reading.instant (r : Reading) : Except Fault Instant :=
  if r.date.year < leastYear ∨ greatestYear < r.date.year ∨ !r.date.isValid then
    .error .outOfRange
  else if r.offset.natAbs ≥ 86400 then .error .outOfRange
  else if r.total.date.year < leastYear ∨ greatestYear < r.total.date.year then
    .error .impossible
  else .ok r.total

/-- The instant that a text gives. -/
def read : Part Instant := do
  (← reading).instant

def parse (s : String) : Except Fault Instant :=
  read.run' s.toList

end Timestamp
end FlagStack
