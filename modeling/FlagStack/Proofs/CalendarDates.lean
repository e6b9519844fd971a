import FlagStack.Calendar.Date
import Mathlib.Tactic.ByContra

/-!
# Dates and their numbers

The date with a given number is a date of the calendar and has this number.

A day is found in its era of four hundred years by an estimate of the year, which is a
quotient by the days of a common year once leap days have been taken out.  The estimate
increases with the day, so it is right on all days of a year if it is right on the first
and on the last; these are eight hundred days.

**Results.**
* `yearOfEra_eq`: the estimate of the year is right.
* `number_ofNumber`, `isValid_ofNumber`: dates with a given number.
-/

namespace FlagStack
namespace Date

section Years

/-- Days of an era before a year of it. -/
def yearStart (year : Int) : Int :=
  365 * year + year / 4 - year / 100 + year / 400

/-- A day of an era without the leap days before it. -/
def withoutLeapDays (day : Int) : Int :=
  day - day / 1460 + day / 36524 - day / 146096

theorem withoutLeapDays_mono
    {a b : Int} (h : a ≤ b) :
    withoutLeapDays a ≤ withoutLeapDays b := by
  have hfourths : ∀ d : Int, d / 146096 = d / 36524 / 4 := by omega
  have hcenturies : a / 36524 ≤ b / 36524 := by omega
  have hdays : a - a / 1460 ≤ b - b / 1460 := by omega
  rw [withoutLeapDays, withoutLeapDays, hfourths, hfourths]
  generalize a / 36524 = c at hcenturies ⊢
  generalize b / 36524 = d at hcenturies ⊢
  have hfourth : c - c / 4 ≤ d - d / 4 := by omega
  omega

/-- On the first and the last day of a year the estimate is right. -/
theorem withoutLeapDays_bounds :
    ∀ year : Nat, year < 400 →
      365 * (year : Int) ≤ withoutLeapDays (yearStart year) ∧
        withoutLeapDays (yearStart (year + 1) - 1) < 365 * (year + 1) := by
  decide +kernel

/-- Every day of an era lies in one of its years. -/
theorem exists_year
    {day : Int} (h : 0 ≤ day) {years : Nat} (hlt : day < yearStart years) :
    ∃ year : Nat, year < years ∧ yearStart year ≤ day ∧ day < yearStart (year + 1) := by
  induction years with
  | zero => exact absurd hlt (Int.not_lt.2 h)
  | succ years ih =>
      by_cases hbefore : day < yearStart years
      · obtain ⟨year, hyear, hday⟩ := ih hbefore
        exact ⟨year, by omega, hday⟩
      · exact ⟨years, by omega, Int.not_lt.1 hbefore, hlt⟩

/-- The estimate of the year is right. -/
theorem yearOfEra_eq
    {year : Nat} (hyear : year < 400) {day : Int} (hstart : yearStart year ≤ day)
    (hend : day < yearStart (year + 1)) :
    withoutLeapDays day / 365 = year := by
  obtain ⟨hfirst, hlast⟩ := withoutLeapDays_bounds year hyear
  have hlow := withoutLeapDays_mono hstart
  have hhigh := withoutLeapDays_mono (Int.le_sub_one_of_lt hend)
  omega

/-- A year has 365 days, and one more if it is a leap year.  (It begins in March, so
this is told by the number of the next year.) -/
theorem yearStart_succ
    (year era : Int) :
    yearStart (year + 1) =
      yearStart year + if isLeapYear (year + era * 400 + 1) then 366 else 365 := by
  simp only [yearStart, isLeapYear, Bool.and_eq_true, Bool.or_eq_true, decide_eq_true_eq, ne_eq]
  split <;> omega

end Years

section Months

/-- What the formulas for month and day give on each day of a year. -/
theorem month_bounds :
    ∀ day : Nat, day < 366 →
      let count := (5 * day + 2) / 153
      let first := (153 * count + 2) / 5
      let month := if count < 10 then count + 3 else count - 9
      first ≤ day ∧ 1 ≤ month ∧ month ≤ 12 ∧ (month + 9) % 12 = count ∧
        (month ≤ 2 ↔ ¬ count < 10) ∧
        day - first + 1 ≤
          if month = 2 then (if day = 365 then 29 else 28)
          else if month = 4 ∨ month = 6 ∨ month = 9 ∨ month = 11 then 30 else 31 := by
  decide +kernel

end Months

section Numbers

/-- The parts that the date with a given number is made of. -/
theorem exists_parts
    (n : Int) :
    ∃ (era : Int) (year day : Nat), year < 400 ∧ day < 366 ∧
      (day = 365 → isLeapYear (year + era * 400 + 1)) ∧
      n + daysBeforeEpoch = era * daysPerEra + (yearStart year + day) ∧
      ofNumber n =
        let count := (5 * day + 2) / 153
        let dayOfMonth := day - (153 * count + 2) / 5 + 1
        if count < 10 then ⟨year + era * 400, count + 3, dayOfMonth⟩
        else ⟨year + era * 400 + 1, count - 9, dayOfMonth⟩ := by
  have hpos : (0 : Int) < daysPerEra := by decide
  have hlow := Int.emod_nonneg (n + daysBeforeEpoch) (Int.ne_of_gt hpos)
  have hhigh := Int.emod_lt_of_pos (n + daysBeforeEpoch) hpos
  have hera : daysPerEra = yearStart (400 : Nat) := by decide
  obtain ⟨year, hyear, hstart, hend⟩ := exists_year hlow (hera ▸ hhigh)
  have hestimate := yearOfEra_eq hyear hstart hend
  obtain ⟨day, hday⟩ := Int.eq_ofNat_of_zero_le (Int.sub_nonneg.2 hstart)
  have hsucc := yearStart_succ year ((n + daysBeforeEpoch) / daysPerEra)
  refine ⟨(n + daysBeforeEpoch) / daysPerEra, year, day, hyear, ?_, ?_, ?_, ?_⟩
  · split at hsucc <;> omega
  · intro hlast
    by_contra hcommon
    rw [if_neg hcommon] at hsucc
    omega
  · have hdivision := Int.mul_ediv_add_emod (n + daysBeforeEpoch) daysPerEra
    rw [Int.mul_comm] at hdivision
    omega
  · have hdayOf : ((n + daysBeforeEpoch) % daysPerEra -
        (365 * (year : Int) + (year : Int) / 4 - (year : Int) / 100)).toNat = day := by
      rw [yearStart] at hday
      omega
    rw [withoutLeapDays] at hestimate
    simp only [ofNumber, hestimate, hdayOf]

/-- The date with a given number has this number. -/
theorem number_ofNumber
    (n : Int) :
    (ofNumber n).number = n := by
  obtain ⟨era, year, day, hyear, hday, -, hn, hparts⟩ := exists_parts n
  have hmonth := month_bounds day hday
  rw [hparts]
  simp only at hmonth ⊢
  obtain ⟨hfirst, -, -, hcount, hlate, -⟩ := hmonth
  simp only [yearStart, daysBeforeEpoch, daysPerEra] at hn
  generalize (5 * day + 2) / 153 = count at hfirst hcount hlate ⊢
  split
  · next hsmall =>
      rw [if_pos hsmall] at hcount
      simp only [number, hcount, daysBeforeEpoch, daysPerEra]
      rw [if_neg (by omega)]
      omega
  · next hlarge =>
      rw [if_neg hlarge] at hcount hlate
      simp only [number, hcount, daysBeforeEpoch, daysPerEra]
      rw [if_pos (hlate.2 hlarge)]
      omega

theorem isValid_ofNumber
    (n : Int) :
    (ofNumber n).isValid := by
  obtain ⟨era, year, day, -, hday, hleap, -, hparts⟩ := exists_parts n
  have hmonth := month_bounds day hday
  rw [hparts]
  simp only at hmonth ⊢
  obtain ⟨-, hleast, hgreatest, -, -, hlast⟩ := hmonth
  generalize (5 * day + 2) / 153 = count at hleast hgreatest hlast ⊢
  simp only [isValid, Bool.and_eq_true, decide_eq_true_eq]
  split
  · next hsmall =>
      rw [if_pos hsmall] at hleast hgreatest hlast
      have hlater : ¬ count + 3 = 2 := by omega
      rw [if_neg hlater] at hlast
      rw [daysInMonth, if_neg hlater]
      exact ⟨⟨⟨hleast, hgreatest⟩, Nat.le_add_left 1 _⟩, hlast⟩
  · next hlarge =>
      rw [if_neg hlarge] at hleast hgreatest hlast
      refine ⟨⟨⟨hleast, hgreatest⟩, Nat.le_add_left 1 _⟩, Nat.le_trans hlast ?_⟩
      rw [daysInMonth]
      split
      · split
        · next hend =>
            exact Nat.le_of_eq (if_pos (hleap hend)).symm
        · split <;> omega
      · exact Nat.le_refl _

end Numbers

end Date
end FlagStack
