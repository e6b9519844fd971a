import FlagStack.Calendar.Timestamp
import FlagStack.Proofs.CalendarDates
import FlagStack.Proofs.Digits
import FlagStack.Proofs.Outcomes
import Mathlib.Data.List.TakeWhile
import Mathlib.Tactic.NormNum

/-!
# Timestamps read back

An instant that was read from a text, however it was spelled there, is written as a
text that is read as this instant.

Two things hold of such an instant that do not hold of all: its year is one of those
that are supported, and it is in a leap second only at the end of a minute, because
offsets are whole minutes.

**Results.**
* `readable_of_parse`: what holds of an instant that was read.
* `reading_stamp`: the stamp is read number by number.
* `parse_stamp`: the round trip.
* `eq_of_stamp_eq`: stamps tell such instants apart.
-/

namespace FlagStack

/-- The instant has a year that is supported, and is in a leap second only at the end
of a minute. -/
structure Instant.Readable (t : Instant) : Prop where
  least : Timestamp.leastYear ≤ t.date.year
  greatest : t.date.year ≤ Timestamp.greatestYear
  nanos : t.nanos < 2 * Instant.nanosPerSecond
  leap : Instant.nanosPerSecond ≤ t.nanos → t.seconds % 60 = 59

namespace Timestamp

section Digits

variable {digits rest : List Char}

theorem foldl_eq_ofDigitChars
    (digits : List Char) :
    digits.foldl (fun n c => n * 10 + (c.toNat - '0'.toNat)) 0 = Nat.ofDigitChars 10 digits 0 := by
  simp only [Nat.ofDigitChars, Nat.mul_comm 10]

theorem leadingDigits_append
    {most : Option Nat} (hdigits : ∀ c ∈ digits, c.isDigit) (hmost : ∀ k ∈ most, digits.length ≤ k)
    (hend : most = some digits.length ∨ ∀ c ∈ rest.head?, c.isDigit = false) :
    leadingDigits most (digits ++ rest) = digits := by
  rcases hend with rfl | hrest
  · rw [leadingDigits, List.takeWhile_append_of_pos hdigits]
    exact List.take_left
  · rw [leadingDigits.eq_def, takeWhile_isDigit_append hdigits hrest]
    cases most with
    | none => rfl
    | some k => exact List.take_of_length_le (hmost k rfl)

theorem leadingDigits_prefix
    (most : Option Nat) (s : List Char) :
    leadingDigits most s <+: s.takeWhile Char.isDigit := by
  cases most with
  | none => exact List.prefix_refl _
  | some k => exact List.take_prefix _ _

/-- Digits are read up to a number of them or to a character that is none. -/
theorem number_append
    {most : Option Nat} (hne : digits ≠ []) (hdigits : ∀ c ∈ digits, c.isDigit)
    (hmost : ∀ k ∈ most, digits.length ≤ k)
    (hend : most = some digits.length ∨ ∀ c ∈ rest.head?, c.isDigit = false)
    (hsmall : Nat.ofDigitChars 10 digits 0 < 2 ^ 63) :
    number most (digits ++ rest) = .ok (Nat.ofDigitChars 10 digits 0, rest) := by
  have hleading := leadingDigits_append hdigits hmost hend
  obtain ⟨c, tail, rfl⟩ := List.exists_cons_of_ne_nil hne
  rw [List.cons_append] at hleading ⊢
  simp only [number, hdigits c List.mem_cons_self, if_true, hleading, foldl_eq_ofDigitChars,
    twoPow_eq]
  rw [if_pos hsmall, ← List.cons_append, List.drop_left]

theorem exists_digits_of_number
    {most : Option Nat} {s : List Char} {n : Nat} (h : number most s = .ok (n, rest)) :
    ∃ digits, s = digits ++ rest ∧ (∀ c ∈ digits, c.isDigit) ∧
      (∀ k ∈ most, digits.length ≤ k) ∧ n = Nat.ofDigitChars 10 digits 0 := by
  cases s with
  | nil => cases h
  | cons c s =>
      have hfront := leadingDigits_prefix most (c :: s)
      simp only [number, foldl_eq_ofDigitChars] at h
      split at h
      · split at h
        · cases h
          refine ⟨leadingDigits most (c :: s), ?_, ?_, ?_, rfl⟩
          · exact (List.prefix_iff_eq_append.1 (hfront.trans (List.takeWhile_prefix _))).symm
          · exact fun d hd => List.mem_takeWhile_imp (hfront.subset hd)
          · intro k hk
            rw [Option.mem_def.1 hk]
            exact List.length_take_le _ _
        · cases h
      · cases h

end Digits

section Padding

variable {width n : Nat}

theorem isDigit_of_mem_padded
    {c : Char} (h : c ∈ Instant.padded width n) :
    c.isDigit := by
  rcases List.mem_append.1 h with h | h
  · rw [List.eq_of_mem_replicate h]
    rfl
  · exact Nat.isDigit_of_mem_toDigits (by omega) (by omega) h

theorem padded_ne_nil
    (width n : Nat) :
    Instant.padded width n ≠ [] := by
  simp [Instant.padded, Nat.toDigits_ne_nil]

theorem exists_head_padded
    (width n : Nat) :
    ∃ c s, Instant.padded width n = c :: s ∧ c.isDigit := by
  obtain ⟨c, s, hs⟩ := List.exists_cons_of_ne_nil (padded_ne_nil width n)
  exact ⟨c, s, hs, isDigit_of_mem_padded (hs ▸ List.mem_cons_self)⟩

theorem length_padded
    (hwidth : 0 < width) (h : n < 10 ^ width) :
    (Instant.padded width n).length = width := by
  have hle := (Nat.length_toDigits_le_iff (by omega) hwidth).2 h
  rw [Instant.padded, List.length_append, List.length_replicate]
  omega

@[simp] theorem ofDigitChars_padded
    (width n : Nat) :
    Nat.ofDigitChars 10 (Instant.padded width n) 0 = n := by
  rw [Instant.padded, Nat.ofDigitChars_append, Nat.ofDigitChars_replicate_zero, Nat.mul_zero,
    Nat.ofDigitChars_ten_toDigits]

/-- A padded number is read back if it has as many digits as a number may have, or if
no digit follows. -/
theorem number_padded
    {most : Option Nat} {rest : List Char} (hsmall : n < 2 ^ 63)
    (hmost : ∀ k ∈ most, (Instant.padded width n).length ≤ k)
    (hend : most = some (Instant.padded width n).length ∨ ∀ c ∈ rest.head?, c.isDigit = false) :
    number most (Instant.padded width n ++ rest) = .ok (n, rest) := by
  have hvalue := ofDigitChars_padded width n
  have hread := number_append (padded_ne_nil width n) (fun c => isDigit_of_mem_padded) hmost hend
    (hvalue.trans_lt hsmall)
  rwa [hvalue] at hread

/-- A number is read back from as many digits as it may have. -/
theorem number_padded_of_lt
    (hwidth : 0 < width) (h : n < 10 ^ width) (hsmall : n < 2 ^ 63) (rest : List Char) :
    number (some width) (Instant.padded width n ++ rest) = .ok (n, rest) := by
  have hlength := length_padded hwidth h
  exact number_padded hsmall (fun k hk => (by cases hk; exact hlength.le))
    (.inl (congrArg some hlength.symm))

end Padding

section Parts

theorem isBlank_of_isDigit
    {c : Char} (h : c.isDigit) :
    Text.isBlank c = false := by
  have hdigit := bounds_of_isDigit h
  simp only [Text.isBlank, Bool.or_eq_false_iff, Bool.and_eq_false_iff, decide_eq_false_iff_not,
    beq_eq_false_iff_ne]
  omega

theorem skipBlanks_of_head
    {s : List Char} (h : ∀ c ∈ s.head?, Text.isBlank c = false) :
    skipBlanks s = .ok ((), s) := by
  cases s with
  | nil => rfl
  | cons c s => simp [skipBlanks, h c rfl]

theorem skipBlanks_padded
    (width n : Nat) (rest : List Char) :
    skipBlanks (Instant.padded width n ++ rest) = .ok ((), Instant.padded width n ++ rest) := by
  obtain ⟨c, s, hs, hc⟩ := exists_head_padded width n
  rw [hs]
  exact skipBlanks_of_head fun d hd => (by cases hd; exact isBlank_of_isDigit hc)

theorem ranged_padded
    {least most n : Nat} (hleast : least ≤ n) (hmost : n ≤ most) (hsmall : most < 100)
    (rest : List Char) :
    ranged least most (Instant.padded 2 n ++ rest) = .ok (n, rest) := by
  rw [ranged, bind_of_ok (skipBlanks_padded 2 n rest),
    bind_of_ok (number_padded_of_lt (by omega) (by omega) (by omega) rest), if_pos ⟨hleast, hmost⟩]
  rfl

theorem separator_cons
    {c : Char} (h : Text.isBlank c = false) (rest : List Char) :
    separator c (c :: rest) = .ok ((), rest) := by
  have hskip : skipBlanks (c :: rest) = .ok ((), c :: rest) :=
    skipBlanks_of_head fun d hd => (by cases hd; exact h)
  rw [separator, bind_of_ok hskip]
  exact if_pos rfl

theorem signedYear_of_isDigit
    {c : Char} (h : c.isDigit) {n : Nat} {s rest : List Char}
    (hread : number (some 4) (c :: s) = .ok (n, rest)) :
    signedYear (c :: s) = .ok ((n : Int), rest) := by
  rw [signedYear]
  · exact bind_of_ok hread
  · intro rest heq
    cases heq
    cases h
  · intro rest heq
    cases heq
    cases h

/-- Years of four digits are read without a sign, all others with one. -/
theorem year_writeYear
    {y : Int} (hleast : -2 ^ 31 ≤ y) (hgreatest : y < 2 ^ 31) (rest : List Char) :
    year (Instant.writeYear y ++ '-' :: rest) = .ok (y, '-' :: rest) := by
  have hsigned : number none (Instant.padded 4 y.natAbs ++ '-' :: rest) =
      .ok (y.natAbs, '-' :: rest) :=
    number_padded (by omega) nofun (.inr fun c hc => (by cases hc; rfl))
  have hread : skipBlanks (Instant.writeYear y ++ '-' :: rest) =
        .ok ((), Instant.writeYear y ++ '-' :: rest) ∧
      signedYear (Instant.writeYear y ++ '-' :: rest) = .ok (y, '-' :: rest) := by
    rw [Instant.writeYear]
    split
    · next hfour =>
        have hfits : y.toNat < 10 ^ 4 := by omega
        have hnumber := number_padded_of_lt (by omega) hfits (by omega) ('-' :: rest)
        have hskip := skipBlanks_padded 4 y.toNat ('-' :: rest)
        obtain ⟨c, s, hs, hc⟩ := exists_head_padded 4 y.toNat
        rw [hs] at hnumber hskip ⊢
        refine ⟨hskip, (signedYear_of_isDigit hc hnumber).trans ?_⟩
        rw [Int.toNat_of_nonneg hfour.1]
    · next houtside =>
        split
        · next hnegative =>
            refine ⟨rfl, (bind_of_ok hsigned).trans ?_⟩
            rw [Int.ofNat_natAbs_of_nonpos (by omega), Int.neg_neg]
            rfl
        · next hpositive =>
            refine ⟨rfl, (bind_of_ok hsigned).trans ?_⟩
            rw [Int.natAbs_of_nonneg (by omega)]
            rfl
  rw [year, bind_of_ok hread.1, bind_of_ok hread.2, twoPow_eq, if_pos ⟨hleast, hgreatest⟩]
  rfl

/-- Digits behind a point are nanoseconds once zeros have been put behind them. -/
theorem fraction_point
    (width : Nat) (hwidth : 0 < width) (hnine : width ≤ 9) {n : Nat} (h : n < 10 ^ width)
    (rest : List Char) :
    fraction ('.' :: (Instant.padded width n ++ 'Z' :: rest)) =
      .ok (n * 10 ^ (9 - width), 'Z' :: rest) := by
  have hlength := length_padded hwidth h
  have hsmall : n < 2 ^ 63 := by
    have hnano := Nat.pow_le_pow_right (n := 10) (by omega) hnine
    omega
  -- Fewer than nine digits end where the zone begins.
  have hread : number (some 9) (Instant.padded width n ++ 'Z' :: rest) = .ok (n, 'Z' :: rest) :=
    number_padded hsmall (fun k hk => (by cases hk; exact hlength.trans_le hnine))
      (.inr fun c hc => (by cases hc; rfl))
  have hcount : (Instant.padded width n ++ 'Z' :: rest).length - ('Z' :: rest).length = width := by
    rw [List.length_append, hlength, Nat.add_sub_cancel]
  simp only [fraction, hread, ok_bind, hcount, tenPow_eq]
  rfl

theorem fraction_writeFraction
    {nanos : Nat} (h : nanos < Instant.nanosPerSecond) (rest : List Char) :
    fraction (Instant.writeFraction nanos ++ 'Z' :: rest) = .ok (nanos, 'Z' :: rest) := by
  rw [Instant.nanosPerSecond] at h
  rw [Instant.writeFraction]
  split
  · next hzero =>
      subst hzero
      rfl
  · split
    · next hmilli =>
        refine (fraction_point 3 (by omega) (by omega) (by omega) rest).trans ?_
        have hunit : 10 ^ (9 - 3) = 1000000 := by norm_num
        rw [hunit, Nat.div_mul_cancel (Nat.dvd_of_mod_eq_zero hmilli)]
    · split
      · next hmicro =>
          refine (fraction_point 6 (by omega) (by omega) (by omega) rest).trans ?_
          have hunit : 10 ^ (9 - 6) = 1000 := by norm_num
          rw [hunit, Nat.div_mul_cancel (Nat.dvd_of_mod_eq_zero hmicro)]
      · refine (fraction_point 9 (by omega) (by omega) (by omega) rest).trans ?_
        rw [Nat.sub_self, Nat.pow_zero, Nat.mul_one]

end Parts

section Stamps

/-- What the stamp of an instant says. -/
def readingOf (t : Instant) : Reading :=
  ⟨t.date, t.secondOfDay / 3600, t.secondOfDay / 60 % 60, t.second,
    t.nanos % Instant.nanosPerSecond, 0⟩

theorem secondOfDay_lt
    (t : Instant) :
    t.secondOfDay < 86400 := by
  simp only [Instant.secondOfDay, Instant.secondsPerDay]
  omega

theorem second_le
    (t : Instant) :
    t.second ≤ 60 := by
  rw [Instant.second]
  split <;> omega

theorem month_day_bounds
    (t : Instant) :
    (1 ≤ t.date.month ∧ t.date.month ≤ 12) ∧ 1 ≤ t.date.day ∧ t.date.day ≤ 31 := by
  have hvalid := Date.isValid_ofNumber (t.seconds / Instant.secondsPerDay)
  simp only [Date.isValid, Bool.and_eq_true, decide_eq_true_eq] at hvalid
  obtain ⟨⟨hmonth, hday⟩, hlast⟩ := hvalid
  refine ⟨hmonth, hday, hlast.trans ?_⟩
  rw [Date.daysInMonth]
  split_ifs <;> omega

/-- The stamp is read number by number. -/
theorem reading_stamp
    {t : Instant} (h : t.Readable) :
    reading t.stamp.toList = .ok (readingOf t, []) := by
  have htext : t.stamp.toList =
      Instant.writeYear t.date.year ++ '-' :: (Instant.padded 2 t.date.month ++
        '-' :: (Instant.padded 2 t.date.day ++ 'T' ::
          (Instant.padded 2 (t.secondOfDay / 3600) ++ ':' ::
            (Instant.padded 2 (t.secondOfDay / 60 % 60) ++ ':' ::
              (Instant.padded 2 t.second ++
                (Instant.writeFraction (t.nanos % Instant.nanosPerSecond) ++ ['Z'])))))) := by
    simp [Instant.stamp, Instant.writeDate, Instant.writeTime]
  obtain ⟨hmonth, hday⟩ := month_day_bounds t
  have hseconds := secondOfDay_lt t
  have hleast := h.least
  have hgreatest := h.greatest
  rw [leastYear] at hleast
  rw [greatestYear] at hgreatest
  have hnanos : t.nanos % Instant.nanosPerSecond < Instant.nanosPerSecond :=
    Nat.mod_lt _ (by decide)
  have hend : skipBlanks [] = .ok ((), []) := rfl
  have hoffset : offset ['Z'] = .ok (0, []) := rfl
  have hdivider : ∀ rest, divider ('T' :: rest) = .ok ((), rest) := fun rest => rfl
  rw [htext, reading, bind_of_ok (year_writeYear (by omega) (by omega) _),
    bind_of_ok (separator_cons rfl _), bind_of_ok (ranged_padded hmonth.1 hmonth.2 (by omega) _),
    bind_of_ok (separator_cons rfl _), bind_of_ok (ranged_padded hday.1 hday.2 (by omega) _),
    bind_of_ok (hdivider _), bind_of_ok (ranged_padded (Nat.zero_le _) (by omega) (by omega) _),
    bind_of_ok (separator_cons rfl _),
    bind_of_ok (ranged_padded (Nat.zero_le _) (by omega) (by omega) _),
    bind_of_ok (separator_cons rfl _),
    bind_of_ok (ranged_padded (Nat.zero_le _) (second_le t) (by omega) _),
    bind_of_ok (fraction_writeFraction hnanos []), bind_of_ok hoffset, bind_of_ok hend]
  rfl

end Stamps

section Totals

variable {r : Reading} {t : Instant}

theorem Reading.instant_eq_ok_iff :
    r.instant = .ok t ↔
      (leastYear ≤ r.date.year ∧ r.date.year ≤ greatestYear ∧ r.date.isValid) ∧
        r.offset.natAbs < 86400 ∧ r.total = t ∧
          leastYear ≤ t.date.year ∧ t.date.year ≤ greatestYear := by
  rw [Reading.instant]
  constructor
  · intro h
    split_ifs at h with hdate hoffset hyear
    cases h
    simp only [not_or, Int.not_lt, Bool.not_eq_true, Bool.not_eq_false'] at hdate hyear
    exact ⟨hdate, Nat.lt_of_not_le hoffset, rfl, hyear⟩
  · rintro ⟨⟨hleast, hgreatest, hvalid⟩, hoffset, rfl, hyear⟩
    rw [if_neg (by simp [hvalid, hleast, hgreatest]), if_neg (by omega), if_neg (by omega)]

/-- A leap second is written as second `60`, all other seconds as less. -/
theorem second_eq_sixty_iff
    (h : t.Readable) :
    t.second = 60 ↔ Instant.nanosPerSecond ≤ t.nanos := by
  have hleap := h.leap
  simp only [Instant.second, Instant.secondOfDay, Instant.secondsPerDay]
  split <;> omega

/-- The numbers of a stamp add up to the instant. -/
theorem total_readingOf
    (h : t.Readable) :
    (readingOf t).total = t := by
  have hnumber := Date.number_ofNumber (t.seconds / Instant.secondsPerDay)
  have hseconds : t.seconds = t.seconds / Instant.secondsPerDay * Instant.secondsPerDay +
      t.secondOfDay := by
    simp only [Instant.secondOfDay, Instant.secondsPerDay]
    omega
  have hsixty := second_eq_sixty_iff h
  have hparts : t.secondOfDay / 3600 * 3600 + t.secondOfDay / 60 % 60 * 60 +
      (if t.second = 60 then 59 else t.second) = t.secondOfDay := by
    rw [Instant.second] at hsixty ⊢
    split_ifs at hsixty ⊢ <;> omega
  have hwhole : t.nanos % Instant.nanosPerSecond +
      (if t.second = 60 then Instant.nanosPerSecond else 0) = t.nanos := by
    have hnanos := h.nanos
    by_cases hleap : Instant.nanosPerSecond ≤ t.nanos
    · rw [if_pos (hsixty.2 hleap), Nat.mod_eq_sub_mod hleap, Nat.mod_eq_of_lt (by omega),
        Nat.sub_add_cancel hleap]
    · rw [if_neg (mt hsixty.1 hleap), Nat.mod_eq_of_lt (by omega), Nat.add_zero]
  have hofDay : ((t.secondOfDay / 3600 : Nat) : Int) * 3600 +
      ((t.secondOfDay / 60 % 60 : Nat) : Int) * 60 +
        ((if t.second = 60 then 59 else t.second : Nat) : Int) = t.secondOfDay := by
    generalize (if t.second = 60 then 59 else t.second) = c at hparts
    omega
  calc (readingOf t).total
      = ⟨t.date.number * Instant.secondsPerDay + (((t.secondOfDay / 3600 : Nat) : Int) * 3600 +
          ((t.secondOfDay / 60 % 60 : Nat) : Int) * 60 +
            ((if t.second = 60 then 59 else t.second : Nat) : Int)) - 0,
          t.nanos % Instant.nanosPerSecond +
            if t.second = 60 then Instant.nanosPerSecond else 0⟩ := rfl
    _ = t := by rw [hofDay, hwhole, Instant.date, hnumber, Int.sub_zero, ← hseconds]

/-- Different instants have different stamps. -/
theorem eq_of_stamp_eq
    {t' : Instant} (h : t.Readable) (h' : t'.Readable) (hstamp : t.stamp = t'.stamp) :
    t = t' := by
  have hreading := reading_stamp h
  rw [hstamp, reading_stamp h'] at hreading
  have hsame : readingOf t' = readingOf t := congrArg Prod.fst (Except.ok.inj hreading)
  calc t = (readingOf t).total := (total_readingOf h).symm
    _ = (readingOf t').total := by rw [hsame]
    _ = t' := total_readingOf h'

/-- An instant in a leap second is at the end of a minute if the offset is in minutes. -/
theorem Reading.readable_of_instant
    (hnanos : r.nanos < Instant.nanosPerSecond) (hoffset : r.offset % 60 = 0)
    (h : r.instant = .ok t) :
    t.Readable := by
  obtain ⟨-, -, rfl, hleast, hgreatest⟩ := Reading.instant_eq_ok_iff.1 h
  -- Days, hours and the offset are whole minutes, so only the second is left of the sum.
  refine ⟨hleast, hgreatest, ?_, ?_⟩
  · simp only [Reading.total]
    split <;> omega
  · simp only [Reading.total, Instant.secondsPerDay]
    split <;> omega

end Totals

section Readability

theorem fraction_lt
    {s rest : List Char} {n : Nat} (h : fraction s = .ok (n, rest)) :
    n < Instant.nanosPerSecond := by
  rw [fraction.eq_def] at h
  split at h
  · next tail =>
      obtain ⟨⟨value, after⟩, hnumber, hvalue⟩ := bind_eq_ok_iff.1 h
      obtain ⟨digits, rfl, hdigits, hlength, rfl⟩ := exists_digits_of_number hnumber
      cases hvalue
      have hnine := hlength 9 rfl
      have hlt := ofDigitChars_lt hdigits 0
      have hcount : (digits ++ after).length - after.length = digits.length := by
        rw [List.length_append, Nat.add_sub_cancel]
      rw [Nat.zero_add, Nat.one_mul] at hlt
      rw [hcount, tenPow_eq]
      calc Nat.ofDigitChars 10 digits 0 * 10 ^ (9 - digits.length)
          < 10 ^ digits.length * 10 ^ (9 - digits.length) :=
            Nat.mul_lt_mul_of_pos_right hlt (Nat.pow_pos (by omega))
        _ = Instant.nanosPerSecond := by rw [← Nat.pow_add, Nat.add_sub_cancel' hnine]; rfl
  · cases h
    decide

/-- Offsets are whole minutes. -/
theorem numeric_mod
    {s rest : List Char} {n : Int} (h : offset.numeric s = .ok (n, rest)) :
    n % 60 = 0 := by
  rw [offset.numeric] at h
  obtain ⟨west, s, -, h⟩ := exists_of_bind_eq_ok h
  obtain ⟨hours, s, -, h⟩ := exists_of_bind_eq_ok h
  obtain ⟨-, s, -, h⟩ := exists_of_bind_eq_ok h
  obtain ⟨minutes, s, -, h⟩ := exists_of_bind_eq_ok h
  by_cases hminutes : minutes < 60
  · have hn : (if west then -(hours * 3600 + minutes * 60)
        else hours * 3600 + minutes * 60 : Int) = n := by
      rw [if_pos hminutes] at h
      cases h
      rfl
    split at hn <;> omega
  · rw [if_neg hminutes] at h
    cases h

theorem offset_mod
    {s rest : List Char} {n : Int} (h : offset s = .ok (n, rest)) :
    n % 60 = 0 := by
  rw [offset] at h
  obtain ⟨-, s, -, h⟩ := exists_of_bind_eq_ok h
  split at h
  · cases h
    rfl
  · cases h
    rfl
  · split at h
    · cases h
      rfl
    · exact numeric_mod h
  · exact numeric_mod h

theorem reading_bounds
    {s rest : List Char} {r : Reading} (h : reading s = .ok (r, rest)) :
    r.nanos < Instant.nanosPerSecond ∧ r.offset % 60 = 0 := by
  rw [reading] at h
  obtain ⟨y, s, -, h⟩ := exists_of_bind_eq_ok h
  obtain ⟨-, s, -, h⟩ := exists_of_bind_eq_ok h
  obtain ⟨month, s, -, h⟩ := exists_of_bind_eq_ok h
  obtain ⟨-, s, -, h⟩ := exists_of_bind_eq_ok h
  obtain ⟨day, s, -, h⟩ := exists_of_bind_eq_ok h
  obtain ⟨-, s, -, h⟩ := exists_of_bind_eq_ok h
  obtain ⟨hour, s, -, h⟩ := exists_of_bind_eq_ok h
  obtain ⟨-, s, -, h⟩ := exists_of_bind_eq_ok h
  obtain ⟨minute, s, -, h⟩ := exists_of_bind_eq_ok h
  obtain ⟨-, s, -, h⟩ := exists_of_bind_eq_ok h
  obtain ⟨second, s, -, h⟩ := exists_of_bind_eq_ok h
  obtain ⟨nanos, s, hnanos, h⟩ := exists_of_bind_eq_ok h
  obtain ⟨offset, s, hoffset, h⟩ := exists_of_bind_eq_ok h
  obtain ⟨-, s, -, h⟩ := exists_of_bind_eq_ok h
  obtain ⟨left, s, -, h⟩ := exists_of_bind_eq_ok h
  split at h
  · cases h
  · cases h
    exact ⟨fraction_lt hnanos, offset_mod hoffset⟩

theorem parse_eq_ok_iff
    {s : String} {t : Instant} :
    parse s = .ok t ↔ ∃ r rest, reading s.toList = .ok (r, rest) ∧ r.instant = .ok t := by
  have hparse : parse s = reading s.toList >>= fun x => x.1.instant := by
    rw [parse, StateT.run', read]
    change (reading s.toList >>= fun x => (x.1.instant >>= fun t => .ok (t, x.2))) >>=
      (fun y => .ok y.1) = _
    cases reading s.toList with
    | error e => rfl
    | ok x => cases hinstant : x.1.instant <;> simp [hinstant]
  rw [hparse, bind_eq_ok_iff]
  exact ⟨fun ⟨⟨r, rest⟩, h⟩ => ⟨r, rest, h⟩, fun ⟨r, rest, h⟩ => ⟨(r, rest), h⟩⟩

/-- What holds of an instant that was read. -/
theorem readable_of_parse
    {s : String} {t : Instant} (h : parse s = .ok t) :
    t.Readable := by
  obtain ⟨r, rest, hreading, hinstant⟩ := parse_eq_ok_iff.1 h
  obtain ⟨hnanos, hoffset⟩ := reading_bounds hreading
  exact Reading.readable_of_instant hnanos hoffset hinstant

end Readability

/-- An instant that was read is read back from its stamp. -/
theorem parse_stamp
    {s : String} {t : Instant} (h : parse s = .ok t) :
    parse t.stamp = .ok t := by
  have hreadable := readable_of_parse h
  have hyear := And.intro hreadable.least hreadable.greatest
  have hvalid := Date.isValid_ofNumber (t.seconds / Instant.secondsPerDay)
  have hoffset : (0 : Int).natAbs < 86400 := by decide
  refine parse_eq_ok_iff.2 ⟨readingOf t, [], reading_stamp hreadable, ?_⟩
  exact Reading.instant_eq_ok_iff.2
    ⟨⟨hyear.1, hyear.2, hvalid⟩, hoffset, total_readingOf hreadable, hyear⟩

end Timestamp
end FlagStack
