import FlagStack.Json.Numeral
import FlagStack.Proofs.Digits
import Mathlib.Tactic.NormNum

/-!
# Numbers that are read are finite

A numeral that is kept has a value in range: an integer of 64 bits, or a floating
point number that is finite.  Products are tested when they are formed.  Quotients
are not, and they need not be, since a number below `2 ^ 64` only gets less.

Magnitudes are bounded by their words.  A word up to `(s + 2) * 2 ^ 52` is a magnitude
below `2 ^ (s + 54)` units, and a quotient below `2 ^ (s + 53)` units has such a word.

**Results.**
* `nearestWord_le`, `units_lt_of_word_le`: from quotients to words, and back.
* `le_units_ofNat`: powers of ten have at least as many units as one.
* `Numeral.InRange.of_value`: the value of a numeral is in range.
-/

namespace FlagStack
namespace Binary64

section Words

theorem word_lt
    (x : Binary64) :
    x.word < 2 ^ 63 :=
  Nat.mod_lt _ (Nat.two_pow_pos 63)

theorem word_ofWord
    {w : Nat} (h : w < 2 ^ 63) (negative : Bool) :
    (ofWord negative w).word = w := by
  have hpow : (2 : Nat) ^ 64 = 2 ^ 63 + 2 ^ 63 := by norm_num
  have hlt : w + (if negative then 2 ^ 63 else 0) < 2 ^ 64 := by
    split <;> omega
  rw [word, ofWord, twoPow_eq, UInt64.toNat_ofNat', Nat.mod_eq_of_lt hlt]
  split
  · rw [Nat.add_mod_right, Nat.mod_eq_of_lt h]
  · rw [Nat.add_zero, Nat.mod_eq_of_lt h]

theorem word_neg
    (x : Binary64) :
    x.neg.word = x.word :=
  word_ofWord x.word_lt _

/-- All words up to that of `2 ^ 1023` units and more are finite. -/
theorem isFinite_of_word_le
    {x : Binary64} {s : Nat} (h : x.word ≤ (s + 2) * 2 ^ 52) (hs : s ≤ 2044) :
    x.isFinite := by
  rw [isFinite, decide_eq_true_eq, infinityWord, twoPow_eq]
  calc x.word ≤ (s + 2) * 2 ^ 52 := h
    _ ≤ 2046 * 2 ^ 52 := Nat.mul_le_mul_right _ (by omega)
    _ < 0x7FF * 2 ^ 52 := by norm_num

end Words

section Rounding

variable {num den s : Nat}

theorem roundToEven_le
    (num den : Nat) :
    roundToEven num den ≤ num / den + 1 := by
  simp only [roundToEven]
  split
  · omega
  · split <;> omega

theorem le_roundToEven
    (num den : Nat) :
    num / den ≤ roundToEven num den := by
  simp only [roundToEven]
  split
  · omega
  · split <;> omega

/-- At the scale of a quotient its significand has fifty-three bits at most. -/
theorem scaled_quotient_lt
    (num den : Nat) :
    num / (den * 2 ^ ((num / den).log2 + 1 - 53)) < 2 ^ 53 := by
  rw [← Nat.div_div_eq_div_mul]
  refine Nat.div_lt_of_lt_mul ?_
  rw [← Nat.pow_add]
  refine Nat.lt_of_lt_of_le Nat.lt_log2_self (Nat.pow_le_pow_right Nat.two_pos ?_)
  omega

theorem nearestWord_le
    (h : num / den < 2 ^ (s + 53)) :
    nearestWord num den ≤ (s + 2) * 2 ^ 52 := by
  have hscale : (num / den).log2 + 1 - 53 ≤ s := by
    by_cases hzero : num / den = 0
    · simp [hzero]
    · have hlog := (Nat.log2_lt hzero).2 h
      omega
  have hround : roundToEven num (den * 2 ^ ((num / den).log2 + 1 - 53)) ≤ 2 ^ 53 :=
    (roundToEven_le _ _).trans (scaled_quotient_lt num den)
  simp only [nearestWord, twoPow_eq]
  calc min infinityWord (((num / den).log2 + 1 - 53) * 2 ^ 52 +
          roundToEven num (den * 2 ^ ((num / den).log2 + 1 - 53)))
      ≤ ((num / den).log2 + 1 - 53) * 2 ^ 52 + 2 ^ 53 :=
        (Nat.min_le_right _ _).trans (Nat.add_le_add_left hround _)
    _ ≤ s * 2 ^ 52 + 2 ^ 53 := Nat.add_le_add_right (Nat.mul_le_mul_right _ hscale) _
    _ = (s + 2) * 2 ^ 52 := by ring

theorem le_nearestWord
    (h : 2 ^ (s + 52) ≤ num / den) (hs : s ≤ 2046) :
    (s + 1) * 2 ^ 52 ≤ nearestWord num den := by
  have hpos : num / den ≠ 0 := by
    have := Nat.two_pow_pos (s + 52)
    omega
  have hlog : s + 52 ≤ (num / den).log2 := (Nat.le_log2 hpos).2 h
  -- The significand has its leading bit in place.
  have hround : 2 ^ 52 ≤ roundToEven num (den * 2 ^ ((num / den).log2 + 1 - 53)) := by
    refine Nat.le_trans ?_ (le_roundToEven _ _)
    rw [← Nat.div_div_eq_div_mul, Nat.le_div_iff_mul_le (Nat.two_pow_pos _), ← Nat.pow_add]
    refine Nat.le_trans (Nat.pow_le_pow_right Nat.two_pos ?_) (Nat.log2_self_le hpos)
    omega
  simp only [nearestWord, twoPow_eq]
  refine Nat.le_min.2 ⟨?_, ?_⟩
  · rw [infinityWord, twoPow_eq]
    exact Nat.mul_le_mul_right _ (by omega)
  · calc (s + 1) * 2 ^ 52 = s * 2 ^ 52 + 2 ^ 52 := by ring
      _ ≤ _ := Nat.add_le_add (Nat.mul_le_mul_right _ (by omega)) hround

theorem word_ofUnits_le
    (h : num / den < 2 ^ (s + 53)) (negative : Bool) :
    (ofUnits negative num den).word ≤ (s + 2) * 2 ^ 52 := by
  have hword : nearestWord num den < 2 ^ 63 := by
    refine Nat.lt_of_le_of_lt (Nat.min_le_left _ _) ?_
    rw [infinityWord, twoPow_eq]
    norm_num
  rw [ofUnits, word_ofWord hword]
  exact nearestWord_le h

theorem le_word_ofUnits
    (h : 2 ^ (s + 52) ≤ num / den) (hs : s ≤ 2046) (negative : Bool) :
    (s + 1) * 2 ^ 52 ≤ (ofUnits negative num den).word := by
  have hword : nearestWord num den < 2 ^ 63 := by
    refine Nat.lt_of_le_of_lt (Nat.min_le_left _ _) ?_
    rw [infinityWord, twoPow_eq]
    norm_num
  rw [ofUnits, word_ofWord hword]
  exact le_nearestWord h hs

end Rounding

section Units

variable {x : Binary64} {s : Nat}

theorem units_lt_of_word_le
    (h : x.word ≤ (s + 2) * 2 ^ 52) :
    x.units < 2 ^ (s + 54) := by
  have hsignificand : x.significand < 2 ^ 53 := by
    rw [significand, twoPow_eq]
    split
    · omega
    · omega
  have hscale : x.scale ≤ s + 1 := by
    rw [scale, twoPow_eq]
    have hdiv := Nat.div_le_div_right (c := 2 ^ 52) h
    rw [Nat.mul_div_cancel _ (Nat.two_pow_pos 52)] at hdiv
    omega
  rw [units, twoPow_eq]
  calc x.significand * 2 ^ x.scale < 2 ^ 53 * 2 ^ x.scale :=
        Nat.mul_lt_mul_of_pos_right hsignificand (Nat.two_pow_pos _)
    _ ≤ 2 ^ 53 * 2 ^ (s + 1) :=
        Nat.mul_le_mul_left _ (Nat.pow_le_pow_right Nat.two_pos hscale)
    _ = 2 ^ (s + 54) := by ring

theorem le_units_of_le_word
    (h : (s + 1) * 2 ^ 52 ≤ x.word) :
    2 ^ (s + 52) ≤ x.units := by
  have hdiv : s + 1 ≤ x.word / 2 ^ 52 := (Nat.le_div_iff_mul_le (Nat.two_pow_pos 52)).2 h
  have hsignificand : 2 ^ 52 ≤ x.significand := by
    rw [significand, twoPow_eq]
    split
    · omega
    · omega
  have hscale : s ≤ x.scale := by
    rw [scale, twoPow_eq]
    omega
  rw [units, twoPow_eq]
  calc 2 ^ (s + 52) = 2 ^ 52 * 2 ^ s := by ring
    _ ≤ x.significand * 2 ^ x.scale :=
        Nat.mul_le_mul hsignificand (Nat.pow_le_pow_right Nat.two_pos hscale)

/-- The exponent of the unit is kept as a variable, so that its power is never
computed. -/
theorem exists_unitsPerOne :
    ∃ e, e = 1074 ∧ unitsPerOne = 2 ^ e :=
  ⟨_, rfl, twoPow_eq _⟩

/-- A number that is read of a natural number is not less than a power of two that
the natural number is not less than. -/
theorem le_units_ofNat
    {n d : Nat} (h : 2 ^ d ≤ n) (hd : d ≤ 1000) :
    2 ^ d * unitsPerOne ≤ (ofNat n).units := by
  obtain ⟨e, he, hunit⟩ := exists_unitsPerOne
  have hexponent : d + e = 1022 + d + 52 := by omega
  have hleast : 2 ^ d * unitsPerOne = 2 ^ (1022 + d + 52) := by
    rw [hunit, ← Nat.pow_add, hexponent]
  have hquotient : 2 ^ (1022 + d + 52) ≤ n * unitsPerOne / 1 := by
    rw [Nat.div_one, ← hleast]
    exact Nat.mul_le_mul_right _ h
  rw [hleast]
  exact le_units_of_le_word (le_word_ofUnits hquotient (by omega) false)

/-- A number below `2 ^ 64` has a word of its size. -/
theorem word_ofUnits_le_of_le
    {n : Nat} (h : n ≤ 2 ^ 64) (negative : Bool) (hs : 1086 ≤ s) :
    (ofUnits negative (n * unitsPerOne) 1).word ≤ (s + 2) * 2 ^ 52 := by
  obtain ⟨e, he, hunit⟩ := exists_unitsPerOne
  refine word_ofUnits_le ?_ negative
  rw [Nat.div_one, hunit]
  calc n * 2 ^ e ≤ 2 ^ 64 * 2 ^ e := Nat.mul_le_mul_right _ h
    _ = 2 ^ (64 + e) := (Nat.pow_add 2 64 e).symm
    _ < 2 ^ (s + 53) := Nat.pow_lt_pow_right (by omega) (by omega)

/-- A quotient by a power of ten is bounded like the number that is divided, with a
bit to spare for what is rounded up. -/
theorem word_overTenPow_le
    (h : x.word ≤ (s + 2) * 2 ^ 52) {k d : Nat} (hk : 2 ^ d ≤ tenPow k) (hd : d ≤ 1) :
    (x.overTenPow k).word ≤ (s + 1 - d + 2) * 2 ^ 52 := by
  obtain ⟨e, -, hunit⟩ := exists_unitsPerOne
  have hunitPos : 0 < unitsPerOne := by
    rw [hunit]
    exact Nat.two_pow_pos e
  have hden := le_units_ofNat hk (by omega)
  have hunits := units_lt_of_word_le h
  refine word_ofUnits_le ?_ _
  calc x.units * unitsPerOne / (ofNat (tenPow k)).units
      ≤ x.units * unitsPerOne / (2 ^ d * unitsPerOne) :=
        Nat.div_le_div_left hden (Nat.mul_pos (Nat.two_pow_pos d) hunitPos)
    _ = x.units / 2 ^ d := Nat.mul_div_mul_right _ _ hunitPos
    _ < 2 ^ (s + 1 - d + 53) := by
        refine Nat.div_lt_of_lt_mul ?_
        rw [← Nat.pow_add, show d + (s + 1 - d + 53) = s + 54 by omega]
        exact hunits

end Units

/-- An integer of 64 bits is read as a finite number. -/
theorem isFinite_ofInt
    {n : Int} (h : n.natAbs ≤ 2 ^ 64) :
    (ofInt n).isFinite :=
  isFinite_of_word_le (word_ofUnits_le_of_le h _ le_rfl) (by omega)

end Binary64

namespace Json
namespace Numeral

section Magnitudes

theorem two_pow_le_tenPow
    {d k : Nat} (h : d ≤ k) :
    2 ^ d ≤ tenPow k :=
  (Nat.pow_le_pow_left (by omega) d).trans (Nat.pow_le_pow_right (by omega) h)

/-- Repeated division by the greatest power of ten leaves a number in its bounds. -/
theorem word_overLargestPow_le
    {s : Nat} (count : Nat) {x : Binary64} (h : x.word ≤ (s + 2) * 2 ^ 52) :
    (overLargestPow count x).word ≤ (s + 2) * 2 ^ 52 := by
  induction count generalizing x with
  | zero => exact h
  | succ count ih =>
      rw [overLargestPow]
      split
      · exact h
      · have hten : 2 ^ 1 ≤ tenPow 308 := two_pow_le_tenPow (by omega)
        have hnext := Binary64.word_overTenPow_le h hten le_rfl
        rw [Nat.add_sub_cancel] at hnext
        exact ih hnext

theorem isFinite_of_scaled
    {m : Nat} (hm : m ≤ 2 ^ 64) {exponent : Int} {x : Binary64}
    (h : scaled m exponent = some x) :
    x.isFinite := by
  obtain ⟨s, hs⟩ : ∃ s, s = 1086 := ⟨_, rfl⟩
  have hword : (Binary64.ofNat m).word ≤ (s + 2) * 2 ^ 52 :=
    Binary64.word_ofUnits_le_of_le hm false hs.ge
  simp only [scaled] at h
  split at h
  · split at h
    · split at h
      · next hfinite =>
          cases h
          exact hfinite
      · cases h
    · split at h
      · cases h
        exact Binary64.isFinite_of_word_le hword (by omega)
      · cases h
  · next k =>
      cases h
      have hone : 2 ^ 0 ≤ tenPow (k + 1 - 308 * (k / 308)) := two_pow_le_tenPow (Nat.zero_le _)
      have hlast := Binary64.word_overTenPow_le (word_overLargestPow_le (k / 308) hword) hone
        (Nat.zero_le 1)
      exact Binary64.isFinite_of_word_le hlast (by omega)

theorem gather_fst_lt
    {m : Nat} (h : m < 2 ^ 64) (digits : List Char) :
    (gather m digits).1 < 2 ^ 64 := by
  induction digits generalizing m with
  | nil => exact h
  | cons c rest ih =>
      simp only [gather]
      split
      · next hnext => exact ih hnext
      · exact h

theorem isFinite_of_magnitude
    {n : Numeral} {x : Binary64} (h : n.magnitude = some x) :
    x.isFinite := by
  have hzero : Binary64.zero.isFinite := by decide
  have hbound := gather_fst_lt (gather_fst_lt (Nat.two_pow_pos 64) n.whole) (n.fraction.getD [])
  simp only [magnitude] at h
  split at h
  · exact isFinite_of_scaled hbound.le h
  · split at h
    · exact isFinite_of_scaled hbound.le h
    · split at h
      · cases h
        exact hzero
      · cases h

end Magnitudes

/-- A number as it is kept: an integer of 64 bits, signed or unsigned, or a finite
floating point number. -/
inductive InRange : Json → Prop
  | integer {n : Int} (least : -2 ^ 63 ≤ n) (greatest : n < 2 ^ 64) : InRange (.integer n)
  | float {x : Binary64} (finite : x.isFinite) : InRange (.float x)

/-- What a numeral is read as is in range. -/
theorem InRange.of_value
    {n : Numeral} {v : Json} (h : n.value = .ok v) :
    InRange v := by
  rw [value] at h
  split at h
  · next i hi =>
      cases h
      have hbound := gather_fst_lt (Nat.two_pow_pos 64) n.whole
      rw [integer?] at hi
      split at hi
      · cases hi
      · split at hi
        · next m hm =>
            rw [hm] at hbound
            split at hi
            · split at hi
              · next hrange =>
                  cases hi
                  rw [twoPow_eq] at hrange
                  exact .integer (by omega) (by omega)
              · cases hi
            · cases hi
              exact .integer (by omega) (by exact_mod_cast hbound)
        · cases hi
  · split at h
    · next x hx =>
        cases h
        obtain ⟨y, hy, rfl⟩ := Option.map_eq_some_iff.1 hx
        have hfinite := isFinite_of_magnitude hy
        refine .float ?_
        split
        · rw [Binary64.isFinite, Binary64.word_neg]
          exact hfinite
        · exact hfinite
    · cases h

end Numeral
end Json
end FlagStack
