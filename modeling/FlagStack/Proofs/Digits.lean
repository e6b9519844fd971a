import FlagStack.Powers
import Mathlib.Tactic.Ring

/-!
# Digits

Runs of decimal digits at the front of a text, and the numbers that they spell.  A run
ends where a character follows that is no digit.

**Results.**
* `takeWhile_isDigit_append`, `dropWhile_isDigit_append`: a run, and what is behind it.
* `le_ofDigitChars`, `ofDigitChars_lt`: bounds for the number that a run spells.
-/

namespace FlagStack

@[simp] theorem twoPow_eq
    (n : Nat) :
    twoPow n = 2 ^ n := by
  rfl

@[simp] theorem tenPow_eq
    (n : Nat) :
    tenPow n = 10 ^ n := by
  rfl

section Runs

variable {digits rest : List Char}

theorem takeWhile_isDigit_append
    (hdigits : ∀ c ∈ digits, c.isDigit) (hrest : ∀ c ∈ rest.head?, c.isDigit = false) :
    (digits ++ rest).takeWhile Char.isDigit = digits := by
  rw [List.takeWhile_append_of_pos hdigits]
  cases rest with
  | nil => simp
  | cons c rest => simp [hrest c rfl]

theorem dropWhile_isDigit_append
    (hdigits : ∀ c ∈ digits, c.isDigit) (hrest : ∀ c ∈ rest.head?, c.isDigit = false) :
    (digits ++ rest).dropWhile Char.isDigit = rest := by
  rw [List.dropWhile_append_of_pos hdigits]
  cases rest with
  | nil => rfl
  | cons c rest => simp [hrest c rfl]

end Runs

section Values

theorem bounds_of_isDigit
    {c : Char} (h : c.isDigit) :
    48 ≤ c.toNat ∧ c.toNat ≤ 57 := by
  simp only [Char.isDigit, Bool.and_eq_true, decide_eq_true_eq, UInt32.le_iff_toNat_le] at h
  exact h

theorem exists_head_toDigits
    (n : Nat) :
    ∃ c s, Nat.toDigits 10 n = c :: s ∧ c.isDigit := by
  obtain ⟨c, s, hdigits⟩ := List.exists_cons_of_ne_nil (Nat.toDigits_ne_nil (n := n) (b := 10))
  have hc : c ∈ Nat.toDigits 10 n := hdigits ▸ List.mem_cons_self
  exact ⟨c, s, hdigits, Nat.isDigit_of_mem_toDigits (by omega) (by omega) hc⟩

theorem le_ofDigitChars
    (digits : List Char) (n : Nat) :
    n ≤ Nat.ofDigitChars 10 digits n := by
  rw [Nat.ofDigitChars_eq_ofDigitChars_zero]
  have hpow := Nat.pow_pos (n := digits.length) (show 0 < 10 by omega)
  exact (Nat.le_mul_of_pos_left n hpow).trans (Nat.le_add_right _ _)

/-- Digits are worth less than one more at the place in front of them. -/
theorem ofDigitChars_lt
    {digits : List Char} (h : ∀ c ∈ digits, c.isDigit) (n : Nat) :
    Nat.ofDigitChars 10 digits n < (n + 1) * 10 ^ digits.length := by
  induction digits generalizing n with
  | nil => simp [Nat.ofDigitChars]
  | cons c digits ih =>
      have hc : c.toNat - '0'.toNat < 10 := by
        have hdigit := bounds_of_isDigit (h c List.mem_cons_self)
        change c.toNat - 48 < 10
        omega
      have hrest := ih (fun d hd => h d (List.mem_cons_of_mem _ hd))
        (10 * n + (c.toNat - '0'.toNat))
      rw [Nat.ofDigitChars_cons, List.length_cons, Nat.pow_succ']
      calc Nat.ofDigitChars 10 digits (10 * n + (c.toNat - '0'.toNat))
          < (10 * n + (c.toNat - '0'.toNat) + 1) * 10 ^ digits.length := hrest
        _ ≤ ((n + 1) * 10) * 10 ^ digits.length := Nat.mul_le_mul_right _ (by omega)
        _ = (n + 1) * (10 * 10 ^ digits.length) := Nat.mul_assoc _ _ _

end Values

end FlagStack
