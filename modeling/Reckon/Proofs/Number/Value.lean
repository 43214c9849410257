/-
  Decimals and magnitudes as rational numbers.

  * `Decimal.value` and `Magnitude.value` are the numbers that they stand for;
  * `value_trimmed`: dropping zeros does not change a decimal;
  * `value_significant_near`: a fraction rounded to `n` digits is at most half a
    unit of the last one away;
  * `le_orderOf`: the order of a fraction is no more than its size.
-/
import Mathlib.Algebra.Order.Field.Power
import Mathlib.Algebra.Order.Field.Rat
import Mathlib.Tactic.FieldSimp
import Mathlib.Tactic.Linarith
import Mathlib.Tactic.NormNum
import Mathlib.Tactic.Positivity
import Mathlib.Tactic.Ring
import Reckon.Decimal.Shortest

namespace Reckon.Decimal

/-- The number that a decimal stands for. -/
def value (d : Decimal) : ℚ := d.coefficient * 10 ^ d.exponent

/-- The number that a magnitude stands for. -/
def Magnitude.value (d : Magnitude) : ℚ := d.significand * 2 ^ d.exponent

/-! ## Powers -/

theorem cast_power (b : ℕ) (e : ℤ) : (power b e : ℚ) = (b : ℚ) ^ max e 0 := by
  rw [← Int.ofNat_toNat, zpow_natCast]
  exact Nat.cast_pow b e.toNat

theorem cast_power_pos {b : ℕ} (h : 0 < b) (e : ℤ) : (0 : ℚ) < power b e := by
  exact_mod_cast power_pos h e

/-- One of the powers of an exponent and of its opposite is one, and so their quotient
    is the power of any exponent. -/
theorem power_div_power {b : ℕ} (h : 0 < b) (e : ℤ) :
    (power b e : ℚ) / power b (-e) = (b : ℚ) ^ e := by
  have hne : (b : ℚ) ≠ 0 := by exact_mod_cast h.ne'
  have hmax : max e 0 - max (-e) 0 = e := by omega
  rw [cast_power, cast_power, ← zpow_sub₀ hne, hmax]

theorem power_eq_mul {b : ℕ} (h : 0 < b) (e : ℤ) :
    (power b e : ℚ) = (b : ℚ) ^ e * power b (-e) := by
  rw [← power_div_power h e, div_mul_cancel₀ _ (cast_power_pos h (-e)).ne']

theorem Magnitude.numerator_div_denominator (d : Magnitude) :
    (d.numerator : ℚ) / d.denominator = d.value := by
  have h := power_div_power (b := 2) (by decide) d.exponent
  rw [numerator, denominator, value, Nat.cast_mul, mul_div_assoc, h]
  rfl

/-- A decimal as a fraction. -/
theorem value_eq_div (d : Decimal) :
    ((d.coefficient * power 10 d.exponent : ℕ) : ℚ) / 10 ^ (-d.exponent).toNat = d.value := by
  have h := power_div_power (b := 10) (by decide) d.exponent
  have hden : (power 10 (-d.exponent) : ℚ) = 10 ^ (-d.exponent).toNat := Nat.cast_pow _ _
  rw [value, Nat.cast_mul, mul_div_assoc, ← hden, h]
  rfl

/-! ## Digits -/

@[simp] theorem value_trimmed (d : Decimal) : d.trimmed.value = d.value := by
  fun_induction trimmed d with
  | case1 d h ih =>
    have hten : 10 * (d.coefficient / 10) = d.coefficient := by omega
    have hcast : (10 : ℚ) * (d.coefficient / 10 : ℕ) = d.coefficient := by exact_mod_cast hten
    rw [ih, value, value, ← hcast, zpow_add₀ (by norm_num)]
    ring
  | case2 d h => rfl

theorem digitCount_pos (n : ℕ) : 0 < digitCount n := by
  unfold digitCount
  split <;> omega

theorem pow_digitCount_le {n : ℕ} (h : 0 < n) : 10 ^ (digitCount n - 1) ≤ n := by
  fun_induction digitCount n with
  | case1 n hn => exact h
  | case2 n hn ih =>
    have hle := ih (by omega)
    obtain ⟨k, hk⟩ : ∃ k, digitCount (n / 10) = k + 1 :=
      Nat.exists_eq_add_one.2 (digitCount_pos (n / 10))
    rw [hk, Nat.add_sub_cancel] at hle
    rw [hk, Nat.add_sub_cancel, pow_succ]
    omega

theorem lt_pow_digitCount (n : ℕ) : n < 10 ^ digitCount n := by
  fun_induction digitCount n with
  | case1 n hn => simpa using hn
  | case2 n hn ih =>
    rw [pow_succ]
    omega

/-- **The order of a fraction is no more than its size.** -/
theorem le_orderOf {num den : ℕ} (hn : 0 < num) (hd : 0 < den) :
    (10 : ℚ) ^ orderOf num den ≤ num / den := by
  have hdq : (0 : ℚ) < den := by exact_mod_cast hd
  rw [le_div_iff₀ hdq]
  unfold orderOf
  dsimp only
  split
  · next h =>
    have hpos := cast_power_pos (b := 10) (by decide) (-(digitCount num - digitCount den : ℤ))
    have hle : (den : ℚ) * power 10 (digitCount num - digitCount den : ℤ) ≤
        num * power 10 (-(digitCount num - digitCount den : ℤ)) := by exact_mod_cast h
    rw [power_eq_mul (by decide), ← mul_assoc, mul_comm (den : ℚ)] at hle
    exact le_of_mul_le_mul_right hle hpos
  · -- The lengths of the two numbers alone leave a factor of ten.
    obtain ⟨j, hj⟩ : ∃ j, digitCount num = j + 1 := Nat.exists_eq_add_one.2 (digitCount_pos num)
    have hnum : ((10 : ℚ)) ^ (j : ℤ) ≤ num := by
      have hle := pow_digitCount_le hn
      rw [hj, Nat.add_sub_cancel] at hle
      exact_mod_cast hle
    have hden : (den : ℚ) ≤ 10 ^ (digitCount den : ℤ) := by
      exact_mod_cast (lt_pow_digitCount den).le
    calc (10 : ℚ) ^ ((digitCount num : ℤ) - digitCount den - 1) * den
        ≤ 10 ^ ((digitCount num : ℤ) - digitCount den - 1) * 10 ^ (digitCount den : ℤ) := by gcongr
      _ = 10 ^ (j : ℤ) := by
        rw [← zpow_add₀ (by norm_num), hj]
        congr 1
        omega
      _ ≤ num := hnum

/-! ## Rounding -/

theorem roundDiv_eq_or (a : ℕ) {b : ℕ} (hb : 0 < b) (tie : Tie) :
    roundDiv a b tie = a / b ∨ roundDiv a b tie = (a + b - 1) / b := by
  rcases Nat.eq_zero_or_pos (a % b) with h | h
  · left
    exact roundDiv_of_dvd hb (Nat.dvd_of_mod_eq_zero h) tie
  · have habove : (a + b - 1) / b = a / b + 1 := by
      have hdiv := Nat.div_add_mod a b
      have hlt := Nat.mod_lt a hb
      rw [Nat.div_eq_iff hb, Nat.add_mul, Nat.one_mul]
      rw [Nat.mul_comm] at hdiv
      omega
    rw [habove]
    unfold roundDiv
    dsimp only
    split
    · exact Or.inl rfl
    split
    · exact Or.inr rfl
    cases tie with
    | up => exact Or.inr rfl
    | toEven =>
      dsimp only
      rcases Nat.mod_two_eq_zero_or_one (a / b) with h | h <;> rw [h]
      · exact Or.inl rfl
      · exact Or.inr rfl

/-- A fraction in units of a power of ten. -/
theorem inUnits_div (p : ℤ) (num : ℕ) {den : ℕ} (hd : 0 < den) :
    ((inUnits p num den).1 : ℚ) / (inUnits p num den).2 * 10 ^ p = num / den := by
  have hp := cast_power_pos (b := 10) (by decide) p
  have hdq : (0 : ℚ) < den := by exact_mod_cast hd
  have hten := power_eq_mul (b := 10) (by decide) p
  rw [inUnits, Nat.cast_mul, Nat.cast_mul, hten]
  have hm := cast_power_pos (b := 10) (by decide) (-p)
  have hz : (10 : ℚ) ^ p ≠ 0 := zpow_ne_zero _ (by norm_num)
  push_cast
  field_simp

/-- **A fraction rounded to some digits is at most half a unit of the last one away.** -/
theorem value_significant_near (n : ℕ) (tie : Tie) (num : ℕ) {den : ℕ} (hd : 0 < den) :
    |(significant n tie num den).value - num / den| ≤ 10 ^ (orderOf num den - n + 1) / 2 := by
  rw [significant, value]
  dsimp only
  set p := orderOf num den - n + 1
  rw [← inUnits_div p num hd]
  have hb : 0 < (inUnits p num den).2 := Nat.mul_pos hd (power_pos (by decide) p)
  obtain ⟨hlow, hhigh⟩ := roundDiv_near (inUnits p num den).1 hb tie
  generalize (inUnits p num den).1 = a at *
  generalize (inUnits p num den).2 = b at *
  have hbq : (0 : ℚ) < b := by exact_mod_cast hb
  have hunit : (0 : ℚ) < 10 ^ p := by positivity
  have hnear : |(roundDiv a b tie : ℚ) - a / b| ≤ 1 / 2 := by
    have hlow' : (2 * a : ℚ) ≤ 2 * (roundDiv a b tie * b) + b := by exact_mod_cast hlow
    have hhigh' : (2 * (roundDiv a b tie * b) : ℚ) ≤ 2 * a + b := by exact_mod_cast hhigh
    have hab : (a : ℚ) / b * b = a := div_mul_cancel₀ _ hbq.ne'
    rw [abs_le]
    constructor
    · nlinarith
    · nlinarith
  rw [← sub_mul, abs_mul, abs_of_pos hunit]
  calc |(roundDiv a b tie : ℚ) - a / b| * 10 ^ p ≤ 1 / 2 * 10 ^ p := by gcongr
    _ = 10 ^ p / 2 := by ring

end Reckon.Decimal
