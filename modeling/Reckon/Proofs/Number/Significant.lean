/-
  Rounding to significant digits, once and twice.

  * `lt_orderOf`: a fraction is less than the power of ten behind its order;
  * `nearest_roundDiv`: a quotient is rounded to the nearest number, and to the even one of two;
  * `RoundsTo n q w`: the number `w` is `q`, rounded to `n` significant digits, and there is
    only one such number (`RoundsTo.unique`);
  * `roundsTo_significant`: a fraction is rounded so;
  * `normalized` is a rounded decimal without the digit that rounding has carried into a new power
    of ten, and `places_normalized`: rounding the fraction once more, to as many places as this
    decimal has, gives this decimal again.
-/
import Reckon.Proofs.Number.Rounding
import Reckon.Proofs.Number.Value

namespace Reckon

open Decimal Double

variable {num den n m : ℕ} {q w : ℚ}

namespace Double

theorem Nearest.ge_of_le {r : ℕ} (h : Nearest q r) (hq : n ≤ q) : n ≤ r := by
  have hnear := (abs_le.1 h.near).2
  by_contra hlt
  have hsucc : (r : ℚ) + 1 ≤ n := by exact_mod_cast Nat.not_le.1 hlt
  linarith

end Double

namespace Decimal

/-- **A fraction is less than the power of ten behind its order.** -/
theorem lt_orderOf (num : ℕ) (hd : 0 < den) :
    (num / den : ℚ) < 10 ^ (orderOf num den + 1) := by
  have hdq : (0 : ℚ) < den := by exact_mod_cast hd
  rw [div_lt_iff₀ hdq]
  unfold orderOf
  dsimp only
  split
  · -- The lengths of the two numbers alone leave a factor of ten.
    obtain ⟨j, hj⟩ : ∃ j, digitCount den = j + 1 := Nat.exists_eq_add_one.2 (digitCount_pos den)
    have hden : (10 : ℚ) ^ (j : ℤ) ≤ den := by
      have hle := pow_digitCount_le hd
      rw [hj, Nat.add_sub_cancel] at hle
      exact_mod_cast hle
    have hnum : (num : ℚ) < 10 ^ (digitCount num : ℤ) := by exact_mod_cast lt_pow_digitCount num
    calc (num : ℚ) < 10 ^ (digitCount num : ℤ) := hnum
      _ = 10 ^ ((digitCount num : ℤ) - digitCount den + 1) * 10 ^ (j : ℤ) := by
        rw [← zpow_add₀ (by norm_num), hj]
        congr 1
        push_cast
        ring
      _ ≤ 10 ^ ((digitCount num : ℤ) - digitCount den + 1) * den := by gcongr
  · next h =>
    have hpos := cast_power_pos (b := 10) (by decide) (-(digitCount num - digitCount den : ℤ))
    have hlt : (num : ℚ) * power 10 (-(digitCount num - digitCount den : ℤ)) <
        den * power 10 (digitCount num - digitCount den : ℤ) := by exact_mod_cast Nat.not_le.1 h
    rw [power_eq_mul (by decide) (digitCount num - digitCount den : ℤ), ← mul_assoc,
      mul_comm (den : ℚ)] at hlt
    rw [sub_add_cancel]
    exact lt_of_mul_lt_mul_right hlt hpos.le

/-- **A quotient is rounded to the nearest number, and to the even one of two.** -/
theorem nearest_roundDiv (num : ℕ) (hd : 0 < den) :
    Nearest (num / den) (roundDiv num den .toEven) := by
  have hdq : (0 : ℚ) < den := by exact_mod_cast hd
  have hdiv : (den * (num / den : ℕ) + (num % den : ℕ) : ℚ) = num := by
    exact_mod_cast Nat.div_add_mod num den
  have hq : (num : ℚ) / den = (num / den : ℕ) + (num % den : ℕ) / den := by
    rw [← hdiv]
    field_simp
  have hnonneg : (0 : ℚ) ≤ (num % den : ℕ) / den := by positivity
  have hlt : ((num % den : ℕ) : ℚ) / den < 1 := by
    rw [div_lt_one hdq]
    exact_mod_cast Nat.mod_lt num hd
  unfold roundDiv
  dsimp only
  rw [hq]
  generalize num / den = below at *
  split
  · next h =>
    have hsmall : ((num % den : ℕ) : ℚ) / den < 1 / 2 := by
      rw [div_lt_div_iff₀ hdq (by norm_num)]
      norm_cast
      omega
    have habs : |(below : ℚ) + (num % den : ℕ) / den - below| < 1 / 2 := by
      rw [abs_lt]
      constructor <;> linarith
    exact ⟨habs.le, fun heq => absurd heq habs.ne⟩
  split
  · next h =>
    have hlarge : 1 / 2 < ((num % den : ℕ) : ℚ) / den := by
      rw [div_lt_div_iff₀ (by norm_num) hdq]
      norm_cast
      omega
    have habs : |(below : ℚ) + (num % den : ℕ) / den - (below + 1 : ℕ)| < 1 / 2 := by
      rw [abs_lt]
      push_cast
      constructor <;> linarith
    exact ⟨habs.le, fun heq => absurd heq habs.ne⟩
  · next hle hge =>
    have hhalf : ((num % den : ℕ) : ℚ) / den = 1 / 2 := by
      rw [div_eq_div_iff hdq.ne' (by norm_num)]
      norm_cast
      omega
    rw [hhalf]
    rcases Nat.mod_two_eq_zero_or_one below with hbit | hbit
    · rw [hbit]
      refine ⟨?_, fun _ => hbit⟩
      norm_num
    · rw [hbit]
      refine ⟨?_, fun _ => by omega⟩
      push_cast
      norm_num

/-! ## Significant digits -/

/-- A number is rounded to `n` significant digits: on the grid on which it has so many, to the
    nearest point, and to the even one of two. -/
def RoundsTo (n : ℕ) (q w : ℚ) : Prop :=
  ∃ k r : ℤ, 10 ^ k ≤ |q| ∧ |q| < 10 ^ (k + 1) ∧ |q / 10 ^ (k - n + 1) - r| ≤ 1 / 2 ∧
    (|q / 10 ^ (k - n + 1) - r| = 1 / 2 → Even r) ∧ w = r * 10 ^ (k - n + 1)

theorem RoundsTo.neg (h : RoundsTo n q w) : RoundsTo n (-q) (-w) := by
  obtain ⟨k, r, hlow, hhigh, hnear, heven, rfl⟩ := h
  have hflip : |-q / 10 ^ (k - n + 1) - ((-r : ℤ) : ℚ)| = |q / 10 ^ (k - n + 1) - r| := by
    rw [← abs_neg]
    congr 1
    push_cast
    ring
  refine ⟨k, -r, by rwa [abs_neg], by rwa [abs_neg], by rwa [hflip], fun h => ?_, ?_⟩
  · rw [hflip] at h
    exact (heven h).neg
  · push_cast
    ring

/-- The powers of ten around a number are unique. -/
theorem le_of_zpow_le {k j : ℤ} (hk : (10 : ℚ) ^ k ≤ q) (hj : q < 10 ^ (j + 1)) : k ≤ j :=
  Int.lt_add_one_iff.1 ((zpow_lt_zpow_iff_right₀ (by norm_num)).1 (hk.trans_lt hj))

/-- **Each number is rounded to one number only.** -/
theorem RoundsTo.unique {w' : ℚ} (h : RoundsTo n q w) (h' : RoundsTo n q w') : w = w' := by
  obtain ⟨k, r, hlow, hhigh, hnear, heven, rfl⟩ := h
  obtain ⟨k', r', hlow', hhigh', hnear', heven', rfl⟩ := h'
  obtain rfl : k = k' := le_antisymm (le_of_zpow_le hlow hhigh') (le_of_zpow_le hlow' hhigh)
  generalize q / 10 ^ (k - n + 1) = x at *
  have hb := abs_le.1 hnear
  have hb' := abs_le.1 hnear'
  -- Two such numbers would lie half a unit away on either side, and only one of them is even.
  have hle : r ≤ r' + 1 := by exact_mod_cast (by linarith : (r : ℚ) ≤ r' + 1)
  have hle' : r' ≤ r + 1 := by exact_mod_cast (by linarith : (r' : ℚ) ≤ r + 1)
  obtain h | h | h : r = r' ∨ r = r' + 1 ∨ r' = r + 1 := by omega
  · rw [h]
  · have hr : (r : ℚ) = r' + 1 := by exact_mod_cast h
    have h1 := heven (by rw [abs_of_nonpos] <;> linarith)
    have h2 := heven' (by rw [abs_of_nonneg] <;> linarith)
    rw [h, Int.even_add_one] at h1
    exact absurd h2 h1
  · have hr : (r' : ℚ) = r + 1 := by exact_mod_cast h
    have h1 := heven (by rw [abs_of_nonneg] <;> linarith)
    have h2 := heven' (by rw [abs_of_nonpos] <;> linarith)
    rw [h, Int.even_add_one] at h2
    exact absurd h1 h2

section

variable (hn : 0 < num) (hd : 0 < den)
include hn hd

/-- A fraction in units of the last of its `n + 1` digits. -/
theorem scaled_bounds (n : ℕ) :
    (10 : ℚ) ^ n ≤ num / den / 10 ^ (orderOf num den - n) ∧
      num / den / 10 ^ (orderOf num den - n) < (10 : ℚ) ^ (n + 1) := by
  have hunit : (0 : ℚ) < 10 ^ (orderOf num den - n) := by positivity
  rw [le_div_iff₀ hunit, div_lt_iff₀ hunit, ← zpow_natCast, ← zpow_natCast,
    ← zpow_add₀ (by norm_num), ← zpow_add₀ (by norm_num)]
  have hlow : (n : ℤ) + (orderOf num den - n) = orderOf num den := by ring
  have hhigh : ((n + 1 : ℕ) : ℤ) + (orderOf num den - n) = orderOf num den + 1 := by
    push_cast
    ring
  rw [hlow, hhigh]
  exact ⟨le_orderOf hn hd, lt_orderOf num hd⟩

omit hn in
/-- **The coefficient is nearest to the fraction in units of the last digit.** -/
theorem nearest_significant (n : ℕ) :
    (significant (n + 1) .toEven num den).exponent = orderOf num den - n ∧
      Nearest (num / den / 10 ^ (orderOf num den - n))
        (significant (n + 1) .toEven num den).coefficient := by
  have hp : orderOf num den - ((n + 1 : ℕ) : ℤ) + 1 = orderOf num den - n := by
    push_cast
    ring
  rw [significant, hp]
  refine ⟨rfl, ?_⟩
  have hb : 0 < (inUnits (orderOf num den - n) num den).2 :=
    Nat.mul_pos hd (power_pos (by decide) _)
  have hnear := nearest_roundDiv (inUnits (orderOf num den - n) num den).1 hb
  have hunits := inUnits_div (orderOf num den - n) num hd
  rwa [← hunits, mul_div_cancel_right₀ _ (zpow_ne_zero _ (by norm_num))]

/-- The coefficient has `n + 1` digits, or it is the next power of ten. -/
theorem coefficient_significant_bounds (n : ℕ) :
    10 ^ n ≤ (significant (n + 1) .toEven num den).coefficient ∧
      (significant (n + 1) .toEven num den).coefficient ≤ 10 ^ (n + 1) := by
  obtain ⟨-, hnear⟩ := nearest_significant hd n
  obtain ⟨hlow, hhigh⟩ := scaled_bounds hn hd n
  exact ⟨hnear.ge_of_le (by exact_mod_cast hlow), hnear.le_of_lt (by exact_mod_cast hhigh)⟩

/-- **A fraction is rounded to significant digits.** -/
theorem roundsTo_significant (n : ℕ) :
    RoundsTo (n + 1) (num / den) (significant (n + 1) .toEven num den).value := by
  obtain ⟨hexp, hnear⟩ := nearest_significant hd n
  have hp : orderOf num den - ((n + 1 : ℕ) : ℤ) + 1 = orderOf num den - n := by
    push_cast
    ring
  have hnonneg : (0 : ℚ) ≤ num / den := by positivity
  refine ⟨orderOf num den, (significant (n + 1) .toEven num den).coefficient, ?_, ?_, ?_, ?_, ?_⟩
  · rw [abs_of_nonneg hnonneg]
    exact le_orderOf hn hd
  · rw [abs_of_nonneg hnonneg]
    exact lt_orderOf num hd
  · rw [hp]
    exact_mod_cast hnear.near
  · intro h
    rw [hp] at h
    have heven := hnear.even (by exact_mod_cast h)
    exact_mod_cast Nat.even_iff.2 heven
  · rw [value, hexp, hp]
    rfl

end

/-! ## Rounding twice -/

/-- A decimal of `n` digits, where rounding has carried into a new power of ten. -/
def normalized (n : ℕ) (d : Decimal) : Decimal :=
  if d.coefficient = 10 ^ n then ⟨10 ^ (n - 1), d.exponent + 1⟩ else d

/-- A fraction just below a power of ten stays just below it on the coarser grid. -/
theorem nearest_tenth (h : Nearest q (10 ^ (n + 1))) (hq : q < (10 : ℚ) ^ (n + 1)) :
    Nearest (q / 10) (10 ^ n) := by
  have hlow := (abs_le.1 h.near).1
  rw [Nat.cast_pow, Nat.cast_ofNat] at hlow
  rw [pow_succ] at hlow hq
  have habs : |q / 10 - ((10 ^ n : ℕ) : ℚ)| < 1 / 2 := by
    rw [Nat.cast_pow, Nat.cast_ofNat, abs_lt]
    constructor <;> linarith
  exact ⟨habs.le, fun heq => absurd heq habs.ne⟩

/-- **Rounding a fraction to the places that its significant digits have gives these digits
    again.** -/
theorem places_normalized (hn : 0 < num) (hd : 0 < den)
    (h : (normalized (n + 1) (significant (n + 1) .toEven num den)).exponent = -(m : ℤ)) :
    places m .toEven num den = normalized (n + 1) (significant (n + 1) .toEven num den) := by
  obtain ⟨hexp, hnear⟩ := nearest_significant hd n
  have hhigh := (scaled_bounds hn hd n).2
  have hplaces : Nearest (num / den / 10 ^ (-(m : ℤ))) (places m .toEven num den).coefficient := by
    have hunits : ((num * power 10 m : ℕ) : ℚ) / den = num / den / 10 ^ (-(m : ℤ)) := by
      rw [Nat.cast_mul, cast_power, zpow_neg, div_inv_eq_mul]
      simp
      ring
    rw [← hunits]
    exact nearest_roundDiv _ hd
  have heta : places m .toEven num den = ⟨(places m .toEven num den).coefficient, -m⟩ := rfl
  rw [heta]
  generalize significant (n + 1) .toEven num den = s at *
  unfold normalized at h ⊢
  split
  · next hcarry =>
    rw [if_pos hcarry] at h
    dsimp only at h
    have hten : num / den / 10 ^ (-(m : ℤ)) =
        num / den / 10 ^ (orderOf num den - n) / (10 : ℚ) := by
      rw [← h, hexp, zpow_add₀ (by norm_num), zpow_one, div_mul_eq_div_div]
    rw [hcarry] at hnear
    rw [hten] at hplaces
    rw [hplaces.unique (nearest_tenth hnear hhigh), h, Nat.add_sub_cancel]
  · next hcarry =>
    rw [if_neg hcarry] at h
    rw [← h, hexp] at hplaces
    rw [hplaces.unique hnear, ← h]

end Decimal

end Reckon
