/-
  Quotients of doubles, and doubles from decimal fractions.

  * `div_rounds` and `mul_rounds`: quotients and products are the exact ones rounded
    once;
  * `ofScientific_rounds`: so is the double of `m / 10 ^ k`, even where the quotient
    is too small to be worked out.
-/
import Reckon.Proofs.Number.Rounding

namespace Reckon.Double

open Float.Model Float.Model.UnpackedFloat

variable {q : ℚ} {m m₁ m₂ k : ℕ}

theorem lt_pow_log2 (m : ℕ) : (m : ℚ) < 2 ^ (m.log2 + 1 : ℤ) := by
  exact_mod_cast Nat.lt_log2_self (n := m)

/-- The dividend is shifted so far that the quotient has enough bits. -/
theorem divCore_spec (h₁ : 0 < m₁) (h₂ : 0 < m₂) (e₁ e₂ : ℤ) : ∃ (s : ℕ) (t : ℤ),
    e₁ - e₂ = t + s ∧ (52 ≤ (m₁ <<< s / m₂).log2 ∨ t ≤ -1074) ∧
      divCore Format.binary64 m₁ e₁ m₂ e₂ =
        (m₁ <<< s / m₂, t, accuracyOfFraction (m₁ <<< s % m₂) m₂) := by
  set t := min (e₁ - e₂) (max ((m₁.log2 : ℤ) - m₂.log2 + (e₁ - e₂) - 53) (-1074)) with ht
  have htarget : Format.binary64.targetExponent (totalExponent m₁ e₁ - totalExponent m₂ e₂) =
      max ((m₁.log2 : ℤ) - m₂.log2 + (e₁ - e₂) - 53) (-1074) := by
    change max ((m₁.log2 : ℤ) + 1 + e₁ - (m₂.log2 + 1 + e₂) - (53 : ℕ))
      (3 - 2 ^ 10 - (53 : ℕ)) = _
    omega
  refine ⟨(e₁ - e₂ - t).toNat, t, by omega, ?_, ?_⟩
  · set s := (e₁ - e₂ - t).toNat with hs
    rcases le_or_gt t (-1074) with hle | hlt
    · exact Or.inr hle
    · left
      have hshift : m₂.log2 + 53 ≤ m₁.log2 + s := by omega
      have hpow : 2 ^ 52 * m₂ ≤ m₁ <<< s := by
        calc 2 ^ 52 * m₂ ≤ 2 ^ 52 * 2 ^ (m₂.log2 + 1) :=
              Nat.mul_le_mul_left _ Nat.lt_log2_self.le
          _ = 2 ^ (m₂.log2 + 53) := by
            rw [← pow_add]
            congr 1
            omega
          _ ≤ 2 ^ (m₁.log2 + s) := Nat.pow_le_pow_right (by decide) hshift
          _ = 2 ^ m₁.log2 * 2 ^ s := pow_add _ _ _
          _ ≤ m₁ * 2 ^ s := Nat.mul_le_mul_right _ (Nat.log2_self_le h₁.ne')
          _ = m₁ <<< s := (Nat.shiftLeft_eq _ _).symm
      have hquot : 2 ^ 52 ≤ m₁ <<< s / m₂ := (Nat.le_div_iff_mul_le h₂).2 hpow
      exact (Nat.le_log2 (by omega)).2 hquot
  · rw [divCore, htarget]

/-- **A quotient is the exact one rounded once.** -/
theorem div_rounds (h₁ : 0 < m₁) (h₂ : 0 < m₂) (e₁ e₂ : ℤ) :
    Rounds (m₁ * 2 ^ e₁ / (m₂ * 2 ^ e₂))
      (div Format.binary64 (.finite .positive m₁ e₁ h₁) (.finite .positive m₂ e₂ h₂)) := by
  obtain ⟨s, t, hst, hlog, hdiv⟩ := divCore_spec h₁ h₂ e₁ e₂
  have hrep := represents_fraction (m₁ <<< s) h₂
  have hq : ((m₁ <<< s : ℕ) : ℚ) / m₂ = m₁ * 2 ^ e₁ / (m₂ * 2 ^ e₂) / 2 ^ t := by
    have hpow : (2 : ℚ) ^ e₁ = 2 ^ e₂ * (2 ^ t * 2 ^ (s : ℤ)) := by
      rw [← zpow_add₀ (by norm_num), ← zpow_add₀ (by norm_num), ← hst]
      congr 1
      omega
    have hm₂ : (m₂ : ℚ) ≠ 0 := by exact_mod_cast h₂.ne'
    rw [Nat.shiftLeft_eq, hpow, zpow_natCast]
    push_cast
    field_simp
  rw [hq] at hrep
  have hcore : div Format.binary64 (.finite .positive m₁ e₁ h₁) (.finite .positive m₂ e₂ h₂) =
      let (m, e, a) := divCore Format.binary64 m₁ e₁ m₂ e₂
      roundWithAccuracy Format.binary64 .positive m e a := rfl
  rw [hcore, hdiv]
  exact roundWithAccuracy_rounds hrep hlog

/-- **A product is the exact one rounded once.** -/
theorem mul_rounds (h₁ : 0 < m₁) (h₂ : 0 < m₂) (hlog : 52 ≤ (m₁ * m₂).log2) (e₁ e₂ : ℤ) :
    Rounds (m₁ * 2 ^ e₁ * (m₂ * 2 ^ e₂))
      (mul Format.binary64 (.finite .positive m₁ e₁ h₁) (.finite .positive m₂ e₂ h₂)) := by
  have hrep := represents_exact (m₁ * m₂)
  have hq : ((m₁ * m₂ : ℕ) : ℚ) = m₁ * 2 ^ e₁ * (m₂ * 2 ^ e₂) / 2 ^ (e₁ + e₂) := by
    rw [zpow_add₀ (by norm_num)]
    push_cast
    field_simp
  rw [hq] at hrep
  exact roundWithAccuracy_rounds hrep (Or.inl hlog)

/-- A number below half the least double is rounded to zero. -/
theorem rounds_zero (h0 : 0 ≤ q) (h : q < 2 ^ (-1075 : ℤ)) : Rounds q (.zero .positive) := by
  refine ⟨0, -1074, ⟨le_refl _, ?_, Or.inl rfl⟩, ?_, by simp [carried]⟩
  · exact h.trans_le (zpow_le_zpow_right₀ (by norm_num) (by norm_num))
  · have hhalf : q / 2 ^ (-1074 : ℤ) < 1 / 2 := by
      rw [div_lt_iff₀ (by positivity)]
      calc q < 2 ^ (-1075 : ℤ) := h
        _ = 1 / 2 * 2 ^ (-1074 : ℤ) := by
          rw [one_div, ← zpow_neg_one, ← zpow_add₀ (by norm_num)]
          norm_num
    have hpos : 0 ≤ q / 2 ^ (-1074 : ℤ) := by positivity
    have habs : |q / 2 ^ (-1074 : ℤ) - (0 : ℕ)| < 1 / 2 := by
      rw [Nat.cast_zero, sub_zero, abs_of_nonneg hpos]
      exact hhalf
    exact ⟨habs.le, fun heq => absurd heq habs.ne⟩

/-- A fraction with so many digits behind the point is below half the least double. -/
theorem div_lt_of_log2_lt (h : m.log2 + 2048 < k) : (m : ℚ) / 10 ^ k < 2 ^ (-1075 : ℤ) := by
  have hten : (2 : ℚ) ^ (3 * k : ℤ) ≤ 10 ^ k := by
    rw [zpow_mul, zpow_natCast]
    exact pow_le_pow_left₀ (by norm_num) (by norm_num) k
  rw [div_lt_iff₀ (by positivity)]
  calc (m : ℚ) < 2 ^ (m.log2 + 1 : ℤ) := lt_pow_log2 m
    _ ≤ 2 ^ (-1075 + 3 * k : ℤ) := zpow_le_zpow_right₀ (by norm_num) (by omega)
    _ = 2 ^ (-1075 : ℤ) * 2 ^ (3 * k : ℤ) := zpow_add₀ (by norm_num) _ _
    _ ≤ 2 ^ (-1075 : ℤ) * 10 ^ k := by gcongr

/-- **The double of a decimal fraction is the fraction rounded once.** -/
theorem ofScientific_rounds (hm : 0 < m) (k : ℕ) :
    Rounds (m / 10 ^ k) (UnpackedFloat.ofScientific Format.binary64 m (-(k : ℤ))) := by
  have hbits : (2 : ℤ) ^ Format.binary64.exponentBits = 2048 := rfl
  unfold UnpackedFloat.ofScientific
  rw [dif_neg hm.ne', hbits, if_neg (by omega)]
  rcases Nat.lt_or_ge (m.log2 + 2048) k with hsmall | hlarge
  · rw [if_pos (by omega)]
    exact rounds_zero (by positivity) (div_lt_of_log2_lt hsmall)
  rw [if_neg (by omega)]
  rcases Nat.eq_zero_or_pos k with rfl | hk
  · -- Without a point, the coefficient is multiplied by one, with its bits brought forward.
    rw [if_pos (by omega)]
    have hpos : 0 < m <<< 53 := Nat.shiftLeft_pos_iff.2 hm
    have hlog : 52 ≤ (m <<< 53 * 1).log2 := by
      rw [mul_one, Nat.le_log2 hpos.ne', Nat.shiftLeft_eq]
      calc 2 ^ 52 ≤ 1 * 2 ^ 53 := by norm_num
        _ ≤ m * 2 ^ 53 := Nat.mul_le_mul_right _ hm
    have hround := mul_rounds hpos Nat.one_pos hlog (-53) 0
    have hq : ((m <<< 53 : ℕ) : ℚ) * 2 ^ (-53 : ℤ) * ((1 : ℕ) * 2 ^ (0 : ℤ)) = m / 10 ^ 0 := by
      rw [Nat.shiftLeft_eq, zpow_neg]
      push_cast
      field_simp
    rw [hq] at hround
    exact hround
  · rw [if_neg (by omega)]
    have hneg : (- -(k : ℤ)).toNat = k := by omega
    have hpow : 0 < 10 ^ (- -(k : ℤ)).toNat := Nat.pow_pos (by decide)
    have hround := div_rounds hm hpow 0 0
    have hq : (m : ℚ) * 2 ^ (0 : ℤ) / ((10 ^ (- -(k : ℤ)).toNat : ℕ) * 2 ^ (0 : ℤ)) =
        m / 10 ^ k := by
      rw [hneg]
      simp
    rw [hq] at hround
    exact hround

end Reckon.Double
