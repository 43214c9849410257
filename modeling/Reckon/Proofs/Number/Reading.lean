/-
  Reading a decimal fraction as a double.

  Small coefficients are divided by powers of ten that are doubles themselves, and
  all others are worked out in full; both ways are the same rounding.

  * `rounds_of_isDouble`: a double is rounded to itself;
  * `unpack_toFloat` and `unpack_powerOfTen`: small numbers and powers of ten are
    doubles;
  * `exists_ofScientific`: a decimal fraction is read as the double that it is
    rounded to.
-/
import Reckon.Proofs.Number.Packing
import Reckon.Proofs.Number.Scientific
import Reckon.Proofs.Number.Value

namespace Reckon.Double

open Float.Model Float.Model.UnpackedFloat Decimal

variable {m k : ℕ} {d : Magnitude}

theorem carried_of_lt (h0 : 0 < m) (hm : m < 2 ^ 53) (s : UnpackedFloat.Sign) (e : ℤ) :
    carried s m e = .finite s m e h0 := by
  rw [carried, dif_neg h0.ne', if_pos hm]

/-- **A double is rounded to itself.** -/
theorem rounds_of_isDouble (hd : IsDouble d) (h0 : 0 < d.significand) :
    Rounds d.value (.finite .positive d.significand d.exponent h0) := by
  have hpos : (0 : ℚ) < 2 ^ d.exponent := by positivity
  have hq : d.value / 2 ^ d.exponent = d.significand := by
    rw [Magnitude.value, mul_div_assoc, div_self hpos.ne', mul_one]
  refine ⟨d.significand, d.exponent, ⟨hd.least, ?_, ?_⟩, ?_, (carried_of_lt h0 hd.lt _ _).symm⟩
  · rw [zpow_add₀ (by norm_num), Magnitude.value]
    have hlt : (d.significand : ℚ) < 2 ^ (53 : ℤ) := by exact_mod_cast hd.lt
    gcongr
  · refine hd.full.imp_right fun h => ?_
    rw [zpow_add₀ (by norm_num), Magnitude.value]
    have hle : (2 : ℚ) ^ (52 : ℤ) ≤ d.significand := by exact_mod_cast h
    gcongr
  · rw [hq]
    exact ⟨by simp, by simp⟩

theorem le_shiftLeft_log2 (h : 0 < m) : 2 ^ 52 ≤ m <<< (52 - m.log2) := by
  rw [Nat.shiftLeft_eq]
  calc 2 ^ 52 ≤ 2 ^ (m.log2 + (52 - m.log2)) := Nat.pow_le_pow_right (by decide) (by omega)
    _ = 2 ^ m.log2 * 2 ^ (52 - m.log2) := pow_add _ _ _
    _ ≤ m * 2 ^ (52 - m.log2) := Nat.mul_le_mul_right _ (Nat.log2_self_le h.ne')

/-- **A natural number is converted to the double that it is rounded to.** -/
theorem round_rounds (h : 0 < m) :
    Rounds m (UnpackedFloat.round Format.binary64 .positive m 0) := by
  have hs : ((0 : ℤ) - max ((m.log2 : ℤ) + 0 - 52) (-1074)).toNat = 52 - m.log2 := by omega
  rw [UnpackedFloat.round, targetExponent_eq, decreaseExponent, hs]
  have hrep := represents_exact (m <<< (52 - m.log2))
  have hq : ((m <<< (52 - m.log2) : ℕ) : ℚ) = m / 2 ^ (0 - ((52 - m.log2 : ℕ) : ℤ)) := by
    rw [Nat.shiftLeft_eq, zero_sub, zpow_neg, zpow_natCast, div_inv_eq_mul]
    push_cast
    ring
  rw [hq] at hrep
  have hle := le_shiftLeft_log2 h
  exact roundWithAccuracy_rounds hrep (Or.inl ((Nat.le_log2 (by omega)).2 hle))

theorem ofNat_eq_round (h : 0 < m) :
    UnpackedFloat.ofNat Format.binary64 m = UnpackedFloat.round Format.binary64 .positive m 0 := by
  rw [UnpackedFloat.ofNat, UnpackedFloat.ofInt, UnpackedFloat.normalize,
    Int.compare_eq_gt.2 (by omega)]
  rfl

/-- A small natural number is a double. -/
theorem unpack_toFloat (h0 : 0 < m) (hm : m < 2 ^ 53) : ∃ (d : Magnitude)
    (hpos : 0 < d.significand), m.toUInt64.toFloat.toModel.unpack =
      .finite .positive d.significand d.exponent hpos ∧ d.value = m := by
  have hlog : m.log2 < 53 := (Nat.log2_lt h0.ne').2 hm
  have hle := le_shiftLeft_log2 h0
  have hlt : m <<< (52 - m.log2) < 2 ^ 53 := by
    rw [Nat.shiftLeft_eq]
    calc m * 2 ^ (52 - m.log2) < 2 ^ (m.log2 + 1) * 2 ^ (52 - m.log2) :=
          Nat.mul_lt_mul_of_pos_right Nat.lt_log2_self (Nat.two_pow_pos _)
      _ = 2 ^ 53 := by
        rw [← pow_add]
        congr 1
        omega
  let d : Magnitude := ⟨m <<< (52 - m.log2), (m.log2 : ℤ) - 52⟩
  have hd : IsDouble d := ⟨hlt, by dsimp only [d]; omega, by dsimp only [d]; omega, Or.inr hle⟩
  have hpos : 0 < d.significand := by dsimp only [d]; omega
  have hvalue : d.value = m := by
    have hexp : ((m.log2 : ℤ) - 52) = -((52 - m.log2 : ℕ) : ℤ) := by omega
    rw [Magnitude.value]
    dsimp only [d]
    rw [hexp, Nat.shiftLeft_eq, zpow_neg, zpow_natCast]
    push_cast
    field_simp
  have hround : UnpackedFloat.round Format.binary64 .positive m 0 =
      .finite .positive d.significand d.exponent hpos := by
    have hr := rounds_of_isDouble hd hpos
    rw [hvalue] at hr
    exact (round_rounds h0).unique hr
  refine ⟨d, hpos, ?_, hvalue⟩
  have hn : m.toUInt64.toNat = m := Nat.mod_eq_of_lt (by omega)
  change (Float.Model.pack (UnpackedFloat.ofNat _ m.toUInt64.toNat)).unpack = _
  rw [hn, ofNat_eq_round h0, hround, unpack_pack hd hpos]

/-- Whether a datum is that of a power of ten. -/
def isPowerOfTen (k : ℕ) : Datum → Bool
  | .finite false d => decide (0 < d.significand ∧ d.numerator = 10 ^ k * d.denominator)
  | _ => false

theorem isPowerOfTen_table : ∀ k : Fin Float.exactlyRepresentablePowersOfTen.size,
    isPowerOfTen k (Datum.ofFloat Float.exactlyRepresentablePowersOfTen[k]) = true := by
  decide +kernel

/-- The powers of ten in the table are doubles. -/
theorem unpack_powerOfTen (hk : k < Float.exactlyRepresentablePowersOfTen.size) :
    ∃ (d : Magnitude) (hpos : 0 < d.significand),
      Float.exactlyRepresentablePowersOfTen[k].toModel.unpack =
        .finite .positive d.significand d.exponent hpos ∧ d.value = 10 ^ k := by
  have h := isPowerOfTen_table ⟨k, hk⟩
  change isPowerOfTen k (Datum.ofFloat Float.exactlyRepresentablePowersOfTen[k]) = true at h
  unfold isPowerOfTen at h
  split at h
  · next d heq =>
    obtain ⟨hpos, hnum⟩ := of_decide_eq_true h
    have hden : (d.denominator : ℚ) ≠ 0 := by exact_mod_cast d.denominator_pos.ne'
    refine ⟨d, hpos, unpack_of_ofFloat heq hpos, ?_⟩
    rw [← d.numerator_div_denominator, hnum]
    push_cast
    rw [mul_div_assoc, div_self hden, mul_one]
  · cases h

/-- **A decimal fraction is read as the double that it is rounded to.** -/
theorem exists_ofScientific (hm : 0 < m) (k : ℕ) : ∃ f, Rounds (m / 10 ^ k) f ∧
    Float.ofScientific m true k = Float.ofModel (Float.Model.pack f) := by
  unfold Float.ofScientific
  split
  · next h =>
    have hk : k < Float.exactlyRepresentablePowersOfTen.size := Nat.lt_succ_of_le h.2
    obtain ⟨d₁, h₁, hd₁, hv₁⟩ := unpack_toFloat hm h.1
    obtain ⟨d₂, h₂, hd₂, hv₂⟩ := unpack_powerOfTen hk
    have hround := div_rounds h₁ h₂ d₁.exponent d₂.exponent
    rw [← Magnitude.value, ← Magnitude.value, hv₁, hv₂, ← hd₁, ← hd₂] at hround
    exact ⟨_, hround, rfl⟩
  · refine ⟨_, ofScientific_rounds hm k, ?_⟩
    have hneg : Int.negOfNat k = -(k : ℤ) := Int.negOfNat_eq
    dsimp only
    rw [if_pos rfl, hneg]
    rfl

theorem ofScientific_zero (k : ℕ) : Float.ofScientific 0 true k = 0 := by
  rcases Nat.lt_or_ge 22 k with hk | hk
  · unfold Float.ofScientific
    rw [dif_neg (by omega)]
    rfl
  · have h : ∀ k : Fin 23, Float.ofScientific 0 true k = 0 := by decide +kernel
    exact h ⟨k, by omega⟩

end Reckon.Double
