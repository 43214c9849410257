/-
  The shortest decimal lies in the interval of its double.

  * `Interval.Holds`: a rational number lies in an interval, and
    `Interval.contains_iff` says that this is what `Interval.contains` decides;
  * `holds_of_neighbour?`: a neighbour that is chosen lies in the interval;
  * `holds_significant`: so does the double rounded to seventeen digits;
  * `holds_shortest`: so does the shortest decimal.
-/
import Reckon.Proofs.Number.Value

namespace Reckon.Decimal

variable {i : Interval} {d : Magnitude} {D : Decimal}

/-- A number lies in an interval. -/
def Interval.Holds (i : Interval) (q : ℚ) : Prop :=
  if i.closed then i.low * 2 ^ i.exponent ≤ q ∧ q ≤ i.high * 2 ^ i.exponent
  else i.low * 2 ^ i.exponent < q ∧ q < i.high * 2 ^ i.exponent

namespace Interval

theorem holds_of_lt {q : ℚ} (hl : i.low * 2 ^ i.exponent < q) (hh : q < i.high * 2 ^ i.exponent) :
    i.Holds q := by
  unfold Holds
  split
  · exact ⟨hl.le, hh.le⟩
  · exact ⟨hl, hh⟩

/-- **Whether a decimal lies in an interval is decided by natural numbers.** -/
theorem contains_iff (i : Interval) (D : Decimal) : i.contains D = true ↔ i.Holds D.value := by
  have hten := cast_power_pos (b := 10) (by decide) (-D.exponent)
  have htwo := cast_power_pos (b := 2) (by decide) (-i.exponent)
  have hpoint : ((D.coefficient * power 10 D.exponent * power 2 (-i.exponent) : ℕ) : ℚ) =
      D.value * (power 10 (-D.exponent) * power 2 (-i.exponent)) := by
    rw [Nat.cast_mul, Nat.cast_mul, power_eq_mul (b := 10) (by decide) D.exponent, Decimal.value]
    push_cast
    ring
  have hunit : ∀ n : ℕ, ((n * (power 2 i.exponent * power 10 (-D.exponent)) : ℕ) : ℚ) =
      n * 2 ^ i.exponent * (power 10 (-D.exponent) * power 2 (-i.exponent)) := by
    intro n
    rw [Nat.cast_mul, Nat.cast_mul, power_eq_mul (b := 2) (by decide) i.exponent]
    push_cast
    ring
  have hpos := mul_pos hten htwo
  unfold contains Holds
  dsimp only
  split
  · rw [Bool.and_eq_true, decide_eq_true_iff, decide_eq_true_iff, ← Nat.cast_le (α := ℚ),
      ← Nat.cast_le (α := ℚ), hpoint, hunit, hunit, mul_le_mul_iff_left₀ hpos,
      mul_le_mul_iff_left₀ hpos]
  · rw [Bool.and_eq_true, decide_eq_true_iff, decide_eq_true_iff, ← Nat.cast_lt (α := ℚ),
      ← Nat.cast_lt (α := ℚ), hpoint, hunit, hunit, mul_lt_mul_iff_left₀ hpos,
      mul_lt_mul_iff_left₀ hpos]

end Interval

/-- A chosen neighbour lies in the interval. -/
theorem holds_of_neighbour? {tie : Tie} {n : ℕ} (h : neighbour? tie d n = some D) :
    (Interval.ofMagnitude d).Holds D.value := by
  rw [← Interval.contains_iff]
  unfold neighbour? at h
  dsimp only at h
  have hb : 0 < (inUnits (orderOf d.numerator d.denominator - n + 1) d.numerator d.denominator).2 :=
    Nat.mul_pos d.denominator_pos (power_pos (by decide) _)
  split at h
  · next hbelow habove =>
    cases h
    rcases roundDiv_eq_or (inUnits (orderOf d.numerator d.denominator - n + 1) d.numerator
      d.denominator).1 hb tie with heq | heq
    · rw [heq]
      exact hbelow
    · rw [heq]
      exact habove
  · next hbelow _ =>
    cases h
    exact hbelow
  · next _ habove =>
    cases h
    exact habove
  · cases h

/-- A magnitude in quarters of its last place. -/
theorem Magnitude.value_eq_quarters (d : Magnitude) :
    d.value = 4 * d.significand * 2 ^ (d.exponent - 2) := by
  rw [value, zpow_sub₀ (by norm_num)]
  norm_num
  ring

/-- A double rounded to seventeen digits is less than half a place away, and less than
    a quarter where the doubles below it lie twice as close. -/
theorem value_significant_sub_lt (h0 : 0 < d.significand) (tie : Tie) :
    |(significant 17 tie d.numerator d.denominator).value - d.value| ≤
      2 * d.significand / 10 ^ 16 * 2 ^ (d.exponent - 2) := by
  have hnum : 0 < d.numerator := Nat.mul_pos h0 (power_pos (by decide) _)
  have hnear := value_significant_near 17 tie d.numerator d.denominator_pos
  have horder := le_orderOf hnum d.denominator_pos
  rw [d.numerator_div_denominator] at hnear horder
  have hunit : (10 : ℚ) ^ (orderOf d.numerator d.denominator - (17 : ℕ) + 1) =
      10 ^ orderOf d.numerator d.denominator / 10 ^ 16 := by
    rw [← zpow_natCast, ← zpow_sub₀ (by norm_num)]
    congr 1
    omega
  rw [hunit] at hnear
  calc |(significant 17 tie d.numerator d.denominator).value - d.value|
      ≤ 10 ^ orderOf d.numerator d.denominator / 10 ^ 16 / 2 := hnear
    _ ≤ d.value / 10 ^ 16 / 2 := by gcongr
    _ = 2 * d.significand / 10 ^ 16 * 2 ^ (d.exponent - 2) := by
      rw [d.value_eq_quarters]
      ring

/-- **Seventeen digits are enough.** -/
theorem holds_significant (h0 : 0 < d.significand) (h : d.significand < 2 * hiddenBit) (tie : Tie) :
    (Interval.ofMagnitude d).Holds (significant 17 tie d.numerator d.denominator).value := by
  have hnear := abs_le.1 (value_significant_sub_lt h0 tie)
  have hu : (0 : ℚ) < 2 ^ (d.exponent - 2) := by positivity
  have hm : (d.significand : ℚ) < 9007199254740992 := by exact_mod_cast h
  have hlow : ((Interval.ofMagnitude d).low : ℚ) <
      4 * d.significand - 2 * d.significand / 10 ^ 16 := by
    unfold Interval.ofMagnitude
    dsimp only
    split
    · next hb =>
      rw [Nat.cast_sub (by omega), hb.1, hiddenBit]
      norm_num
    · rw [Nat.cast_sub (by omega)]
      push_cast
      linarith
  have hhigh : 4 * d.significand + 2 * d.significand / 10 ^ 16 <
      ((Interval.ofMagnitude d).high : ℚ) := by
    rw [Interval.ofMagnitude]
    push_cast
    linarith
  rw [d.value_eq_quarters] at hnear
  apply Interval.holds_of_lt
  · have h := mul_lt_mul_of_pos_right hlow hu
    rw [sub_mul] at h
    exact h.trans_le (by linarith [hnear.1])
  · have h := mul_lt_mul_of_pos_right hhigh hu
    rw [add_mul] at h
    exact lt_of_le_of_lt (by linarith [hnear.2]) h

/-- **The shortest decimal lies in the interval of its double.** -/
theorem holds_shortest (h0 : 0 < d.significand) (h : d.significand < 2 * hiddenBit) (tie : Tie) :
    (Interval.ofMagnitude d).Holds (shortest tie d).value := by
  rw [shortest, value_trimmed]
  cases hf : (List.range 17).findSome? fun n => neighbour? tie d (n + 1) with
  | none => exact holds_significant h0 h tie
  | some D =>
    obtain ⟨n, -, hn⟩ := List.exists_of_findSome?_eq_some hf
    exact holds_of_neighbour? hn

end Reckon.Decimal
