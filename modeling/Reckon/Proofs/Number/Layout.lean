/-
  How the digits of a decimal stand in its texts.

  * `head_toDigits` and `getLast_toDigits`: digits of a positive number do not begin with a
    zero, and they end with one only if ten divides the number;
  * `exponent_cases`: the point of a decimal by position stands behind the digits, among them,
    or before them, and `positional_of_nonneg`, `positional_of_split` and
    `positional_of_zeros` are its texts;
  * `mantissa` is the decimal with the same digits and its point behind the first one, and
    `scientific_eq`: a decimal with exponent is its mantissa by position and then its order;
  * `order_trimmed` and `trimmed_mantissa`: dropping zeros at the end changes neither the order
    of a decimal nor the point of its mantissa.
-/
import Mathlib.Tactic.IntervalCases
import Reckon.Proofs.Number.Digits
import Reckon.Proofs.Number.Value

namespace Reckon.Decimal

variable {d : Decimal} {c n : ℕ} {p : ℤ}

/-! ## Digits -/

theorem digitChar_ne_zero (h : 0 < n) (hn : n < 10) : n.digitChar ≠ '0' := by
  interval_cases n <;> decide

theorem toDigits_ten_mul (h : 0 < n) : Nat.toDigits 10 (10 * n) = Nat.toDigits 10 n ++ ['0'] :=
  (Nat.toDigits_append_toDigits (d := 0) (by decide) h (by decide)).symm

theorem isDigits_toDigits (n : ℕ) : IsDigits (Nat.toDigits 10 n) := isDigits_digits ⟨n, 0⟩

/-- The digits of a positive number do not begin with a zero. -/
theorem head_toDigits (h : 0 < n) : ∀ x ∈ (Nat.toDigits 10 n).head?, x ≠ '0' := by
  induction n using Nat.strong_induction_on with
  | _ n ih =>
    rw [Nat.toDigits_eq_if (by decide)]
    split
    · next hn => simpa using digitChar_ne_zero h hn
    · next hn =>
      have hpos : 0 < n / 10 := by omega
      rw [List.head?_append_of_ne_nil _ Nat.toDigits_ne_nil]
      exact ih (n / 10) (by omega) hpos

/-- They end with a zero only if ten divides the number. -/
theorem getLast_toDigits (h : n % 10 ≠ 0) : ∀ x ∈ (Nat.toDigits 10 n).getLast?, x ≠ '0' := by
  have hlast := digitChar_ne_zero (Nat.pos_of_ne_zero h) (Nat.mod_lt n (by decide))
  rw [Nat.toDigits_eq_if (by decide)]
  split
  · next hn =>
    rw [Nat.mod_eq_of_lt hn] at hlast
    simpa using hlast
  · simpa using hlast

theorem lt_pow_length_digits (d : Decimal) : d.coefficient < 10 ^ d.digits.length :=
  (Nat.length_toDigits_le_iff (by decide) Nat.length_toDigits_pos).1 (Nat.le_refl _)

theorem pow_length_digits_le (h : 0 < d.coefficient) :
    10 ^ (d.digits.length - 1) ≤ d.coefficient := by
  by_contra hlt
  rcases Nat.eq_zero_or_pos (d.digits.length - 1) with hzero | hpos
  · rw [hzero] at hlt
    omega
  · have hle := (Nat.length_toDigits_le_iff (by decide) hpos).2 (Nat.not_le.1 hlt)
    have hlen : 0 < d.digits.length := Nat.length_toDigits_pos
    change d.digits.length ≤ _ at hle
    omega

theorem length_digits_eq (h : 10 ^ n ≤ d.coefficient) (h' : d.coefficient < 10 ^ (n + 1)) :
    d.digits.length = n + 1 := by
  have hpos : 0 < d.coefficient := Nat.lt_of_lt_of_le (Nat.pow_pos (by decide)) h
  have hlow : n < d.digits.length :=
    (Nat.pow_lt_pow_iff_right (by decide)).1 (h.trans_lt d.lt_pow_length_digits)
  have hhigh : d.digits.length - 1 < n + 1 :=
    (Nat.pow_lt_pow_iff_right (by decide)).1 ((pow_length_digits_le hpos).trans_lt h')
  omega

/-- **The order of a decimal is the power of ten of its first digit.** -/
theorem order_spec (h : 0 < d.coefficient) :
    (10 : ℚ) ^ d.order ≤ d.value ∧ d.value < 10 ^ (d.order + 1) := by
  obtain ⟨k, hk⟩ : ∃ k, d.digits.length = k + 1 :=
    Nat.exists_eq_add_one.2 Nat.length_toDigits_pos
  have hlow := pow_length_digits_le h
  have hhigh := d.lt_pow_length_digits
  rw [hk] at hlow hhigh
  have hlow' : (10 : ℚ) ^ (k : ℤ) ≤ d.coefficient := by exact_mod_cast hlow
  have hhigh' : (d.coefficient : ℚ) < 10 ^ (k + 1 : ℤ) := by exact_mod_cast hhigh
  have hunit : (0 : ℚ) < 10 ^ d.exponent := by positivity
  have horder : d.order = k + d.exponent := by
    rw [order, hk]
    push_cast
    ring
  have hnext : d.order + 1 = (k + 1 : ℤ) + d.exponent := by rw [horder]; ring
  rw [hnext, horder, zpow_add₀ (by norm_num), zpow_add₀ (by norm_num), value]
  exact ⟨mul_le_mul_of_nonneg_right hlow' hunit.le, mul_lt_mul_of_pos_right hhigh' hunit⟩

/-! ## By position -/

/-- The point stands behind the digits, among them, or before them. -/
theorem exponent_cases (d : Decimal) : (∃ n : ℕ, d.exponent = n) ∨
    (∃ a b, d.digits = a ++ b ∧ a ≠ [] ∧ b ≠ [] ∧ d.exponent = -(b.length : ℤ)) ∨
    ∃ k : ℕ, d.exponent = -(k + d.digits.length : ℤ) := by
  rcases lt_or_ge d.exponent 0 with hneg | hnonneg
  · rcases lt_or_ge (-d.exponent).toNat d.digits.length with hlt | hge
    · have hlen : (d.digits.drop (d.digits.length - (-d.exponent).toNat)).length =
          (-d.exponent).toNat := by
        rw [List.length_drop]
        omega
      refine Or.inr (Or.inl ⟨_, _, (List.take_append_drop (d.digits.length -
        (-d.exponent).toNat) _).symm, ?_, ?_, ?_⟩)
      · rw [← List.length_pos_iff, List.length_take]
        omega
      · rw [← List.length_pos_iff, hlen]
        omega
      · rw [hlen]
        omega
    · exact Or.inr (Or.inr ⟨(-d.exponent).toNat - d.digits.length, by omega⟩)
  · exact Or.inl ⟨d.exponent.toNat, by omega⟩

theorem positional_of_nonneg (h : d.exponent = n) : d.positional [] = d.digits ++ zeros n := by
  have hbehind : (-d.exponent).toNat = 0 := by omega
  have hbefore : d.exponent.toNat = n := by omega
  rw [positional]
  simp [hbehind, hbefore]

theorem positional_of_split {a b : List Char} (h : d.digits = a ++ b) (ha : a ≠ []) (hb : b ≠ [])
    (he : d.exponent = -(b.length : ℤ)) : d.positional [] = a ++ '.' :: b := by
  have hbehind : (-d.exponent).toNat = b.length := by omega
  have hapos := List.length_pos_iff.2 ha
  have hbpos := List.length_pos_iff.2 hb
  have hne : b.length ≠ 0 := by omega
  have hlt : b.length < a.length + b.length := by omega
  rw [positional]
  simp [hbehind, h, hne, hlt]

theorem positional_of_zeros {k : ℕ} (he : d.exponent = -(k + d.digits.length : ℤ)) :
    d.positional [] = '0' :: '.' :: (zeros k ++ d.digits) := by
  have hpos : 0 < d.digits.length := Nat.length_toDigits_pos
  have hbehind : (-d.exponent).toNat = k + d.digits.length := by omega
  have hne : k + d.digits.length ≠ 0 := by omega
  have hle : ¬ k + d.digits.length < d.digits.length := by omega
  rw [positional]
  simp only [hbehind, if_neg hne, if_neg hle, Nat.add_sub_cancel]
  rfl

/-- The same for a coefficient with one more zero at its end. -/
theorem digits_ten_mul (h : 0 < c) (p q : ℤ) :
    (⟨10 * c, p⟩ : Decimal).digits = (⟨c, q⟩ : Decimal).digits ++ ['0'] :=
  toDigits_ten_mul h

theorem positional_ten_mul_of_nonneg (h : 0 < c) (hp : 0 ≤ p) :
    (⟨10 * c, p⟩ : Decimal).positional [] = (⟨c, p + 1⟩ : Decimal).positional [] := by
  obtain ⟨n, rfl⟩ := Int.eq_ofNat_of_zero_le hp
  rw [positional_of_nonneg (n := n) rfl, positional_of_nonneg (n := n + 1) rfl,
    digits_ten_mul h _ (n + 1), List.append_assoc]
  rfl

theorem positional_ten_mul_neg_one (h : 0 < c) :
    (⟨10 * c, -1⟩ : Decimal).positional [] = (⟨c, 0⟩ : Decimal).positional [] ++ ['.', '0'] := by
  have hsplit := positional_of_split (digits_ten_mul h (-1) 0) (digits_ne_nil _) (by simp) rfl
  rw [hsplit, positional_of_nonneg (n := 0) rfl]
  simp [zeros]

theorem positional_ten_mul_of_lt (h : 0 < c) (hp : p < -1) :
    (⟨10 * c, p⟩ : Decimal).positional [] = (⟨c, p + 1⟩ : Decimal).positional [] ++ ['0'] ∧
      '.' ∈ (⟨c, p + 1⟩ : Decimal).positional [] := by
  have hdigits := digits_ten_mul h p (p + 1)
  rcases exponent_cases ⟨c, p + 1⟩ with ⟨n, hn⟩ | ⟨a, b, hab, ha, hb, he⟩ | ⟨k, hk⟩
  · dsimp only at hn
    omega
  · dsimp only at he
    rw [hab, List.append_assoc] at hdigits
    rw [positional_of_split hab ha hb he, positional_of_split hdigits ha (by simp)
      (by simp only [List.length_append, List.length_singleton]; push_cast; omega)]
    simp
  · dsimp only at hk
    have hlen : (⟨10 * c, p⟩ : Decimal).digits.length =
        (⟨c, p + 1⟩ : Decimal).digits.length + 1 := by
      rw [hdigits, List.length_append]
      rfl
    have hexp : (⟨10 * c, p⟩ : Decimal).exponent =
        -(k + (⟨10 * c, p⟩ : Decimal).digits.length : ℤ) := by
      rw [hlen]
      push_cast
      omega
    rw [positional_of_zeros (d := ⟨c, p + 1⟩) hk, positional_of_zeros hexp, hdigits]
    simp

/-! ## Zeros at the end -/

theorem trimmed_ten_mul (h : 0 < c) (p : ℤ) :
    (⟨10 * c, p⟩ : Decimal).trimmed = (⟨c, p + 1⟩ : Decimal).trimmed := by
  have hdiv : 10 * c / 10 = c := by omega
  rw [trimmed, dif_pos (by dsimp only; omega)]
  simp only [hdiv]

theorem trimmed_of_mod_ne_zero (h : d.coefficient % 10 ≠ 0) : d.trimmed = d := by
  rw [trimmed, dif_neg (fun hd => h hd.2)]

/-- Dropping zeros one after the other. -/
theorem trimmed_induction {motive : (d : Decimal) → 0 < d.coefficient → Prop}
    (zero : ∀ c p (hc : 0 < c), motive ⟨c, p + 1⟩ hc →
      motive ⟨10 * c, p⟩ (Nat.mul_pos (by decide) hc))
    (last : ∀ (d : Decimal) (h : 0 < d.coefficient), d.coefficient % 10 ≠ 0 → motive d h)
    (d : Decimal) (h : 0 < d.coefficient) : motive d h := by
  fun_induction trimmed d with
  | case1 d hd ih =>
    obtain ⟨c, p⟩ := d
    obtain ⟨k, rfl⟩ := Nat.dvd_of_mod_eq_zero hd.2
    have hpos : 0 < k := by
      dsimp only at h
      omega
    have hdiv : 10 * k / 10 = k := by omega
    simp only [hdiv] at ih
    exact zero k p hpos (ih hpos)
  | case2 d hd => exact last d h fun hmod => hd ⟨by omega, hmod⟩

theorem coefficient_trimmed_pos (h : 0 < d.coefficient) : 0 < d.trimmed.coefficient := by
  induction d, h using trimmed_induction with
  | zero c p hc ih => rwa [trimmed_ten_mul hc]
  | last d _ hd =>
    rw [trimmed_of_mod_ne_zero hd]
    omega

theorem coefficient_trimmed_mod (h : 0 < d.coefficient) : d.trimmed.coefficient % 10 ≠ 0 := by
  induction d, h using trimmed_induction with
  | zero c p hc ih => rwa [trimmed_ten_mul hc]
  | last d _ hd => rwa [trimmed_of_mod_ne_zero hd]

/-- **Dropping zeros at the end does not change the order.** -/
theorem order_trimmed (h : 0 < d.coefficient) : d.trimmed.order = d.order := by
  induction d, h using trimmed_induction with
  | zero c p hc ih =>
    rw [trimmed_ten_mul hc, ih, order, order, digits_ten_mul hc p (p + 1), List.length_append]
    simp only [List.length_singleton]
    push_cast
    ring
  | last d _ hd => rw [trimmed_of_mod_ne_zero hd]

/-! ## With exponent -/

/-- The decimal with the same digits and the point behind the first of them. -/
def mantissa (d : Decimal) : Decimal := ⟨d.coefficient, 1 - d.digits.length⟩

/-- An exponent in writing. -/
def exponentText (e : ℤ) : List Char := (if e < 0 then ['-'] else []) ++ Nat.toDigits 10 e.natAbs

theorem positional_mantissa_of_singleton {first : Char} (h : d.digits = [first]) :
    d.mantissa.positional [] = [first] := by
  have hexp : d.mantissa.exponent = (0 : ℕ) := by rw [mantissa, h]; rfl
  rw [positional_of_nonneg hexp]
  exact congrArg (· ++ zeros 0) h

theorem positional_mantissa_of_cons {first second : Char} {more : List Char}
    (h : d.digits = first :: second :: more) :
    d.mantissa.positional [] = first :: '.' :: second :: more := by
  have hexp : d.mantissa.exponent = -((second :: more).length : ℤ) := by
    rw [mantissa, h]
    simp only [List.length_cons]
    push_cast
    ring
  exact positional_of_split (d := d.mantissa) (a := [first]) h (by simp) (by simp) hexp

/-- **A decimal with exponent is its mantissa by position, and then its order.** -/
theorem scientific_eq (d : Decimal) :
    d.scientific [] = d.mantissa.positional [] ++ 'e' :: exponentText d.order := by
  obtain ⟨first, rest, h⟩ := List.exists_cons_of_ne_nil d.digits_ne_nil
  cases rest with
  | nil =>
    rw [positional_mantissa_of_singleton h, scientific, exponentText]
    simp only [h, List.append_assoc, List.cons_append]
  | cons second more =>
    rw [positional_mantissa_of_cons h, scientific, exponentText]
    simp only [h, List.append_assoc, List.cons_append]

theorem order_mantissa (d : Decimal) : d.mantissa.order = 0 := by
  have hdigits : d.mantissa.digits = d.digits := rfl
  rw [order, hdigits, mantissa]
  ring

theorem coefficient_trimmed_congr (h : 0 < d.coefficient) (q : ℤ) :
    (⟨d.coefficient, q⟩ : Decimal).trimmed.coefficient = d.trimmed.coefficient := by
  induction d, h using trimmed_induction generalizing q with
  | zero c p hc ih => rw [trimmed_ten_mul hc, trimmed_ten_mul hc, ih]
  | last d _ hd =>
    rw [trimmed_of_mod_ne_zero hd, trimmed_of_mod_ne_zero (d := ⟨d.coefficient, q⟩) hd]

/-- Dropping zeros at the end does not move the point of the mantissa. -/
theorem trimmed_mantissa (h : 0 < d.coefficient) : d.mantissa.trimmed = d.trimmed.mantissa := by
  have hcoefficient : d.mantissa.trimmed.coefficient = d.trimmed.coefficient :=
    coefficient_trimmed_congr h _
  have horder : d.mantissa.trimmed.order = 0 :=
    (order_trimmed (d := d.mantissa) h).trans d.order_mantissa
  have hdigits : d.mantissa.trimmed.digits = d.trimmed.digits :=
    congrArg (Nat.toDigits 10) hcoefficient
  have hexponent : d.mantissa.trimmed.exponent = 1 - d.trimmed.digits.length := by
    rw [order, hdigits] at horder
    omega
  have heta : d.mantissa.trimmed = ⟨d.mantissa.trimmed.coefficient, d.mantissa.trimmed.exponent⟩ :=
    rfl
  rw [heta, hcoefficient, hexponent, mantissa]

end Reckon.Decimal
