/-
  Rounding to a double.

  A number is rounded on the grid on which it has at most fifty-three bits, and at
  most 1074 of them behind the point.

  * `Represents em q`: the mantissa `em`, with its two bits for what lies behind it,
    is what is left of the number `q`;
  * `Nearest q r`: the natural number `r` is nearest to `q`, and even if there are
    two; `Represents.nearest` says that a mantissa is rounded so;
  * `Fits q t`: the number `q` is rounded to multiples of `2 ^ t`;
  * `Rounds q f`: the double `f` is the number `q` rounded so, and `Rounds.unique`
    says that there is only one;
  * `roundWithAccuracy_rounds`: this is how doubles are rounded.
-/
import Mathlib.Algebra.Order.Field.Power
import Mathlib.Algebra.Order.Field.Rat
import Mathlib.Tactic.FieldSimp
import Mathlib.Tactic.Linarith
import Mathlib.Tactic.NormNum
import Mathlib.Tactic.Positivity
import Mathlib.Tactic.Ring

namespace Reckon.Double

open Float.Model Float.Model.UnpackedFloat

variable {em : ExtendedMantissa} {q : ℚ} {m r : ℕ} {e t : ℤ} {a : Accuracy}

/-! ## Mantissas -/

/-- A mantissa and its two bits are what is left of a number, in units of its last
    place. -/
structure Represents (em : ExtendedMantissa) (q : ℚ) : Prop where
  le : em.mantissa ≤ q
  lt : q < em.mantissa + 1
  /-- The first bit says whether at least half a unit is lost, -/
  half : em.roundBit = true ↔ (em.mantissa : ℚ) + 1 / 2 ≤ q
  /-- and the second one whether anything is lost but that half. -/
  rest : em.stickyBit = false ↔ q = em.mantissa ∨ q = em.mantissa + 1 / 2

/-- The natural number nearest to a number, and even if two are equally near. -/
structure Nearest (q : ℚ) (r : ℕ) : Prop where
  near : |q - r| ≤ 1 / 2
  even : |q - r| = 1 / 2 → r % 2 = 0

@[simp] theorem mantissa_ofMantissaAndAccuracy (m : ℕ) (a : Accuracy) :
    (ExtendedMantissa.ofMantissaAndAccuracy m a).mantissa = m := by
  cases a with
  | exact => rfl
  | inexact o => cases o <;> rfl

theorem represents_exact (m : ℕ) :
    Represents (ExtendedMantissa.ofMantissaAndAccuracy m .exact) m where
  le := le_refl (m : ℚ)
  lt := lt_add_one (m : ℚ)
  half := by simp [ExtendedMantissa.ofMantissaAndAccuracy]
  rest := by simp [ExtendedMantissa.ofMantissaAndAccuracy]

theorem represents_inexact (m : ℕ) {x : ℚ} (h0 : 0 < x) (h1 : x < 1) {o : Ordering}
    (hlt : o = .lt ↔ x < 1 / 2) (heq : o = .eq ↔ x = 1 / 2) :
    Represents (ExtendedMantissa.ofMantissaAndAccuracy m (.inexact o)) (m + x) := by
  refine ⟨by simpa using h0.le, by simpa using h1, ?_, ?_⟩
  · rw [mantissa_ofMantissaAndAccuracy, add_le_add_iff_left, ← not_lt, ← hlt]
    cases o <;> simp [ExtendedMantissa.ofMantissaAndAccuracy]
  · rw [mantissa_ofMantissaAndAccuracy, add_eq_left, add_right_inj, ← heq]
    cases o <;> simp [ExtendedMantissa.ofMantissaAndAccuracy, h0.ne']

/-- The quotient of a division and what its remainder says. -/
theorem represents_fraction (num : ℕ) {den : ℕ} (hd : 0 < den) :
    Represents (ExtendedMantissa.ofMantissaAndAccuracy (num / den)
      (accuracyOfFraction (num % den) den)) (num / den) := by
  have hdq : (0 : ℚ) < den := by exact_mod_cast hd
  have hdiv : (den * (num / den : ℕ) + (num % den : ℕ) : ℚ) = num := by
    exact_mod_cast Nat.div_add_mod num den
  have hq : (num : ℚ) / den = (num / den : ℕ) + (num % den : ℕ) / den := by
    rw [← hdiv]
    field_simp
  rw [hq]
  unfold accuracyOfFraction
  split
  · next h =>
    rw [h, Nat.cast_zero, zero_div, add_zero]
    exact represents_exact _
  · next h =>
    have hpos : (0 : ℚ) < (num % den : ℕ) := by exact_mod_cast Nat.pos_of_ne_zero h
    refine represents_inexact _ (div_pos hpos hdq) ?_ ?_ ?_
    · rw [div_lt_one hdq]
      exact_mod_cast Nat.mod_lt num hd
    · rw [Nat.compare_eq_lt, div_lt_div_iff₀ hdq (by norm_num)]
      norm_cast
      omega
    · rw [Nat.compare_eq_eq, div_eq_div_iff hdq.ne' (by norm_num)]
      norm_cast
      omega

namespace Represents

/-- **A mantissa is rounded to the nearest natural number.** -/
theorem nearest (h : Represents em q) : Nearest q em.roundedMantissa := by
  obtain ⟨m, r, s⟩ := em
  obtain ⟨hle, hlt, hhalf, hrest⟩ := h
  dsimp only at hle hlt hhalf hrest
  cases r with
  | false =>
    have hlow : q < m + 1 / 2 := not_le.1 fun h => Bool.false_ne_true (hhalf.2 h)
    have habs : |q - m| < 1 / 2 := by
      rw [abs_lt]
      constructor <;> linarith
    have hround : ExtendedMantissa.roundedMantissa ⟨m, false, s⟩ = m := by cases s <;> rfl
    rw [hround]
    exact ⟨habs.le, fun heq => absurd heq habs.ne⟩
  | true =>
    have hhigh := hhalf.1 rfl
    cases s with
    | false =>
      have hq : q = m + 1 / 2 := (hrest.1 rfl).resolve_left (by linarith)
      subst hq
      change Nearest _ (m + m % 2)
      rcases Nat.mod_two_eq_zero_or_one m with hbit | hbit
      · rw [hbit]
        refine ⟨?_, fun _ => hbit⟩
        norm_num
      · rw [hbit]
        refine ⟨?_, fun _ => by omega⟩
        push_cast
        norm_num
    | true =>
      have hne : q ≠ m + 1 / 2 := fun heq => by cases hrest.2 (Or.inr heq)
      have hlow := lt_of_le_of_ne hhigh hne.symm
      have habs : |q - ((m + 1 : ℕ) : ℚ)| < 1 / 2 := by
        rw [abs_lt]
        push_cast
        constructor <;> linarith
      exact ⟨habs.le, fun heq => absurd heq habs.ne⟩

/-- Half a mantissa is what is left of half the number. -/
theorem shiftRightOne (h : Represents em q) : Represents em.shiftRightOne (q / 2) := by
  obtain ⟨m, r, s⟩ := em
  obtain ⟨hle, hlt, hhalf, hrest⟩ := h
  dsimp only at hle hlt hhalf hrest
  have hm : (2 : ℚ) * (m / 2 : ℕ) + (m % 2 : ℕ) = m := by exact_mod_cast Nat.div_add_mod m 2
  have hlost : (r || s) = false ↔ q = m := by
    rw [Bool.or_eq_false_iff, hrest, ← Bool.not_eq_true, hhalf]
    constructor
    · rintro ⟨hno, h | h⟩
      · exact h
      · exact absurd h.ge hno
    · intro h
      exact ⟨by linarith, Or.inl h⟩
  rcases Nat.mod_two_eq_zero_or_one m with hbit | hbit
  · rw [hbit, Nat.cast_zero, add_zero] at hm
    constructor <;> simp only [ExtendedMantissa.shiftRightOne, hbit]
    · linarith
    · linarith
    · simp
      linarith
    · rw [hlost]
      constructor
      · intro h
        left
        linarith
      · rintro (h | h)
        · linarith
        · linarith
  · rw [hbit, Nat.cast_one] at hm
    constructor <;> simp only [ExtendedMantissa.shiftRightOne, hbit]
    · linarith
    · linarith
    · simp
      linarith
    · rw [hlost]
      constructor
      · intro h
        right
        linarith
      · rintro (h | h)
        · linarith
        · linarith

theorem shiftRight (h : Represents em q) (n : ℕ) : Represents (em >>> n) (q / 2 ^ n) := by
  change Represents (n.repeat ExtendedMantissa.shiftRightOne em) _
  induction n with
  | zero => simpa [Nat.repeat] using h
  | succ n ih =>
    rw [Nat.repeat, pow_succ, ← div_div]
    exact ih.shiftRightOne

end Represents

/-! ## Grids -/

/-- A number is rounded to multiples of `2 ^ t`: it has at most fifty-three bits there,
    and no less unless there are no finer multiples. -/
structure Fits (q : ℚ) (t : ℤ) : Prop where
  least : -1074 ≤ t
  lt : q < 2 ^ (53 + t)
  full : t = -1074 ∨ 2 ^ (52 + t) ≤ q

theorem targetExponent_eq (m : ℕ) (e : ℤ) :
    Format.binary64.targetExponent (totalExponent m e) = max (m.log2 + e - 52) (-1074) := by
  change max ((m.log2 : ℤ) + 1 + e - (53 : ℕ)) (3 - 2 ^ 10 - (53 : ℕ)) = _
  omega

/-- **Shifting finds the grid of a number,** and what is left of it there. -/
theorem shiftToTargetExponent_fits
    (h : Represents (ExtendedMantissa.ofMantissaAndAccuracy m a) (q / 2 ^ e))
    (hm : 52 ≤ m.log2 ∨ e ≤ -1074) : ∃ em t,
      shiftToTargetExponent Format.binary64 m e a = (em, t) ∧ Fits q t ∧
        Represents em (q / 2 ^ t) := by
  set t := max (m.log2 + e - 52) (-1074) with ht
  obtain ⟨k, hk⟩ : ∃ k : ℕ, t = e + k := ⟨(t - e).toNat, by omega⟩
  have hshift : (t - e).toNat = k := by omega
  have hle := h.le
  have hlt := h.lt
  have hpos : (0 : ℚ) < 2 ^ e := by positivity
  rw [mantissa_ofMantissaAndAccuracy] at hle hlt
  rw [le_div_iff₀ hpos] at hle
  rw [div_lt_iff₀ hpos] at hlt
  refine ⟨ExtendedMantissa.ofMantissaAndAccuracy m a >>> k, t, ?_, ⟨by omega, ?_, ?_⟩, ?_⟩
  · rw [shiftToTargetExponent, targetExponent_eq, ← ht, shiftToExponent, hshift, hk]
  · have hsucc : (m + 1 : ℚ) ≤ 2 ^ (m.log2 + 1 : ℤ) := by
      exact_mod_cast Nat.lt_log2_self (n := m)
    calc q < (m + 1) * 2 ^ e := hlt
      _ ≤ 2 ^ (m.log2 + 1 : ℤ) * 2 ^ e := by gcongr
      _ = 2 ^ (m.log2 + 1 + e : ℤ) := by rw [← zpow_add₀ (by norm_num)]
      _ ≤ 2 ^ (53 + t) := zpow_le_zpow_right₀ (by norm_num) (by omega)
  · by_cases hmin : t = -1074
    · exact Or.inl hmin
    · right
      have hne : m ≠ 0 := by
        rintro rfl
        rw [Nat.log2_zero] at hm ht
        omega
      have hlow : (2 : ℚ) ^ (m.log2 : ℤ) ≤ m := by exact_mod_cast Nat.log2_self_le hne
      have hexp : 52 + t = m.log2 + e := by omega
      calc (2 : ℚ) ^ (52 + t) = 2 ^ (m.log2 : ℤ) * 2 ^ e := by
            rw [hexp, zpow_add₀ (by norm_num)]
        _ ≤ m * 2 ^ e := by gcongr
        _ ≤ q := hle
  · have hq : q / 2 ^ t = q / 2 ^ e / 2 ^ k := by
      rw [hk, zpow_add₀ (by norm_num), zpow_natCast, div_div]
    rw [hq]
    exact h.shiftRight k

theorem Nearest.le (h : Nearest q r) {r' : ℕ} (h' : Nearest q r') : r' ≤ r := by
  have hnear := abs_le.1 h.near
  have hnear' := abs_le.1 h'.near
  by_contra hlt
  -- The two lie half a unit away on either side, and only one of them is even.
  have hsucc : (r : ℚ) + 1 ≤ r' := by exact_mod_cast Nat.not_le.1 hlt
  have hr := h.even (by rw [abs_of_nonneg] <;> linarith)
  have hr' := h'.even (by rw [abs_of_nonpos] <;> linarith)
  have hcast : r' = r + 1 := by exact_mod_cast (by linarith : (r' : ℚ) = r + 1)
  omega

theorem Nearest.unique (h : Nearest q r) {r' : ℕ} (h' : Nearest q r') : r = r' :=
  le_antisymm (h'.le h) (h.le h')

theorem Fits.le (h : Fits q t) {t' : ℤ} (h' : Fits q t') : t' ≤ t := by
  by_contra hlt
  have hleast := h.least
  have hfull := h'.full.resolve_left (by omega)
  have hpow : (2 : ℚ) ^ (53 + t) ≤ 2 ^ (52 + t') :=
    zpow_le_zpow_right₀ (by norm_num) (by omega)
  exact absurd h.lt (not_lt.2 (hpow.trans hfull))

theorem Fits.unique (h : Fits q t) {t' : ℤ} (h' : Fits q t') : t = t' :=
  le_antisymm (h'.le h) (h.le h')

/-! ## Rounding -/

/-- The double of a rounded mantissa, which may have carried into one bit more. -/
def carried (s : UnpackedFloat.Sign) (r : ℕ) (t : ℤ) : UnpackedFloat :=
  if h : r = 0 then .zero s
  else if r < 2 ^ 53 then .finite s r t (Nat.pos_of_ne_zero h)
  else .finite s (2 ^ 52) (t + 1) (by decide)

/-- A number rounded to a double, without regard to the greatest one. -/
def Rounds (q : ℚ) (f : UnpackedFloat) : Prop :=
  ∃ r t, Fits q t ∧ Nearest (q / 2 ^ t) r ∧ f = carried .positive r t

/-- **A number is rounded to one double.** -/
theorem Rounds.unique {f g : UnpackedFloat} (hf : Rounds q f) (hg : Rounds q g) : f = g := by
  obtain ⟨r, t, ht, hr, rfl⟩ := hf
  obtain ⟨r', t', ht', hr', rfl⟩ := hg
  obtain rfl := ht.unique ht'
  obtain rfl := hr.unique hr'
  rfl

theorem shiftToTargetExponent_of_lt (hr : r < 2 ^ 53) (ht : -1074 ≤ t) :
    shiftToTargetExponent Format.binary64 r t .exact = (⟨r, false, false⟩, t) := by
  have hlog : r.log2 ≤ 52 := by
    rcases Nat.eq_zero_or_pos r with rfl | hpos
    · simp
    · have := (Nat.log2_lt hpos.ne').2 hr
      omega
  have hk : (max (r.log2 + t - 52) (-1074) - t).toNat = 0 := by omega
  rw [shiftToTargetExponent, targetExponent_eq, shiftToExponent, hk, Int.natCast_zero, add_zero]
  rfl

theorem shiftToTargetExponent_carry (ht : -1074 ≤ t) :
    shiftToTargetExponent Format.binary64 (2 ^ 53) t .exact =
      (⟨2 ^ 52, false, false⟩, t + 1) := by
  have hk : (max (((2 ^ 53 : ℕ).log2 : ℤ) + t - 52) (-1074) - t).toNat = 1 := by
    rw [Nat.log2_two_pow]
    omega
  rw [shiftToTargetExponent, targetExponent_eq, shiftToExponent, hk]
  rfl

theorem Nearest.le_of_lt {n : ℕ} (h : Nearest q r) (hq : q < n) : r ≤ n := by
  have hnear := (abs_le.1 h.near).1
  have hlt : (r : ℚ) < n + 1 := by linarith
  exact Nat.lt_succ_iff.1 (by exact_mod_cast hlt)

/-- A mantissa on the grid of its number has at most one bit too many when rounded. -/
theorem Fits.rounded_le (h : Fits q t) (hr : Nearest (q / 2 ^ t) r) : r ≤ 2 ^ 53 := by
  refine hr.le_of_lt ?_
  have hlt := h.lt
  rw [zpow_add₀ (by norm_num)] at hlt
  rw [div_lt_iff₀ (by positivity)]
  exact_mod_cast hlt

/-- **Doubles are rounded to the nearest multiple on the grid of their number.** -/
theorem roundWithAccuracy_rounds
    (h : Represents (ExtendedMantissa.ofMantissaAndAccuracy m a) (q / 2 ^ e))
    (hm : 52 ≤ m.log2 ∨ e ≤ -1074) :
    Rounds q (roundWithAccuracy Format.binary64 .positive m e a) := by
  obtain ⟨em, t, hshift, hfits, hem⟩ := shiftToTargetExponent_fits h hm
  have hnear := hem.nearest
  have hle := hfits.rounded_le hnear
  refine ⟨em.roundedMantissa, t, hfits, hnear, ?_⟩
  rw [roundWithAccuracy, hshift]
  dsimp only
  rw [carried]
  rcases Nat.lt_or_ge em.roundedMantissa (2 ^ 53) with hlt | hge
  · rw [shiftToTargetExponent_of_lt hlt hfits.least]
    rcases Nat.eq_zero_or_pos em.roundedMantissa with hzero | hpos
    · rw [dif_pos hzero, dif_pos hzero]
    · rw [dif_neg hpos.ne', dif_neg hpos.ne', if_pos hlt]
  · have heq : em.roundedMantissa = 2 ^ 53 := by omega
    rw [heq, shiftToTargetExponent_carry hfits.least, dif_neg (by norm_num),
      dif_neg (by norm_num), if_neg (by norm_num)]

end Reckon.Double
