/-
  What the text of a result denotes.

  * `Datum.value?` is the number that a double stands for, and `exists_ofFloat_of_isFinite`: there
    is one for each finite double;
  * `Whole v`: the number `v` is whole and has fifteen digits at most;
  * `Shows v m`: a numeral shows a whole number of so many digits as it is, and any other
    number rounded to twelve digits, with an exponent if that is less than -5 or greater than
    eleven;
  * `result_denotes`: the text of a finite result is that of a numeral that shows it.
-/
import Reckon.Proofs.Number.Numeral

namespace Reckon

open Decimal Double

/-- The number that a datum stands for. -/
def Decimal.Datum.value? : Datum → Option ℚ
  | .finite negative d => some (Number.signFactor negative * d.value)
  | _ => none

namespace Number

variable {v : ℚ} {n : ℕ} {d : Magnitude} {x : Float}

/-! ## The number of a double -/

theorem exists_ofFloat_of_isFinite (h : x.isFinite = true) :
    ∃ negative d, Datum.ofFloat x = .finite negative d := by
  have hunpack : x.toModel.unpack.isFinite = true := h
  rw [unpack_eq] at hunpack
  cases hx : Datum.ofFloat x with
  | finite negative d => exact ⟨negative, d, rfl⟩
  | nan | infinite _ =>
    rw [hx] at hunpack
    cases hunpack

theorem abs_signFactor_mul (negative : Bool) {q : ℚ} (h : 0 ≤ q) :
    |signFactor negative * q| = q := by
  cases negative <;> simp [signFactor, abs_of_nonneg h]

/-- A magnitude is a whole number just if it is its numerator over its denominator. -/
theorem whole?_eq_some_iff : d.whole? = some n ↔ d.value = n := by
  have hd := d.denominator_pos
  have hdq : (0 : ℚ) < d.denominator := by exact_mod_cast hd
  rw [← d.numerator_div_denominator, div_eq_iff hdq.ne', Magnitude.whole?]
  constructor
  · intro h
    split at h
    · next hmod =>
      cases h
      exact_mod_cast (Nat.div_mul_cancel (Nat.dvd_of_mod_eq_zero hmod)).symm
    · cases h
  · intro h
    have hnum : d.numerator = n * d.denominator := by exact_mod_cast h
    rw [hnum, Nat.mul_mod_left, if_pos rfl, Nat.mul_div_cancel _ hd]

/-! ## What a numeral shows -/

/-- A whole number of fifteen digits at most. -/
def Whole (v : ℚ) : Prop := (∃ z : ℤ, v = z) ∧ |v| < 10 ^ 15

/-- A numeral shows a number: as it is if it is whole and has few digits, and rounded to twelve
    digits if not, by position or with an exponent. -/
structure Shows (v : ℚ) (m : Numeral) : Prop where
  canonical : m.Canonical
  whole : Whole v → m.value = v ∧ m.exponent = none
  rounded : ¬ Whole v → RoundsTo 12 v m.value ∧ ∃ e : ℤ, 10 ^ e ≤ |m.value| ∧
    |m.value| < 10 ^ (e + 1) ∧ m.exponent = if -5 ≤ e ∧ e ≤ 11 then none else some e

/-- The whole numbers of few digits. -/
theorem whole_signFactor_mul_iff (negative : Bool) :
    Whole (signFactor negative * d.value) ↔ ∃ n < wholeBound, d.whole? = some n := by
  have hnonneg : 0 ≤ d.value := by
    rw [Magnitude.value]
    positivity
  have hbound : ∀ n : ℕ, (n : ℚ) < 10 ^ 15 ↔ n < wholeBound := by
    intro n
    rw [wholeBound, ← Nat.cast_lt (α := ℚ)]
    norm_num
  simp only [whole?_eq_some_iff, Whole, abs_signFactor_mul negative hnonneg]
  constructor
  · rintro ⟨⟨z, hz⟩, hlt⟩
    have hvalue : d.value = z.natAbs := by
      rw [← abs_signFactor_mul negative hnonneg, hz, Nat.cast_natAbs, Int.cast_abs]
    rw [hvalue] at hlt
    exact ⟨z.natAbs, (hbound _).1 hlt, hvalue⟩
  · rintro ⟨n, hn, hvalue⟩
    rw [hvalue]
    refine ⟨⟨if negative then -n else n, ?_⟩, (hbound n).2 hn⟩
    cases negative <;> simp [signFactor]

theorem resultMagnitude_of_whole? (h : d.whole? = some n) (hn : n < wholeBound) :
    resultMagnitude d = Nat.toDigits 10 n := by
  rw [resultMagnitude, h]
  exact if_pos hn

theorem resultMagnitude_of_not_whole (h : ¬ ∃ n < wholeBound, d.whole? = some n) :
    resultMagnitude d = resultLayout.write
      (significant resultDigits .toEven d.numerator d.denominator).trimmed := by
  rw [resultMagnitude]
  cases hd : d.whole? with
  | none => rfl
  | some n => exact if_neg fun hn => h ⟨n, hn, hd⟩

/-- Zero is shown without its sign. -/
theorem exists_shows_zero : ∃ m : Numeral, m.text = ['0'] ∧ Shows 0 m := by
  have hdigits : ofDigits ['0'] = 0 := rfl
  refine ⟨⟨false, ['0'], [], none, by simp, by simp [IsDigits], by simp [IsDigits]⟩, rfl,
    ⟨by simp, Or.inl rfl, by simp, by simp⟩, fun _ => ⟨?_, rfl⟩, fun h => ?_⟩
  · simp [Numeral.value, hdigits]
  · exact absurd ⟨⟨0, by simp⟩, by simp⟩ h

/-- A whole number of few digits is written in full. -/
theorem exists_shows_whole (negative : Bool) (h0 : 0 < n) (hn : n < wholeBound)
    (hwhole : d.whole? = some n) : ∃ m : Numeral,
    m.text = minus negative ++ Nat.toDigits 10 n ∧ Shows (signFactor negative * d.value) m := by
  have hvalue := whole?_eq_some_iff.1 hwhole
  obtain ⟨m, htext, hcanonical, hm, hexponent⟩ := exists_numeral (D := ⟨n, 0⟩)
    (w := Nat.toDigits 10 n) (f := []) (x := none) negative Nat.toDigits_ne_nil
    (isDigits_toDigits n) (by simp [IsDigits]) (by simp) (Or.inr (head_toDigits h0)) (by simp) h0
    (by simp [Decimal.value])
  refine ⟨m, ?_, hcanonical, fun _ => ⟨?_, hexponent⟩, fun h => ?_⟩
  · rw [htext]
    simp [pointText, markedText]
  · rw [hm, hvalue]
    simp [Decimal.value]
  · exact absurd ((whole_signFactor_mul_iff negative).2 ⟨n, hn, hwhole⟩) h

theorem roundsTo_signFactor_mul (negative : Bool) {q w : ℚ} (h : RoundsTo n q w) :
    RoundsTo n (signFactor negative * q) (signFactor negative * w) := by
  cases negative
  · simpa [signFactor] using h
  · simpa [signFactor] using h.neg

/-- Any other number is rounded to twelve digits. -/
theorem exists_shows_rounded (negative : Bool) (h0 : 0 < d.significand)
    (hwhole : ¬ Whole (signFactor negative * d.value)) : ∃ m : Numeral,
    m.text = minus negative ++ resultLayout.write
      (significant resultDigits .toEven d.numerator d.denominator).trimmed ∧
      Shows (signFactor negative * d.value) m := by
  have hnum := numerator_pos h0
  have hrounds := roundsTo_significant hnum d.denominator_pos 11
  have hpos : 0 < (significant resultDigits .toEven d.numerator d.denominator).coefficient :=
    (Nat.pow_pos (by decide)).trans_le
      (coefficient_significant_bounds hnum d.denominator_pos 11).1
  rw [d.numerator_div_denominator] at hrounds
  change RoundsTo 12 d.value
    (significant resultDigits .toEven d.numerator d.denominator).value at hrounds
  generalize significant resultDigits .toEven d.numerator d.denominator = s at *
  rw [← s.value_trimmed] at hrounds
  have hlast := coefficient_trimmed_mod hpos
  obtain ⟨hlow, hhigh⟩ := order_spec (coefficient_trimmed_pos hpos)
  have habs := abs_signFactor_mul negative (value_pos (coefficient_trimmed_pos hpos)).le
  -- The order of the rounded number decides between the two notations.
  have hshows : ∀ m : Numeral, m.Canonical → m.value = signFactor negative * s.trimmed.value →
      (m.exponent = if -5 ≤ s.trimmed.order ∧ s.trimmed.order ≤ 11 then none
        else some s.trimmed.order) → Shows (signFactor negative * d.value) m := by
    intro m hcanonical hm hexponent
    refine ⟨hcanonical, fun h => absurd h hwhole, fun _ => ⟨?_, s.trimmed.order, ?_, ?_, hexponent⟩⟩
    · rw [hm]
      exact roundsTo_signFactor_mul negative hrounds
    · rwa [hm, habs]
    · rwa [hm, habs]
  have htwelve : (resultDigits : ℤ) = 12 := rfl
  rw [write_resultLayout]
  split
  · next h =>
    obtain ⟨m, htext, hcanonical, hm, hexponent⟩ := exists_scientific negative hlast
    refine ⟨m, htext, hshows m hcanonical hm ?_⟩
    rw [hexponent, if_neg (by omega)]
  · next h =>
    obtain ⟨m, htext, hcanonical, hm, hexponent⟩ := exists_positional negative hlast
    refine ⟨m, htext, hshows m hcanonical hm ?_⟩
    rw [hexponent, if_pos (by omega)]

/-- **The text of a finite result shows its number.** A whole number of fifteen digits at most is
    written as it is, and any other number rounded to twelve digits: by position if the first of
    them is at most five places behind the point and at most twelve before it, and with an
    exponent if not. No text ends with a zero behind the point or with the point, none lacks a
    zero before it, and none is that of a zero with a sign. Working the text out step by step,
    and rounding twice, gives the same one. -/
theorem result_denotes {x : Float} (hfin : x.isFinite = true) :
    ∃ (v : ℚ) (m : Numeral), (Datum.ofFloat x).value? = some v ∧
      (result x).toList = m.text ∧ Shows v m ∧ (result x).toList.getLast? ≠ some '.' ∧
      result x ≠ "-0" ∧ resultInSteps x = result x := by
  obtain ⟨negative, d, hx⟩ := exists_ofFloat_of_isFinite hfin
  suffices h : ∃ m : Numeral, (result x).toList = m.text ∧
      Shows (signFactor negative * d.value) m by
    obtain ⟨m, htext, hshows⟩ := h
    refine ⟨_, m, by rw [hx]; rfl, htext, hshows, ?_, fun heq => ?_, resultInSteps_eq x⟩
    · rw [htext]
      exact m.getLast_text_ne
    · rw [heq] at htext
      exact hshows.canonical.text_ne htext.symm
  rw [result, hx]
  dsimp only
  by_cases h0 : d.significand = 0
  · obtain ⟨m, htext, hshows⟩ := exists_shows_zero
    have hvalue : signFactor negative * d.value = 0 := by simp [Magnitude.value, h0]
    rw [if_pos h0, hvalue]
    exact ⟨m, htext.symm, hshows⟩
  · have hpos := Nat.pos_of_ne_zero h0
    rw [if_neg h0, String.toList_ofList]
    by_cases hwhole : Whole (signFactor negative * d.value)
    · obtain ⟨n, hn, hd⟩ := (whole_signFactor_mul_iff negative).1 hwhole
      have hn0 : 0 < n := by
        have hvalue := whole?_eq_some_iff.1 hd
        have hvalue0 : 0 < d.value := by
          rw [Magnitude.value]
          positivity
        rw [hvalue] at hvalue0
        exact_mod_cast hvalue0
      obtain ⟨m, htext, hshows⟩ := exists_shows_whole negative hn0 hn hd
      rw [resultMagnitude_of_whole? hd hn]
      exact ⟨m, htext.symm, hshows⟩
    · obtain ⟨m, htext, hshows⟩ := exists_shows_rounded negative hpos hwhole
      rw [resultMagnitude_of_not_whole fun h => hwhole ((whole_signFactor_mul_iff negative).2 h)]
      exact ⟨m, htext.symm, hshows⟩

/-- Where rounding carries into a new power of ten, that decides. -/
theorem result_denotes_carry : (999999999999.9 : Float).isFinite = true ∧
    ∃ v m, (Datum.ofFloat 999999999999.9).value? = some v ∧ "1e12".toList = m.text ∧
      Shows v m := by
  have hfin : (999999999999.9 : Float).isFinite = true := by rfl
  have hresult : result 999999999999.9 = "1e12" := by decide +kernel
  obtain ⟨v, m, hv, htext, hshows, -⟩ := result_denotes hfin
  rw [hresult] at htext
  exact ⟨hfin, v, m, hv, htext, hshows⟩

end Number

end Reckon
