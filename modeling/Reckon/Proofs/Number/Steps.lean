/-
  Results step by step.

  A result can also be worked out on texts: the number is written with twelve digits and an
  exponent; the exponent is read back from this text; where it is neither too small nor too
  great, the number is written once more, with as many places as the exponent leaves; and the
  zeros at the end are cut off the text.

  * `trimFraction` cuts zeros off a text, `splitAtMark` splits one, and `exponent?` reads an
    exponent, if it is one and fits in thirty-two bits;
  * `resultInSteps` is the result that is worked out so;
  * `trimFraction_positional`: cutting zeros off a text is dropping them from its decimal;
  * `exponent?_exponentText`: an exponent is read back from its text, and
    `order_bounds`: that of a double fits;
  * `resultInSteps_eq`: no step fails, both roundings agree, and the result is
    `Number.result`.
-/
import Mathlib.Data.List.DropRight
import Reckon.Proofs.Number.Layout
import Reckon.Proofs.Number.Packing
import Reckon.Proofs.Number.Significant

namespace Reckon.Number

open Decimal Double

/-! ## Steps on texts -/

/-- A text without the zeros at the end of its fraction, and without a point that nothing is
    left behind. -/
def trimFraction (text : List Char) : List Char :=
  if '.' ∈ text then (text.rdropWhile (· == '0')).rdropWhile (· == '.') else text

/-- What stands before and behind the first of some marks in a text. -/
def splitAtMark (mark : Char) (text : List Char) : Option (List Char × List Char) :=
  match text.dropWhile (· != mark) with
  | [] => none
  | _ :: behind => some (text.takeWhile (· != mark), behind)

/-- The sign of an exponent, and what is behind it. -/
def splitSign : List Char → Bool × List Char
  | '-' :: ds => (true, ds)
  | '+' :: ds => (false, ds)
  | ds => (false, ds)

/-- The number that an exponent writes, if it has thirty-two bits. -/
def exponent? (text : List Char) : Option ℤ :=
  let (negative, ds) := splitSign text
  let e : ℤ := if negative then -ofDigits ds else ofDigits ds
  if ds ≠ [] ∧ ds.all Char.isDigit = true ∧ -2147483648 ≤ e ∧ e < 2147483648 then some e else none

/-- A number rounded to twelve digits. -/
def twelveDigits (d : Magnitude) : Decimal :=
  normalized resultDigits (significant resultDigits .toEven d.numerator d.denominator)

/-- A number with twelve digits and an exponent. -/
def scientificText (negative : Bool) (d : Magnitude) : List Char :=
  minus negative ++ (twelveDigits d).scientific []

/-- A number with some digits behind the point. -/
def placesText (n : ℕ) (negative : Bool) (d : Magnitude) : List Char :=
  minus negative ++ (places n .toEven d.numerator d.denominator).positional []

/-- A number with an exponent where that is less than -5 or at least twelve, and by position
    anywhere else. There is none if the exponent is not read back. -/
def roundedText? (negative : Bool) (d : Magnitude) : Option (List Char) :=
  match splitAtMark 'e' (scientificText negative d) with
  | none => none
  | some (mantissa, exponent) =>
    match exponent? exponent with
    | none => none
    | some e =>
      if e < -5 ∨ (resultDigits : ℤ) ≤ e then some (trimFraction mantissa ++ 'e' :: exponentText e)
      else some (trimFraction (placesText (resultDigits - 1 - e).toNat negative d))

/-- The result of an expression, step by step. -/
def resultInSteps (x : Float) : String :=
  match Datum.ofFloat x with
  | .finite negative d =>
    if d.significand = 0 then "0"
    else match d.whole?.filter (· < wholeBound) with
      | some n => String.ofList (minus negative ++ Nat.toDigits 10 n)
      | none => ((roundedText? negative d).map String.ofList).getD (plain x)
  | _ => plain x

/-! ## Cutting off zeros -/

theorem not_mem_of_isDigits {w : List Char} {c : Char} (hw : IsDigits w)
    (hc : c.isDigit = false) : c ∉ w := by
  intro h
  rw [hw c h] at hc
  cases hc

theorem not_mem_minus {c : Char} (hc : c ≠ '-') (negative : Bool) : c ∉ minus negative := by
  cases negative <;> simp [minus, hc]

theorem ne_point_of_isDigit {c : Char} (hc : c.isDigit = true) : c ≠ '.' := by
  rintro rfl
  cases hc

theorem trimFraction_append_zero {text : List Char} (h : '.' ∈ text) :
    trimFraction (text ++ ['0']) = trimFraction text := by
  rw [trimFraction, trimFraction, if_pos h, if_pos (List.mem_append_left _ h),
    List.rdropWhile_concat_pos _ _ _ rfl]

theorem trimFraction_append_digit {c : Char} (hc : c.isDigit = true) (hne : c ≠ '0')
    (text : List Char) : trimFraction (text ++ [c]) = text ++ [c] := by
  unfold trimFraction
  split
  · rw [List.rdropWhile_concat_neg _ _ _ (by simpa using hne),
      List.rdropWhile_concat_neg _ _ _ (by simpa using ne_point_of_isDigit hc)]
  · rfl

theorem trimFraction_append_point {c : Char} (hc : c.isDigit = true) (text : List Char) :
    trimFraction (text ++ [c] ++ ['.', '0']) = text ++ [c] := by
  have hsplit : text ++ [c] ++ ['.', '0'] = text ++ [c] ++ ['.'] ++ ['0'] := by simp
  rw [hsplit, trimFraction, if_pos (by simp), List.rdropWhile_concat_pos _ _ _ rfl,
    List.rdropWhile_concat_neg _ _ _ (by simp), List.rdropWhile_concat_pos _ _ _ rfl,
    List.rdropWhile_concat_neg _ _ _ (by simpa using ne_point_of_isDigit hc)]

/-- The text of a decimal ends with its last digit, unless zeros are put behind that. -/
theorem exists_positional_eq {d : Decimal} (h : d.exponent ≤ 0) :
    ∃ w c, d.positional [] = w ++ [c] ∧ d.digits.getLast? = some c := by
  rcases d.exponent_cases with ⟨n, hn⟩ | ⟨a, b, hab, ha, hb, he⟩ | ⟨k, hk⟩
  · obtain rfl : n = 0 := by omega
    refine ⟨d.digits.dropLast, d.digits.getLast d.digits_ne_nil, ?_,
      List.getLast?_eq_some_getLast _⟩
    rw [positional_of_nonneg hn, List.dropLast_append_getLast]
    exact List.append_nil _
  · refine ⟨a ++ '.' :: b.dropLast, b.getLast hb, ?_, ?_⟩
    · rw [positional_of_split hab ha hb he, List.append_assoc, List.cons_append,
        List.dropLast_append_getLast]
    · rw [hab, List.getLast?_append_of_ne_nil _ hb, List.getLast?_eq_some_getLast]
  · refine ⟨'0' :: '.' :: (zeros k ++ d.digits.dropLast), d.digits.getLast d.digits_ne_nil, ?_,
      List.getLast?_eq_some_getLast _⟩
    rw [positional_of_zeros hk, List.cons_append, List.cons_append, List.append_assoc,
      List.dropLast_append_getLast]

theorem not_mem_positional {d : Decimal} (h : 0 ≤ d.exponent) : '.' ∉ d.positional [] := by
  rw [positional_of_nonneg (n := d.exponent.toNat) (by omega)]
  exact not_mem_of_isDigits (d.isDigits_digits.append (isDigits_zeros _)) rfl

/-- **Cutting zeros off a text is dropping them from its decimal.** -/
theorem trimFraction_positional {front : List Char} (hfront : '.' ∉ front) {d : Decimal}
    (h : 0 < d.coefficient) :
    trimFraction (front ++ d.positional []) = front ++ d.trimmed.positional [] := by
  have hwhole : ∀ d : Decimal, 0 ≤ d.exponent →
      trimFraction (front ++ d.positional []) = front ++ d.positional [] := fun d hd =>
    if_neg fun hmem => (List.mem_append.1 hmem).elim hfront (not_mem_positional hd)
  induction d, h using trimmed_induction with
  | last d _ hd =>
    rw [trimmed_of_mod_ne_zero hd]
    rcases le_total 0 d.exponent with hp | hp
    · exact hwhole d hp
    · obtain ⟨w, c, hw, hc⟩ := exists_positional_eq hp
      have hdigit : c.isDigit = true := d.isDigits_digits c (List.mem_of_getLast? hc)
      rw [hw, ← List.append_assoc]
      exact trimFraction_append_digit hdigit (getLast_toDigits hd c hc) _
  | zero c p hc ih =>
    rw [trimmed_ten_mul hc, ← ih]
    obtain hp | rfl | hp : 0 ≤ p ∨ p = -1 ∨ p < -1 := by omega
    · rw [positional_ten_mul_of_nonneg hc hp]
    · -- The point goes as well, since nothing is left behind it.
      obtain ⟨w, last, hw, hlast⟩ := exists_positional_eq (d := ⟨c, 0⟩) (le_refl 0)
      have hdigit : last.isDigit = true := isDigits_digits _ last (List.mem_of_getLast? hlast)
      rw [positional_ten_mul_neg_one hc, hwhole ⟨c, -1 + 1⟩ (le_refl 0)]
      change trimFraction (front ++ ((⟨c, 0⟩ : Decimal).positional [] ++ _)) =
        front ++ (⟨c, 0⟩ : Decimal).positional []
      rw [hw, ← List.append_assoc, ← List.append_assoc, trimFraction_append_point hdigit]
    · obtain ⟨happend, hmem⟩ := positional_ten_mul_of_lt hc hp
      rw [happend, ← List.append_assoc, trimFraction_append_zero (List.mem_append_right _ hmem)]

/-! ## Reading exponents back -/

theorem splitAtMark_append {mark : Char} {before : List Char} (h : mark ∉ before)
    (behind : List Char) : splitAtMark mark (before ++ mark :: behind) = some (before, behind) := by
  have hbefore : ∀ c ∈ before, (c != mark) = true := by
    intro c hc
    rw [bne_iff_ne]
    rintro rfl
    exact h hc
  rw [splitAtMark, List.dropWhile_append_of_pos hbefore, List.takeWhile_append_of_pos hbefore]
  simp

theorem splitSign_of_isDigits {ds : List Char} (h : IsDigits ds) : splitSign ds = (false, ds) := by
  unfold splitSign
  split
  · have hdigit : ('-' : Char).isDigit = true := h _ List.mem_cons_self
    cases hdigit
  · have hdigit : ('+' : Char).isDigit = true := h _ List.mem_cons_self
    cases hdigit
  · rfl

theorem splitSign_exponentText (e : ℤ) :
    splitSign (exponentText e) = (decide (e < 0), Nat.toDigits 10 e.natAbs) := by
  rw [exponentText]
  split
  · next h => simp [splitSign, h]
  · next h =>
    rw [List.nil_append, splitSign_of_isDigits (isDigits_toDigits _), decide_eq_false h]

/-- **An exponent is read back from its text.** -/
theorem exponent?_exponentText {e : ℤ} (hlow : -2147483648 ≤ e) (hhigh : e < 2147483648) :
    exponent? (exponentText e) = some e := by
  have hvalue : (if decide (e < 0) = true then -((e.natAbs : ℕ) : ℤ) else (e.natAbs : ℕ)) = e := by
    simp only [decide_eq_true_eq]
    split <;> omega
  have hdigits : (Nat.toDigits 10 e.natAbs).all Char.isDigit = true :=
    List.all_eq_true.2 (isDigits_toDigits _)
  rw [exponent?, splitSign_exponentText]
  simp only [ofDigits_toDigits, hvalue]
  exact if_pos ⟨Nat.toDigits_ne_nil, hdigits, hlow, hhigh⟩

/-! ## Twelve digits -/

variable {d : Magnitude}

/-- The order of a double has few digits. -/
theorem order_bounds (hd : IsDouble d) (h0 : 0 < d.significand) :
    -1075 < orderOf d.numerator d.denominator ∧ orderOf d.numerator d.denominator < 1024 := by
  have hnum : 0 < d.numerator := Nat.mul_pos h0 (power_pos (by decide) _)
  have hle := le_orderOf hnum d.denominator_pos
  have hlt := lt_orderOf d.numerator d.denominator_pos
  rw [d.numerator_div_denominator, Magnitude.value] at hle hlt
  constructor
  · have hone : (1 : ℚ) ≤ d.significand := by exact_mod_cast h0
    have hvalue : (10 : ℚ) ^ (-1074 : ℤ) ≤ d.significand * 2 ^ d.exponent := by
      calc (10 : ℚ) ^ (-1074 : ℤ) ≤ 1 * 2 ^ (-1074 : ℤ) := by
            rw [zpow_neg, zpow_neg, one_mul]
            exact inv_anti₀ (by positivity) (zpow_le_zpow_left₀ (by norm_num) (by norm_num)
              (by norm_num))
        _ ≤ d.significand * 2 ^ d.exponent :=
          mul_le_mul hone (zpow_le_zpow_right₀ (by norm_num) hd.least) (by positivity)
            (by positivity)
    have h := le_of_zpow_le hvalue hlt
    omega
  · have hsmall : (d.significand : ℚ) < 2 ^ (53 : ℤ) := by exact_mod_cast hd.lt
    have hvalue : (d.significand : ℚ) * 2 ^ d.exponent < 10 ^ (1024 : ℤ) := by
      calc (d.significand : ℚ) * 2 ^ d.exponent < 2 ^ (53 : ℤ) * 2 ^ d.exponent := by gcongr
        _ ≤ 2 ^ (53 : ℤ) * 2 ^ (971 : ℤ) := by
          gcongr
          · norm_num
          · exact hd.greatest
        _ = 2 ^ (1024 : ℤ) := (zpow_add₀ (by norm_num) _ _).symm
        _ ≤ 10 ^ (1024 : ℤ) := zpow_le_zpow_left₀ (by norm_num) (by norm_num) (by norm_num)
    have h := le_of_zpow_le (j := 1023) hle hvalue
    omega

section

variable (h0 : 0 < d.significand)
include h0

theorem numerator_pos : 0 < d.numerator := Nat.mul_pos h0 (power_pos (by decide) _)

theorem coefficient_twelveDigits :
    10 ^ 11 ≤ (twelveDigits d).coefficient ∧ (twelveDigits d).coefficient < 10 ^ 12 := by
  obtain ⟨hlow, hhigh⟩ := coefficient_significant_bounds (numerator_pos h0) d.denominator_pos 11
  unfold twelveDigits normalized
  split
  · simp [resultDigits]
  · next hne => exact ⟨hlow, Nat.lt_of_le_of_ne hhigh hne⟩

theorem order_twelveDigits : (twelveDigits d).order = (twelveDigits d).exponent + 11 := by
  obtain ⟨hlow, hhigh⟩ := coefficient_twelveDigits h0
  rw [order, length_digits_eq hlow hhigh]
  push_cast
  ring

omit h0 in
theorem trimmed_twelveDigits : (twelveDigits d).trimmed =
    (significant resultDigits .toEven d.numerator d.denominator).trimmed := by
  unfold twelveDigits normalized
  generalize significant resultDigits .toEven d.numerator d.denominator = s
  obtain ⟨c, p⟩ := s
  split
  · next h =>
    dsimp only at h
    subst h
    exact (trimmed_ten_mul (c := 10 ^ 11) (by decide) p).symm
  · rfl

omit h0 in
/-- Rounding may carry into the next power of ten. -/
theorem exponent_twelveDigits (d : Magnitude) :
    (twelveDigits d).exponent = orderOf d.numerator d.denominator - 11 ∨
      (twelveDigits d).exponent = orderOf d.numerator d.denominator - 11 + 1 := by
  have hexp : (significant resultDigits .toEven d.numerator d.denominator).exponent =
      orderOf d.numerator d.denominator - 11 := (nearest_significant d.denominator_pos 11).1
  unfold twelveDigits normalized
  split
  · exact Or.inr (congrArg (· + 1) hexp)
  · exact Or.inl hexp

/-- **Rounding to the places of the twelve digits gives these digits again.** -/
theorem places_twelveDigits {m : ℕ} (h : (twelveDigits d).exponent = -(m : ℤ)) :
    places m .toEven d.numerator d.denominator = twelveDigits d :=
  places_normalized (n := 11) (numerator_pos h0) d.denominator_pos h

end

/-! ## All steps -/

theorem not_mem_positional_of_ne {c : Char} (hc : c.isDigit = false) (hpoint : c ≠ '.')
    (D : Decimal) : c ∉ D.positional [] := by
  rcases D.positional_cases with ⟨n, -, h⟩ | ⟨w, f, h, -, hw, hf, -⟩
  · rw [h]
    exact not_mem_of_isDigits (D.isDigits_digits.append (isDigits_zeros n)) hc
  · rw [h, List.mem_append, List.mem_cons]
    rintro (hmem | heq | hmem)
    · exact not_mem_of_isDigits hw hc hmem
    · exact hpoint heq
    · exact not_mem_of_isDigits hf hc hmem

/-- A number with exponent is split into its mantissa and its order. -/
theorem splitAtMark_scientific (negative : Bool) (D : Decimal) :
    splitAtMark 'e' (minus negative ++ D.scientific []) =
      some (minus negative ++ D.mantissa.positional [], exponentText D.order) := by
  have hmem : 'e' ∉ minus negative ++ D.mantissa.positional [] := by
    rw [List.mem_append, not_or]
    exact ⟨not_mem_minus (by decide) _, not_mem_positional_of_ne rfl (by decide) _⟩
  rw [scientific_eq, ← List.append_assoc, splitAtMark_append hmem]

theorem write_resultLayout (D : Decimal) : resultLayout.write D =
    if D.order < -5 ∨ (resultDigits : ℤ) ≤ D.order then D.scientific [] else D.positional [] := by
  have hpositional : resultLayout.isPositional D.order = true ↔
      ¬(D.order < -5 ∨ (resultDigits : ℤ) ≤ D.order) := by
    simp [resultLayout, resultDigits, Layout.isPositional]
  rw [Layout.write]
  by_cases h : D.order < -5 ∨ (resultDigits : ℤ) ≤ D.order
  · rw [if_pos h, if_neg (fun hp => hpositional.1 hp h)]
    rfl
  · rw [if_neg h, if_pos (hpositional.2 h)]
    rfl

/-- **No step fails, and both roundings agree.** -/
theorem roundedText?_eq (hd : IsDouble d) (h0 : 0 < d.significand) (negative : Bool) :
    roundedText? negative d = some (minus negative ++ resultLayout.write
      (significant resultDigits .toEven d.numerator d.denominator).trimmed) := by
  have hpos : 0 < (twelveDigits d).coefficient :=
    (Nat.pow_pos (by decide)).trans_le (coefficient_twelveDigits h0).1
  have horder := order_twelveDigits h0
  have hmantissa : 0 < (twelveDigits d).mantissa.coefficient := hpos
  have hminus : '.' ∉ minus negative := not_mem_minus (by decide) negative
  have hback : exponent? (exponentText (twelveDigits d).order) = some (twelveDigits d).order := by
    obtain ⟨hleast, hgreatest⟩ := order_bounds hd h0
    have hexp := exponent_twelveDigits d
    exact exponent?_exponentText (by omega) (by omega)
  rw [roundedText?, scientificText, splitAtMark_scientific]
  dsimp only
  rw [hback, ← trimmed_twelveDigits, write_resultLayout, order_trimmed hpos]
  dsimp only
  by_cases h : (twelveDigits d).order < -5 ∨ (resultDigits : ℤ) ≤ (twelveDigits d).order
  · rw [if_pos h, if_pos h, trimFraction_positional hminus hmantissa, trimmed_mantissa hpos,
      scientific_eq, order_trimmed hpos, List.append_assoc]
  · have htwelve : (resultDigits : ℤ) = 12 := rfl
    have hplaces := places_twelveDigits h0
      (m := (resultDigits - 1 - (twelveDigits d).order).toNat) (by omega)
    rw [if_neg h, if_neg h, placesText, hplaces, trimFraction_positional hminus hpos]

/-- **The result step by step is the result.** -/
theorem resultInSteps_eq (x : Float) : resultInSteps x = result x := by
  unfold resultInSteps result
  cases hx : Datum.ofFloat x with
  | nan | infinite _ => rfl
  | finite negative d =>
    dsimp only
    by_cases h0 : d.significand = 0
    · rw [if_pos h0, if_pos h0]
    · have hrounded := roundedText?_eq (isDouble_ofFloat hx) (Nat.pos_of_ne_zero h0) negative
      rw [if_neg h0, if_neg h0, resultMagnitude, hrounded]
      cases d.whole? with
      | none => rfl
      | some n =>
        by_cases hn : n < wholeBound
        · simp [Option.filter, hn]
        · simp [Option.filter, hn]

end Reckon.Number
