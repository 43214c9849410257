/-
  Numerals, and the numbers that they denote.

  * `Numeral` is what a text of a number is made of: a sign, digits before and behind a point,
    and an exponent; `Numeral.text` is the text and `Numeral.value` the number;
  * `Numeral.text_injective`: no text is made in two ways, and so it denotes one number at most;
  * `Numeral.Canonical`: nothing in a numeral is superfluous;
  * `exists_positional` and `exists_scientific`: the texts of a decimal that does not end with
    a zero are those of canonical numerals with its value.
-/
import Reckon.Proofs.Number.Steps

namespace Reckon.Number

open Decimal

/-- A sign, digits before and behind the point, and an exponent. There is always a digit before
    the point. -/
@[ext]
structure Numeral where
  negative : Bool
  whole : List Char
  fraction : List Char
  exponent : Option ℤ
  whole_ne_nil : whole ≠ []
  isDigits_whole : IsDigits whole
  isDigits_fraction : IsDigits fraction

/-- The digits behind a point, with the point if there are any. -/
def pointText : List Char → List Char
  | [] => []
  | c :: cs => '.' :: c :: cs

/-- An exponent with its mark, if there is one. -/
def markedText : Option ℤ → List Char
  | none => []
  | some e => 'e' :: exponentText e

/-- The factor that a sign stands for. -/
def signFactor (negative : Bool) : ℚ := if negative then -1 else 1

namespace Numeral

variable {m m' : Numeral}

/-- The text of a numeral. -/
def text (m : Numeral) : List Char :=
  minus m.negative ++ (m.whole ++ (pointText m.fraction ++ markedText m.exponent))

/-- The number that a numeral denotes. -/
def value (m : Numeral) : ℚ :=
  signFactor m.negative * (ofDigits (m.whole ++ m.fraction) / 10 ^ m.fraction.length) *
    10 ^ m.exponent.getD 0

/-- Nothing is superfluous: no zero at the end of the fraction or in front of another digit,
    one digit other than zero in front of the point of a mantissa, and no sign of zero. -/
structure Canonical (m : Numeral) : Prop where
  fraction : ∀ c ∈ m.fraction.getLast?, c ≠ '0'
  whole : m.whole = ['0'] ∨ ∀ c ∈ m.whole.head?, c ≠ '0'
  mantissa : m.exponent ≠ none → ∃ c, m.whole = [c] ∧ c ≠ '0'
  sign : m.negative = true → m.value ≠ 0

end Numeral

/-! ## One numeral for each text -/

theorem exponentText_injective {e e' : ℤ} (h : exponentText e = exponentText e') : e = e' := by
  have hsplit := congrArg splitSign h
  rw [splitSign_exponentText, splitSign_exponentText, Prod.mk.injEq] at hsplit
  obtain ⟨hsign, hdigits⟩ := hsplit
  have habs := congrArg ofDigits hdigits
  rw [ofDigits_toDigits, ofDigits_toDigits] at habs
  have hiff : e < 0 ↔ e' < 0 := by simpa using hsign
  omega

theorem markedText_injective {x x' : Option ℤ} (h : markedText x = markedText x') : x = x' := by
  cases x with
  | none => cases x' with
    | none => rfl
    | some e' => cases h
  | some e => cases x' with
    | none => cases h
    | some e' => rw [exponentText_injective (List.cons.inj h).2]

theorem stops_markedText (x : Option ℤ) : Stops Char.isDigit (markedText x) := by
  cases x with
  | none => exact .nil
  | some e => exact .cons rfl

theorem stops_pointText (f : List Char) (x : Option ℤ) :
    Stops Char.isDigit (pointText f ++ markedText x) := by
  cases f with
  | nil => exact stops_markedText x
  | cons c f => exact .cons rfl

/-- What stands behind the whole digits determines the fraction and the exponent. -/
theorem pointText_append_injective {f f' : List Char} {x x' : Option ℤ} (hf : IsDigits f)
    (hf' : IsDigits f') (h : pointText f ++ markedText x = pointText f' ++ markedText x') :
    f = f' ∧ x = x' := by
  cases f with
  | nil => cases f' with
    | nil => exact ⟨rfl, markedText_injective h⟩
    | cons c' f' => cases x <;> cases h
  | cons c f => cases f' with
    | nil => cases x' <;> cases h
    | cons c' f' =>
      have htail : (c :: f) ++ markedText x = (c' :: f') ++ markedText x' := (List.cons.inj h).2
      have htake := (stops_markedText x).takeWhile_append hf
      have hdrop := (stops_markedText x).dropWhile_append hf
      rw [htail, (stops_markedText x').takeWhile_append hf'] at htake
      rw [htail, (stops_markedText x').dropWhile_append hf'] at hdrop
      exact ⟨htake.symm, (markedText_injective hdrop).symm⟩

namespace Numeral

variable {m m' : Numeral}

/-- A numeral begins with a digit behind its sign. -/
theorem minus_append_injective {b b' : Bool} {v v' : List Char} (hv : v ≠ []) (hv' : v' ≠ [])
    (hd : IsDigits v) (hd' : IsDigits v') {w w' : List Char}
    (h : minus b ++ (v ++ w) = minus b' ++ (v' ++ w')) : b = b' ∧ v ++ w = v' ++ w' := by
  obtain ⟨c, v, rfl⟩ := List.exists_cons_of_ne_nil hv
  obtain ⟨c', v', rfl⟩ := List.exists_cons_of_ne_nil hv'
  have hc : c ≠ '-' := by
    rintro rfl
    exact absurd (hd _ List.mem_cons_self) (by decide)
  have hc' : c' ≠ '-' := by
    rintro rfl
    exact absurd (hd' _ List.mem_cons_self) (by decide)
  cases b <;> cases b'
  · exact ⟨rfl, h⟩
  · exact absurd (List.cons.inj h).1 hc
  · exact absurd (List.cons.inj h).1.symm hc'
  · exact ⟨rfl, (List.cons.inj h).2⟩

/-- **A text is that of one numeral at most.** -/
theorem text_injective (h : m.text = m'.text) : m = m' := by
  obtain ⟨hsign, hrest⟩ := minus_append_injective m.whole_ne_nil m'.whole_ne_nil m.isDigits_whole
    m'.isDigits_whole h
  have htake := (stops_pointText m.fraction m.exponent).takeWhile_append m.isDigits_whole
  have hdrop := (stops_pointText m.fraction m.exponent).dropWhile_append m.isDigits_whole
  rw [hrest, (stops_pointText m'.fraction m'.exponent).takeWhile_append m'.isDigits_whole] at htake
  rw [hrest, (stops_pointText m'.fraction m'.exponent).dropWhile_append m'.isDigits_whole] at hdrop
  obtain ⟨hfraction, hexponent⟩ :=
    pointText_append_injective m'.isDigits_fraction m.isDigits_fraction hdrop
  exact Numeral.ext hsign htake.symm hfraction.symm hexponent.symm

/-- A canonical text is not that of a zero with a sign, -/
theorem Canonical.text_ne (h : m.Canonical) : m.text ≠ ['-', '0'] := by
  intro hm
  let zero : Numeral := ⟨true, ['0'], [], none, by simp, by simp [IsDigits], by simp [IsDigits]⟩
  obtain rfl : m = zero := text_injective hm
  refine h.sign rfl ?_
  have hdigits : ofDigits ['0'] = 0 := rfl
  simp [value, zero, hdigits]

/-- nor does any text end with the point. -/
theorem getLast_text_ne (m : Numeral) : m.text.getLast? ≠ some '.' := by
  intro h
  have hdigit : ∀ {w : List Char}, IsDigits w → w.getLast? ≠ some '.' := fun hw hlast =>
    not_mem_of_isDigits hw rfl (List.mem_of_getLast? hlast)
  obtain ⟨negative, w, f, x, hne, hw, hf⟩ := m
  rw [text] at h
  dsimp only at h
  cases x with
  | some e =>
    have hdigits : Nat.toDigits 10 e.natAbs ≠ [] := Nat.toDigits_ne_nil
    have hlast : (markedText (some e)).getLast? = (Nat.toDigits 10 e.natAbs).getLast? := by
      rw [markedText, exponentText, ← List.cons_append, List.getLast?_append_of_ne_nil _ hdigits]
    have hmarked : markedText (some e) ≠ [] := by simp [markedText]
    rw [List.getLast?_append_of_ne_nil _ (by simp [hne]),
      List.getLast?_append_of_ne_nil _ (by simp [hmarked]),
      List.getLast?_append_of_ne_nil _ hmarked, hlast] at h
    exact hdigit (isDigits_toDigits _) h
  | none =>
    rw [markedText, List.append_nil, List.getLast?_append_of_ne_nil _ (by simp [hne])] at h
    cases f with
    | nil =>
      rw [pointText, List.append_nil] at h
      exact hdigit hw h
    | cons c f =>
      rw [pointText, List.getLast?_append_of_ne_nil _ (by simp), List.getLast?_cons_cons] at h
      exact hdigit hf h

end Numeral

/-! ## Numerals of decimals -/

section

variable {D : Decimal} {w f : List Char} {x : Option ℤ}

theorem value_pos (h : 0 < D.coefficient) : 0 < D.value := by
  rw [Decimal.value]
  positivity

/-- A numeral with the value of a decimal. -/
theorem exists_numeral (negative : Bool) (hne : w ≠ []) (hw : IsDigits w) (hf : IsDigits f)
    (hfraction : ∀ c ∈ f.getLast?, c ≠ '0') (hwhole : w = ['0'] ∨ ∀ c ∈ w.head?, c ≠ '0')
    (hmantissa : x ≠ none → ∃ c, w = [c] ∧ c ≠ '0') (hD : 0 < D.coefficient)
    (hvalue : (ofDigits (w ++ f) : ℚ) / 10 ^ f.length * 10 ^ x.getD 0 = D.value) :
    ∃ m : Numeral, m.text = minus negative ++ (w ++ (pointText f ++ markedText x)) ∧
      m.Canonical ∧ m.value = signFactor negative * D.value ∧ m.exponent = x := by
  let m : Numeral := ⟨negative, w, f, x, hne, hw, hf⟩
  have hm : m.value = signFactor negative * D.value := by
    rw [← hvalue, ← mul_assoc]
    rfl
  have hfactor : signFactor negative ≠ 0 := by cases negative <;> simp [signFactor]
  refine ⟨m, rfl, ⟨hfraction, hwhole, hmantissa, fun _ => ?_⟩, hm, rfl⟩
  rw [hm]
  exact mul_ne_zero hfactor (value_pos hD).ne'

/-- **A decimal by position that does not end with a zero has a canonical numeral.** -/
theorem exists_positional (negative : Bool) (h : D.coefficient % 10 ≠ 0) :
    ∃ m : Numeral, m.text = minus negative ++ D.positional [] ∧ m.Canonical ∧
      m.value = signFactor negative * D.value ∧ m.exponent = none := by
  have hpos : 0 < D.coefficient := by omega
  have hhead := head_toDigits hpos
  have hlast := getLast_toDigits h
  have hdigits := D.isDigits_digits
  have hofDigits : ofDigits D.digits = D.coefficient := ofDigits_toDigits _
  change ∀ c ∈ D.digits.head?, c ≠ '0' at hhead
  change ∀ c ∈ D.digits.getLast?, c ≠ '0' at hlast
  rcases D.exponent_cases with ⟨n, hn⟩ | ⟨a, b, hab, ha, hb, he⟩ | ⟨k, hk⟩
  · obtain ⟨m, hm⟩ := exists_numeral (D := D) (w := D.digits ++ zeros n) (f := []) (x := none)
      negative (by simp [digits_ne_nil]) (hdigits.append (isDigits_zeros n)) (by simp [IsDigits])
      (by simp) (Or.inr (by rwa [List.head?_append_of_ne_nil _ D.digits_ne_nil])) (by simp) hpos (by
        rw [List.append_nil, ofDigits_append_zeros, hofDigits, Decimal.value, hn, Nat.cast_mul,
          cast_power]
        simp)
    refine ⟨m, ?_, hm.2⟩
    rw [hm.1, positional_of_nonneg hn]
    simp [pointText, markedText]
  · rw [hab] at hhead hlast hdigits hofDigits
    rw [List.head?_append_of_ne_nil _ ha] at hhead
    rw [List.getLast?_append_of_ne_nil _ hb] at hlast
    obtain ⟨m, hm⟩ := exists_numeral (D := D) (w := a) (f := b) (x := none) negative ha
      (fun c hc => hdigits c (List.mem_append_left _ hc))
      (fun c hc => hdigits c (List.mem_append_right _ hc)) hlast (Or.inr hhead) (by simp) hpos (by
        rw [hofDigits, Decimal.value, he, zpow_neg, zpow_natCast]
        simp [div_eq_mul_inv])
    refine ⟨m, ?_, hm.2⟩
    obtain ⟨c, b, rfl⟩ := List.exists_cons_of_ne_nil hb
    rw [hm.1, positional_of_split hab ha hb he]
    simp [pointText, markedText]
  · have hzeros : ofDigits ('0' :: (zeros k ++ D.digits)) = D.coefficient := by
      rw [← hofDigits]
      exact ofDigits_zeros_append (k + 1) D.digits
    have hne : zeros k ++ D.digits ≠ [] := by simp [digits_ne_nil]
    obtain ⟨m, hm⟩ := exists_numeral (D := D) (w := ['0']) (f := zeros k ++ D.digits) (x := none)
      negative (by simp) (by simp [IsDigits]) ((isDigits_zeros k).append hdigits)
      (by rwa [List.getLast?_append_of_ne_nil _ D.digits_ne_nil]) (Or.inl rfl) (by simp) hpos (by
        have hlen : (zeros k ++ D.digits).length = k + D.digits.length := by simp [zeros]
        have hexp : D.exponent = -((k + D.digits.length : ℕ) : ℤ) := by
          rw [hk]
          push_cast
          ring
        rw [List.singleton_append, hzeros, hlen, Decimal.value, hexp, zpow_neg, zpow_natCast]
        simp [div_eq_mul_inv])
    refine ⟨m, ?_, hm.2⟩
    obtain ⟨c, cs, hcs⟩ := List.exists_cons_of_ne_nil hne
    rw [hm.1, positional_of_zeros hk, hcs]
    simp [pointText, markedText]

/-- **A decimal with exponent that does not end with a zero has a canonical numeral.** -/
theorem exists_scientific (negative : Bool) (h : D.coefficient % 10 ≠ 0) :
    ∃ m : Numeral, m.text = minus negative ++ D.scientific [] ∧ m.Canonical ∧
      m.value = signFactor negative * D.value ∧ m.exponent = some D.order := by
  have hpos : 0 < D.coefficient := by omega
  have hhead := head_toDigits hpos
  have hlast := getLast_toDigits h
  have hdigits := D.isDigits_digits
  have hofDigits : ofDigits D.digits = D.coefficient := ofDigits_toDigits _
  change ∀ c ∈ D.digits.head?, c ≠ '0' at hhead
  change ∀ c ∈ D.digits.getLast?, c ≠ '0' at hlast
  obtain ⟨c, f, hcf⟩ := List.exists_cons_of_ne_nil D.digits_ne_nil
  rw [hcf] at hhead hlast hdigits hofDigits
  have hc : c ≠ '0' := hhead c rfl
  have hlen : D.digits.length = f.length + 1 := by rw [hcf]; rfl
  have hfraction : ∀ d ∈ f.getLast?, d ≠ '0' := by
    cases f with
    | nil => simp
    | cons d f => rwa [List.getLast?_cons_cons] at hlast
  obtain ⟨m, hm⟩ := exists_numeral (D := D) (w := [c]) (f := f) (x := some D.order) negative
    (by simp) (fun d hd => hdigits d (by simp_all)) (fun d hd => hdigits d (by simp [hd]))
    hfraction (Or.inr (by simpa using hc)) (fun _ => ⟨c, rfl, hc⟩) hpos (by
      have horder : D.order = (f.length : ℤ) + D.exponent := by
        rw [order, hlen]
        push_cast
        ring
      rw [List.singleton_append, hofDigits, Option.getD_some, horder, zpow_add₀ (by norm_num),
        zpow_natCast, Decimal.value]
      field_simp)
  refine ⟨m, ?_, hm.2⟩
  have hmantissa : D.mantissa.positional [] = c :: pointText f := by
    cases f with
    | nil => exact positional_mantissa_of_singleton hcf
    | cons d f => exact positional_mantissa_of_cons hcf
  rw [hm.1, scientific_eq, hmantissa]
  simp [markedText]

end

end Reckon.Number
