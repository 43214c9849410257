/-
  Numbers in writing read back as themselves.

  * `rounds_of_holds`: a number in the interval of a double is rounded to it;
  * `Number.isLexeme_plain` and `Number.read_plain`: the text of a finite double
    without sign is the lexeme of a number, and is read as that double;
  * `Number.unsigned_read`: no text is read as a negative double, or as one that is
    not a number.
-/
import Reckon.Proofs.Number.Digits
import Reckon.Proofs.Number.Interval
import Reckon.Proofs.Number.Reading

namespace Reckon

open Decimal Double

variable {d : Magnitude} {q : ℚ} {x : Float}

namespace Double

/-- A number in the interval of a double, in units of its last place. -/
theorem quarters_of_holds (h : (Interval.ofMagnitude d).Holds q) :
    ((Interval.ofMagnitude d).low : ℚ) ≤ 4 * (q / 2 ^ d.exponent) ∧
      4 * (q / 2 ^ d.exponent) ≤ (Interval.ofMagnitude d).high ∧
      (d.significand % 2 ≠ 0 → ((Interval.ofMagnitude d).low : ℚ) ≠ 4 * (q / 2 ^ d.exponent) ∧
        4 * (q / 2 ^ d.exponent) ≠ (Interval.ofMagnitude d).high) := by
  have hpos : (0 : ℚ) < 2 ^ (d.exponent - 2) := by positivity
  have hq : 4 * (q / 2 ^ d.exponent) = q / 2 ^ (d.exponent - 2) := by
    rw [zpow_sub₀ (by norm_num)]
    field_simp
    ring
  rw [hq]
  unfold Interval.Holds at h
  split at h
  · next hclosed =>
    refine ⟨(le_div_iff₀ hpos).2 h.1, (div_le_iff₀ hpos).2 h.2, fun hodd => absurd ?_ hodd⟩
    simpa [Interval.ofMagnitude] using hclosed
  · have hlow := (lt_div_iff₀ hpos).2 h.1
    have hhigh := (div_lt_iff₀ hpos).2 h.2
    exact ⟨hlow.le, hhigh.le, fun _ => ⟨hlow.ne, hhigh.ne⟩⟩

/-- The interval of a double reaches half a place down, and half of that below a power
    of two. -/
theorem le_low (h0 : 0 < d.significand) :
    (4 * d.significand - 2 : ℚ) ≤ (Interval.ofMagnitude d).low ∧
      (d.significand = 2 ^ 52 → d.exponent ≠ -1074 →
        (4 * d.significand - 1 : ℚ) ≤ (Interval.ofMagnitude d).low) := by
  unfold Interval.ofMagnitude
  dsimp only
  split
  · rw [Nat.cast_sub (by omega)]
    push_cast
    exact ⟨by linarith, fun _ _ => le_refl _⟩
  · next h =>
    rw [Nat.cast_sub (by omega)]
    push_cast
    exact ⟨le_refl _, fun hm he => absurd ⟨hm, he⟩ h⟩

theorem pos_of_holds (h0 : 0 < d.significand) (h : (Interval.ofMagnitude d).Holds q) : 0 < q := by
  have hlow := (quarters_of_holds h).1
  have hleast := (le_low h0).1
  have hpos : (0 : ℚ) < 2 ^ d.exponent := by positivity
  have hone : (1 : ℚ) ≤ d.significand := by exact_mod_cast h0
  have hq : 0 < q / 2 ^ d.exponent := by linarith
  exact (div_pos_iff_of_pos_right hpos).1 hq

/-- A number in the interval of a double is nearest to it on its grid. -/
theorem nearest_of_holds (h0 : 0 < d.significand) (h : (Interval.ofMagnitude d).Holds q) :
    Nearest (q / 2 ^ d.exponent) d.significand := by
  obtain ⟨hlow, hhigh, hodd⟩ := quarters_of_holds h
  have hleast := (le_low h0).1
  have hgreatest : ((Interval.ofMagnitude d).high : ℚ) = 4 * d.significand + 2 := by
    rw [Interval.ofMagnitude]
    push_cast
    ring
  constructor
  · rw [abs_le]
    constructor <;> linarith
  · intro habs
    by_contra hno
    obtain ⟨hne, hne'⟩ := hodd hno
    rcases (abs_eq (by norm_num)).1 habs with heq | heq
    · exact hne' (by linarith)
    · exact hne (le_antisymm hlow (by linarith))

/-- **A number in the interval of a double is rounded to it.** -/
theorem rounds_of_holds (hd : IsDouble d) (h0 : 0 < d.significand)
    (h : (Interval.ofMagnitude d).Holds q) :
    Rounds q (.finite .positive d.significand d.exponent h0) := by
  have hnear := nearest_of_holds h0 h
  have hbounds := abs_le.1 hnear.near
  have hpos : (0 : ℚ) < 2 ^ d.exponent := by positivity
  by_cases hgrid : d.exponent = -1074 ∨ 2 ^ (52 + d.exponent) ≤ q
  · refine ⟨d.significand, d.exponent, ⟨hd.least, ?_, hgrid⟩, hnear,
      (carried_of_lt h0 hd.lt _ _).symm⟩
    have hsucc : (d.significand : ℚ) + 1 ≤ 2 ^ 53 := by exact_mod_cast hd.lt
    have hlt : q / 2 ^ d.exponent < 2 ^ 53 := by linarith
    rw [zpow_add₀ (by norm_num)]
    exact_mod_cast (div_lt_iff₀ hpos).1 hlt
  · -- Below a power of two the grid is finer, and rounding carries back to it.
    rw [not_or, not_le] at hgrid
    obtain ⟨hexp, hq⟩ := hgrid
    have hlt : q / 2 ^ d.exponent < 2 ^ 52 := by
      rw [div_lt_iff₀ hpos]
      rw [zpow_add₀ (by norm_num)] at hq
      exact_mod_cast hq
    have hm : d.significand = 2 ^ 52 := by
      have hfull := hd.full.resolve_left hexp
      have hle : (d.significand : ℚ) < 2 ^ 52 + 1 := by linarith
      have hle' : d.significand < 2 ^ 52 + 1 := by exact_mod_cast hle
      omega
    have hquarter : (2 ^ 52 - 1 / 4 : ℚ) ≤ q / 2 ^ d.exponent := by
      have hlow := (quarters_of_holds h).1
      have hle := (le_low h0).2 hm hexp
      have hcast : (d.significand : ℚ) = 2 ^ 52 := by exact_mod_cast hm
      rw [hcast] at hle
      linarith
    have hdouble : q / 2 ^ (d.exponent - 1) = 2 * (q / 2 ^ d.exponent) := by
      rw [zpow_sub₀ (by norm_num)]
      field_simp
    have hleast := hd.least
    refine ⟨2 ^ 53, d.exponent - 1, ⟨by omega, ?_, Or.inr ?_⟩, ⟨?_, fun _ => by norm_num⟩, ?_⟩
    · have heq : 53 + (d.exponent - 1) = 52 + d.exponent := by ring
      rw [heq]
      exact hq
    · have heq : 52 + (d.exponent - 1) = 51 + d.exponent := by ring
      rw [heq, zpow_add₀ (by norm_num), ← le_div_iff₀ hpos]
      norm_num at hquarter ⊢
      linarith
    · rw [hdouble, abs_le]
      push_cast
      constructor <;> linarith
    · simp [carried, hm]

end Double

namespace Number

theorem unsigned_zero : Unsigned 0 := ⟨rfl, by decide +kernel⟩

theorem unsigned_read (w : List Char) : Unsigned (read w) := by
  rw [read]
  generalize ofDigits _ = m
  generalize List.length _ = k
  rcases Nat.eq_zero_or_pos m with rfl | hm
  · rw [ofScientific_zero]
    exact unsigned_zero
  · obtain ⟨f, hf, heq⟩ := exists_ofScientific hm k
    rw [heq]
    exact hf.unsigned

/-- The digits with which a magnitude is written. -/
def plainDigits (d : Magnitude) : Decimal :=
  if d.significand = 0 then ⟨0, 0⟩ else shortest .up d

theorem plain_toList (h : Datum.ofFloat x = .finite false d) :
    (plain x).toList = (plainDigits d).positional [] := by
  rw [plain, h]
  dsimp only
  rw [shortestText, String.toList_ofList, minus]
  rfl

/-- **The text of a finite double without sign is the lexeme of a number.** -/
theorem isLexeme_plain (hfin : x.isFinite = true) (hlt : x.toBits.toNat < 2 ^ 63) :
    IsLexeme .number (plain x).toList := by
  obtain ⟨d, h⟩ := exists_ofFloat hfin hlt
  rw [plain_toList h]
  exact isLexeme_positional _

/-- **The text of a finite double without sign is read as that double.** -/
theorem read_plain (hfin : x.isFinite = true) (hlt : x.toBits.toNat < 2 ^ 63) :
    read (plain x).toList = x := by
  obtain ⟨d, h⟩ := exists_ofFloat hfin hlt
  have hd := isDouble_ofFloat h
  rw [plain_toList h, read_positional, plainDigits]
  split
  · next h0 =>
    have hunpack := unpack_eq x
    rw [h, unpacked, dif_pos h0] at hunpack
    dsimp only
    rw [Nat.zero_mul, ofScientific_zero, ← Float.ofBits_toBits x]
    change _ = Float.ofModel (Float.Model.pack x.toModel.unpack)
    rw [hunpack]
    rfl
  · next h0 =>
    have hpos := Nat.pos_of_ne_zero h0
    have hholds := holds_shortest hpos hd.lt .up
    have hvalue := (shortest .up d).value_eq_div
    have hcoefficient : 0 < (shortest .up d).coefficient * power 10 (shortest .up d).exponent := by
      refine Nat.pos_of_ne_zero fun hzero => ?_
      rw [hzero, Nat.cast_zero, zero_div] at hvalue
      exact absurd hvalue (pos_of_holds hpos hholds).ne
    obtain ⟨f, hf, heq⟩ := exists_ofScientific hcoefficient (-(shortest .up d).exponent).toNat
    rw [hvalue] at hf
    rw [heq, hf.unique (rounds_of_holds hd hpos hholds)]
    exact ofModel_pack_eq h hpos

end Number

end Reckon
