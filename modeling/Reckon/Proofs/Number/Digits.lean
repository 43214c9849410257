/-
  The texts of decimals by position, and how they are read.

  * `Number.read_whole` and `Number.read_point`: what is read of a lexeme without
    and with a point;
  * `Decimal.isLexeme_positional`: a decimal by position is the lexeme of a number;
  * `Decimal.read_positional`: what is read of it is the double of its coefficient
    and exponent.
-/
import Reckon.Number
import Reckon.Proofs.Lexemes

namespace Reckon

open Decimal

variable {w f : List Char} {n : Nat}

namespace Decimal

theorem ofDigits_eq (cs : List Char) : ofDigits cs = Nat.ofDigitChars 10 cs 0 := rfl

@[simp] theorem ofDigits_toDigits (n : Nat) : ofDigits (Nat.toDigits 10 n) = n :=
  Nat.ofDigitChars_ten_toDigits

theorem ofDigits_append_zeros (cs : List Char) (n : Nat) :
    ofDigits (cs ++ zeros n) = ofDigits cs * power 10 n := by
  rw [ofDigits_eq, Nat.ofDigitChars_append, zeros, Nat.ofDigitChars_replicate_zero, Nat.mul_comm]
  rfl

theorem ofDigits_zeros_append (n : Nat) (cs : List Char) :
    ofDigits (zeros n ++ cs) = ofDigits cs := by
  rw [ofDigits_eq, Nat.ofDigitChars_append, zeros, Nat.ofDigitChars_replicate_zero, Nat.mul_zero]
  rfl

theorem isDigits_digits (d : Decimal) : IsDigits d.digits :=
  fun _ hc => Nat.isDigit_of_mem_toDigits (by decide) (by decide) hc

theorem digits_ne_nil (d : Decimal) : d.digits ≠ [] := Nat.toDigits_ne_nil

theorem isDigits_zeros (n : Nat) : IsDigits (zeros n) := by
  intro c hc
  rw [List.eq_of_mem_replicate hc]
  rfl

end Decimal

theorem IsDigits.append (hw : IsDigits w) (hf : IsDigits f) : IsDigits (w ++ f) := by
  intro c hc
  rcases List.mem_append.1 hc with hc | hc
  · exact hw c hc
  · exact hf c hc

namespace Number

theorem read_whole (hw : IsDigits w) : read w = Float.ofScientific (ofDigits w) true 0 := by
  have htake := Stops.nil.takeWhile_append hw
  have hdrop := Stops.nil.dropWhile_append hw
  rw [List.append_nil] at htake hdrop
  rw [read, htake, hdrop]
  simp

theorem read_point (hw : IsDigits w) (f : List Char) :
    read (w ++ '.' :: f) = Float.ofScientific (ofDigits (w ++ f)) true f.length := by
  have hstop : Stops Char.isDigit ('.' :: f) := .cons rfl
  rw [read, hstop.takeWhile_append hw, hstop.dropWhile_append hw]
  simp

end Number

namespace Decimal

/-- A decimal by position is digits, or digits around a point. -/
theorem positional_cases (d : Decimal) :
    (∃ n : Nat, d.exponent = n ∧ d.positional [] = d.digits ++ zeros n) ∨
      ∃ w f, d.positional [] = w ++ '.' :: f ∧ w ≠ [] ∧ IsDigits w ∧ IsDigits f ∧
        ofDigits (w ++ f) = d.coefficient ∧ d.exponent = -(f.length : Int) := by
  have hvalue : ofDigits d.digits = d.coefficient := ofDigits_toDigits _
  have hdigits := d.isDigits_digits
  unfold positional
  dsimp only
  split
  · refine Or.inl ⟨d.exponent.toNat, by omega, ?_⟩
    rw [List.append_nil]
  · split
    · next hlt =>
      refine Or.inr ⟨_, _, rfl, ?_, fun c hc => hdigits c (List.mem_of_mem_take hc),
        fun c hc => hdigits c (List.mem_of_mem_drop hc), ?_, ?_⟩
      · intro hnil
        have hlen := congrArg List.length hnil
        rw [List.length_take, List.length_nil] at hlen
        omega
      · rw [List.take_append_drop, hvalue]
      · rw [List.length_drop]
        omega
    · refine Or.inr ⟨['0'], zeros ((-d.exponent).toNat - d.digits.length) ++ d.digits, rfl,
        by simp, by simp [IsDigits], (isDigits_zeros _).append hdigits, ?_, ?_⟩
      · have h := ofDigits_zeros_append ((-d.exponent).toNat - d.digits.length + 1) d.digits
        rw [hvalue] at h
        simpa [zeros, List.replicate_succ] using h
      · rw [List.length_append, zeros, List.length_replicate]
        omega

/-- **A decimal by position is the lexeme of a number.** -/
theorem isLexeme_positional (d : Decimal) : IsLexeme .number (d.positional []) := by
  rcases d.positional_cases with ⟨n, -, h⟩ | ⟨w, f, h, hne, hw, hf, -⟩
  · rw [h]
    exact .whole (by simp [digits_ne_nil]) (d.isDigits_digits.append (isDigits_zeros n))
  · rw [h]
    exact .point hne hw hf

/-- **What is read of a decimal by position is the double of that decimal.** -/
theorem read_positional (d : Decimal) : Number.read (d.positional []) =
    Float.ofScientific (d.coefficient * power 10 d.exponent) true (-d.exponent).toNat := by
  rcases d.positional_cases with ⟨n, he, h⟩ | ⟨w, f, h, -, hw, -, hvalue, he⟩
  · have hneg : (-d.exponent).toNat = 0 := by omega
    rw [h, Number.read_whole (d.isDigits_digits.append (isDigits_zeros n)), ofDigits_append_zeros,
      hneg, he, digits, ofDigits_toDigits]
  · have hneg : (-d.exponent).toNat = f.length := by omega
    have hpos : d.exponent.toNat = 0 := by omega
    rw [h, Number.read_point hw, hvalue, hneg, power, hpos]
    simp

end Decimal

end Reckon
