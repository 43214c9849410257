/-
  Decimal numbers and their digits.

  * `Decimal` is a number `coefficient · 10 ^ exponent`;
  * `Decimal.order` is the power of ten of its first digit;
  * `Decimal.trimmed` drops the zeros at the end of the coefficient;
  * `digitCount` is the number of digits of a natural number, and `power` a power
    that is one where the exponent is negative.
-/
namespace Reckon

/-- The number `coefficient · 10 ^ exponent`. -/
structure Decimal where
  coefficient : Nat
  exponent : Int
deriving DecidableEq, Repr

namespace Decimal

/-- The power of a base, which is one where the exponent is negative. So the power
    of an exponent over the power of its opposite is that of any exponent. -/
def power (base : Nat) (exponent : Int) : Nat := Nat.pow base exponent.toNat

theorem power_pos {base : Nat} (h : 0 < base) (exponent : Int) : 0 < power base exponent :=
  Nat.pow_pos h

/-- The number of decimal digits of a natural number; zero has one. -/
def digitCount (n : Nat) : Nat := if n < 10 then 1 else digitCount (n / 10) + 1

/-- The digits of the coefficient, first one first. -/
def digits (d : Decimal) : List Char := Nat.toDigits 10 d.coefficient

/-- The power of ten that the first digit counts. -/
def order (d : Decimal) : Int := d.exponent + d.digits.length - 1

/-- The same number with a coefficient that does not end in zero, unless it is
    zero. -/
def trimmed (d : Decimal) : Decimal :=
  if h : d.coefficient ≠ 0 ∧ d.coefficient % 10 = 0 then
    trimmed ⟨d.coefficient / 10, d.exponent + 1⟩
  else d
termination_by d.coefficient
decreasing_by exact Nat.div_lt_self (Nat.pos_of_ne_zero h.1) (by decide)

/-- The number that a row of digits stands for. -/
def ofDigits (cs : List Char) : Nat :=
  cs.foldl (fun n c => 10 * n + (c.toNat - '0'.toNat)) 0

@[simp] theorem ofDigits_nil : ofDigits [] = 0 := rfl

end Decimal

end Reckon
