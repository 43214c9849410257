/-
  Rounding a positive fraction to a number of significant decimal digits.

  * `orderOf` is the power of ten of the first digit of a fraction;
  * `significant n` is the fraction rounded once, on the grid on which it has
    `n` digits. Where rounding carries into a new power of ten the coefficient
    has one digit more, and all but the first are zero;
  * `places n` is the fraction rounded to `n` digits behind the point.
-/
import Reckon.Decimal.Basic
import Reckon.Decimal.Rounding

namespace Reckon.Decimal

/-- The greatest `k` with `10 ^ k ≤ num / den`, for a positive fraction. The
    lengths of the two numbers leave two candidates. -/
def orderOf (num den : Nat) : Int :=
  let k : Int := digitCount num - digitCount den
  if den * power 10 k ≤ num * power 10 (-k) then k else k - 1

/-- The fraction `num / den` in units of `10 ^ p`, as a fraction. -/
def inUnits (p : Int) (num den : Nat) : Nat × Nat :=
  (num * power 10 (-p), den * power 10 p)

/-- The positive fraction `num / den`, rounded to `n` significant digits. -/
def significant (n : Nat) (tie : Tie) (num den : Nat) : Decimal :=
  let p := orderOf num den - n + 1
  let (a, b) := inUnits p num den
  ⟨roundDiv a b tie, p⟩

/-- The fraction `num / den`, rounded to `n` digits behind the point. -/
def places (n : Nat) (tie : Tie) (num den : Nat) : Decimal :=
  ⟨roundDiv (num * power 10 n) den tie, -n⟩

end Reckon.Decimal
