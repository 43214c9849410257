/-
  The shortest decimal that reads back as a double.

  The reals that round to a double form an interval around it, which holds its
  ends if the significand is even. For one digit, two, and so on, the two
  neighbours of the double on the grid of so many digits are tried: if any point
  of a grid lies in the interval, one of these two does.

  * `Interval` is the interval of a double, in quarters of its last place;
  * `shortest` is the decimal: fewest digits, and of those the nearest.
-/
import Reckon.Decimal.Magnitude
import Reckon.Decimal.Significant

namespace Reckon.Decimal

/-- The reals that round to a double: those between `low` and `high` quarters of
    its last place, `value` being the double itself. -/
structure Interval where
  low : Nat
  value : Nat
  high : Nat
  /-- The power of two of a quarter of the last place. -/
  exponent : Int
  /-- Whether the ends belong to it. -/
  closed : Bool

/-- The interval of a positive double. Below a power of two the doubles lie
    twice as close, except below the least one with a full significand. -/
def Interval.ofMagnitude (d : Magnitude) : Interval where
  low := if d.significand = hiddenBit ∧ d.exponent ≠ -1074 then 4 * d.significand - 1
    else 4 * d.significand - 2
  value := 4 * d.significand
  high := 4 * d.significand + 2
  exponent := d.exponent - 2
  closed := d.significand % 2 == 0

/-- Whether a decimal lies in the interval. -/
def Interval.contains (i : Interval) (d : Decimal) : Bool :=
  let point := d.coefficient * power 10 d.exponent * power 2 (-i.exponent)
  let unit := power 2 i.exponent * power 10 (-d.exponent)
  if i.closed then i.low * unit ≤ point && point ≤ i.high * unit
  else i.low * unit < point && point < i.high * unit

/-- The neighbour of the double on the grid of `n` digits that lies in its
    interval, the nearer one if both do. -/
def neighbour? (tie : Tie) (d : Magnitude) (n : Nat) : Option Decimal :=
  let i := Interval.ofMagnitude d
  let p := orderOf d.numerator d.denominator - n + 1
  let (a, b) := inUnits p d.numerator d.denominator
  let below : Decimal := ⟨a / b, p⟩
  let above : Decimal := ⟨(a + b - 1) / b, p⟩
  match i.contains below, i.contains above with
  | true, true => some ⟨roundDiv a b tie, p⟩
  | true, false => some below
  | false, true => some above
  | false, false => none

/-- The decimal with the fewest digits that reads back as the positive double
    `d`, and of those the nearest; seventeen digits are always enough. -/
def shortest (tie : Tie) (d : Magnitude) : Decimal :=
  (((List.range 17).findSome? fun n => neighbour? tie d (n + 1)).getD
    (significant 17 tie d.numerator d.denominator)).trimmed

end Reckon.Decimal
