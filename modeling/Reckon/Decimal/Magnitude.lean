/-
  The exact value of a double.

  A finite double is a sign and a natural number times a power of two. All
  texts of numbers are worked out from that, in natural numbers, so that no step
  but the last one rounds.

  * `Magnitude` is a number `significand · 2 ^ exponent`, also as a fraction;
  * `Datum` is what a double stands for, and `Datum.ofFloat` reads it off the
    bits.
-/
import Reckon.Decimal.Basic

namespace Reckon.Decimal

/-- The number `significand · 2 ^ exponent`. -/
structure Magnitude where
  significand : Nat
  exponent : Int
deriving DecidableEq, Repr

namespace Magnitude

/-- The numerator of the number as a fraction. -/
def numerator (d : Magnitude) : Nat := d.significand * power 2 d.exponent

/-- The denominator of the number as a fraction, a power of two. -/
def denominator (d : Magnitude) : Nat := power 2 (-d.exponent)

theorem denominator_pos (d : Magnitude) : 0 < d.denominator := power_pos (by decide) _

/-- The number itself, if it is a whole one. -/
def whole? (d : Magnitude) : Option Nat :=
  if d.numerator % d.denominator = 0 then some (d.numerator / d.denominator) else none

end Magnitude

/-- What a double stands for. -/
inductive Datum where
  | nan
  | infinite (negative : Bool)
  | finite (negative : Bool) (magnitude : Magnitude)
deriving DecidableEq, Repr

/-- The bit that stands before the fraction of a double, unless its exponent is
    the least one. -/
def hiddenBit : Nat := 4503599627370496

/-- The datum of a double: one bit of sign, eleven of exponent and fifty-two of
    fraction. The least exponent has no hidden bit, the greatest is kept for the
    infinities and for what is not a number. -/
def Datum.ofFloat (x : Float) : Datum :=
  let bits : Nat := x.toBits.toNat
  let negative := bits / (2048 * hiddenBit) == 1
  let field : Nat := bits / hiddenBit % 2048
  let fraction : Nat := bits % hiddenBit
  if field = 2047 then
    if fraction = 0 then .infinite negative else .nan
  else if field = 0 then .finite negative ⟨fraction, -1074⟩
  else .finite negative ⟨hiddenBit + fraction, (field : Int) - 1075⟩

end Reckon.Decimal
