/-
  Layouts: how the digits of a decimal are set around its point.

  * `positional` writes a decimal with its point and no exponent;
  * `scientific` writes one digit, the point, the other digits and the exponent;
  * `Layout` says which of the two a decimal gets, and `Layout.write` writes it.
-/
import Reckon.Decimal.Basic

namespace Reckon.Decimal

/-- A row of zeros. -/
def zeros (n : Nat) : List Char := List.replicate n '0'

/-- A decimal with its point and no exponent; `whole` stands behind a decimal
    without fraction. -/
def positional (whole : List Char) (d : Decimal) : List Char :=
  let ds := d.digits
  let behind := (-d.exponent).toNat
  if behind = 0 then ds ++ zeros d.exponent.toNat ++ whole
  else if behind < ds.length then
    ds.take (ds.length - behind) ++ '.' :: ds.drop (ds.length - behind)
  else '0' :: '.' :: zeros (behind - ds.length) ++ ds

/-- A decimal as one digit, the point and the other digits if there are any, and
    the power of ten; `plus` stands before an exponent that is not negative. -/
def scientific (plus : List Char) (d : Decimal) : List Char :=
  let mantissa := match d.digits with
    | first :: second :: more => first :: '.' :: second :: more
    | ds => ds
  let power := d.order
  let sign := if power < 0 then ['-'] else plus
  mantissa ++ 'e' :: sign ++ Nat.toDigits 10 power.natAbs

/-- A layout for decimals. -/
structure Layout where
  /-- The orders that are written by position: from the first up to, and
      without, the second. Without bounds, all are. -/
  bounds : Option (Int × Int)
  /-- What stands behind a decimal written by position that has no fraction. -/
  whole : List Char
  /-- What stands before an exponent that is not negative. -/
  plus : List Char

/-- Whether a decimal of this order is written by position. -/
def Layout.isPositional (l : Layout) (order : Int) : Bool :=
  match l.bounds with
  | none => true
  | some (least, bound) => least ≤ order && order < bound

/-- A decimal in the layout. -/
def Layout.write (l : Layout) (d : Decimal) : List Char :=
  if l.isPositional d.order then d.positional l.whole else d.scientific l.plus

end Reckon.Decimal
