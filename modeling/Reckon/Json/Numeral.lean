/-
  The numbers of JSON documents, by their parts and by their values.

  * `Numeral` is a number by its parts, and `Numeral.ofChars?` takes it apart;
  * `Numeral.natural?` is its value where a count is meant, and `Numeral.double?`
    where any number is: its digits are gathered in a word of 64 bits as far as
    they fit, and the word is then scaled by a power of ten. Two steps may round,
    so that the double is not always the nearest one.
-/
import Reckon.Decimal.Basic

namespace Reckon

/-- A JSON number by its parts. -/
structure Numeral where
  negative : Bool
  /-- The digits before the point. -/
  whole : List Char
  /-- The digits behind the point; none if there is no point. -/
  fraction : List Char
  /-- The sign and the digits of the exponent, if there is one. -/
  exponent : Option (Bool × List Char)
deriving DecidableEq, Repr

namespace Numeral

/-- The exponent that a text spells, which is all of the text. -/
def exponentOf? (cs : List Char) : Option (Bool × List Char) :=
  let (negative, digits) := match cs with
    | '-' :: digits => (true, digits)
    | '+' :: digits => (false, digits)
    | digits => (false, digits)
  if digits.isEmpty || !digits.all Char.isDigit then none else some (negative, digits)

/-- The parts of a number that begins with these digits. -/
def behindWhole? (negative : Bool) (whole cs : List Char) : Option Numeral := do
  let (fraction, behind) ← match cs with
    | '.' :: more =>
      let fraction := more.takeWhile Char.isDigit
      if fraction.isEmpty then none else some (fraction, more.dropWhile Char.isDigit)
    | cs => some ([], cs)
  match behind with
  | [] => return ⟨negative, whole, fraction, none⟩
  | 'e' :: more | 'E' :: more =>
    let exponent ← exponentOf? more
    return ⟨negative, whole, fraction, some exponent⟩
  | _ => none

/-- The parts of a number: digits, of which the first is zero only if it is the
    only one, then perhaps a point with digits, then perhaps an exponent. -/
def ofChars? (cs : List Char) : Option Numeral :=
  let (negative, cs) := match cs with
    | '-' :: cs => (true, cs)
    | cs => (false, cs)
  let whole := cs.takeWhile Char.isDigit
  match whole with
  | [] => none
  | '0' :: _ :: _ => none
  | whole => behindWhole? negative whole (cs.dropWhile Char.isDigit)

/-- Whether a character may stand in a number. -/
def isNumeralChar (c : Char) : Bool :=
  c.isDigit || c == '.' || c == '-' || c == '+' || c == 'e' || c == 'E'

/-! ## Values -/

/-- The bound of the word in which digits are gathered. -/
def wordBound : Nat := UInt64.size

/-- Digits gathered behind those of `n` as far as they fit, and the digits that
    are left. -/
def gather (n : Nat) : List Char → Nat × List Char
  | [] => (n, [])
  | c :: cs =>
    let longer := 10 * n + (c.toNat - '0'.toNat)
    if longer < wordBound then gather longer cs else (n, c :: cs)

/-- The number as an integer times a power of ten. A digit before the point that
    does not fit still counts as a place, one behind the point does not count. -/
def gathered (n : Numeral) : Nat × Int :=
  let (word, left) := gather 0 n.whole
  let (word, right) := gather word n.fraction
  let power : Int := match n.exponent with
    | none => 0
    | some (true, digits) => -Decimal.ofDigits digits
    | some (false, digits) => Decimal.ofDigits digits
  (word, left.length - (n.fraction.length - right.length) + power)

/-- The greatest power of ten by which a double is scaled in one step. -/
def greatestPower : Nat := 308

/-- A power of ten. -/
def powerOfTen (n : Nat) : Float := Float.ofScientific 1 false n

/-- A double times a power of ten, unless that is out of range. Small powers are
    divided by in more than one step. -/
def scaled? (x : Float) (power : Int) : Option Float :=
  if x == 0 then some x
  else if greatestPower < power then none
  else if 0 ≤ power then
    let y := x * powerOfTen power.toNat
    if y.isInf then none else some y
  else if -greatestPower ≤ power then some (x / powerOfTen (-power).toNat)
  else scaled? (x / powerOfTen greatestPower) (power + greatestPower)
termination_by (-power).toNat
decreasing_by simp only [greatestPower] at *; omega

/-- The number as a double, unless it is out of range. -/
def double? (n : Numeral) : Option Float :=
  let (word, power) := n.gathered
  (scaled? word.toFloat power).map fun x => if n.negative then -x else x

/-- The number as a count: digits only, and within a word. -/
def natural? (n : Numeral) : Option Nat :=
  match n with
  | ⟨false, whole, [], none⟩ =>
    let count := Decimal.ofDigits whole
    if count < wordBound then some count else none
  | _ => none

end Numeral

end Reckon
