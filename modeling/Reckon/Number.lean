/-
  The texts of numbers: how results, literals, documents and percentages show a
  double, and how a literal is read.

  * `Number.plain` has the fewest digits that read back, never an exponent;
  * `Number.result` has at most twelve significant digits;
  * `Number.document` is the form of exchange documents, which has none for
    what is not finite;
  * `Number.tenths` has one digit behind the point;
  * `Number.read` is the double nearest to a literal.
-/
import Reckon.Decimal.Layout
import Reckon.Decimal.Shortest

namespace Reckon.Number

open Reckon.Decimal

/-- The layout of literals: always by position, and nothing behind a whole
    number. -/
def plainLayout : Layout := ⟨none, [], []⟩

/-- The layout of results: by position from the fifth digit behind the point up
    to twelve digits before it. -/
def resultLayout : Layout := ⟨some (-5, 12), [], []⟩

/-- The layout of documents: by position from the fifth digit behind the point
    up to sixteen before it, always with a point or an exponent, and the exponent
    always with its sign. -/
def documentLayout : Layout := ⟨some (-5, 16), ['.', '0'], ['+']⟩

/-- The number of significant digits of a result. -/
def resultDigits : Nat := 12

/-- Whole results below this bound are written in full. -/
def wholeBound : Nat := 1000000000000000

/-- The sign of a number in writing. -/
def minus (negative : Bool) : List Char := if negative then ['-'] else []

/-- A finite number by its shortest digits, of two equally near ones as `tie`
    says. Zero keeps its sign. -/
def shortestText (tie : Tie) (layout : Layout) (negative : Bool) (d : Magnitude) : String :=
  let digits : Decimal := if d.significand = 0 then ⟨0, 0⟩ else shortest tie d
  String.ofList (minus negative ++ layout.write digits)

/-- A number as messages and trees show it: the fewest digits that read back,
    by position; half way between two such, the greater one. -/
def plain (x : Float) : String :=
  match Datum.ofFloat x with
  | .nan => "NaN"
  | .infinite negative => if negative then "-inf" else "inf"
  | .finite negative d => shortestText .up plainLayout negative d

/-- A number as a document shows it: the fewest digits that read back; half way
    between two such, the even one. A document has no number for what is not
    finite. -/
def document (x : Float) : Option String :=
  match Datum.ofFloat x with
  | .finite negative d => some (shortestText .toEven documentLayout negative d)
  | _ => none

/-- The text of the magnitude of a finite result: a whole number below the bound
    in full, any other one rounded once to twelve significant digits, halves to
    even, without the zeros at the end. -/
def resultMagnitude (d : Magnitude) : List Char :=
  let rounded := (significant resultDigits .toEven d.numerator d.denominator).trimmed
  match d.whole? with
  | some n => if n < wholeBound then Nat.toDigits 10 n else resultLayout.write rounded
  | none => resultLayout.write rounded

/-- A number as the result of an expression. Zero has no sign. -/
def result (x : Float) : String :=
  match Datum.ofFloat x with
  | .finite negative d =>
    if d.significand = 0 then "0" else String.ofList (minus negative ++ resultMagnitude d)
  | _ => plain x

/-- A number with one digit behind the point, halves to even. -/
def tenths (x : Float) : String :=
  match Datum.ofFloat x with
  | .finite negative d =>
    String.ofList (minus negative ++
      (places 1 .toEven d.numerator d.denominator).positional [])
  | _ => plain x

/-- The double nearest to a literal, which is digits with at most one point. -/
def read (text : List Char) : Float :=
  let whole := text.takeWhile Char.isDigit
  let fraction := (text.dropWhile Char.isDigit).drop 1
  Float.ofScientific (ofDigits (whole ++ fraction)) true fraction.length

end Reckon.Number
