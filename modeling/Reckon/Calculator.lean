/-
  The calculator: from a text to a number, with no memory between texts.

  * `Calculator.parse` reads the expression of a text within a limit on its
    depth;
  * `Calculator.evaluate` reads it and finds its value.
-/
import Reckon.Expr.Reader
import Reckon.Token.Scanner

namespace Reckon

/-- A calculator, with its limit on the depth of expressions if it has one. -/
structure Calculator where
  limit : Option Nat := none
deriving DecidableEq, Repr

namespace Calculator

/-- The expression of a text. -/
def parse (c : Calculator) (text : String) : Except SyntaxError Expr := do
  let tokens ← tokenize text
  (Reader.ofTokens tokens c.limit).read.result

/-- The value of the expression of a text. -/
def evaluate (c : Calculator) (text : String) : Except Failure Float := do
  let tree ← (c.parse text).mapError .unreadable
  tree.evaluate.mapError .faulty

end Calculator

end Reckon
