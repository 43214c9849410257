/-
  Evaluating one expression and leaving.

  * `OneShot.Mode` is what is shown: the value, the expression, or the
    expression as a document;
  * `OneShot.run` shows it, or why there is nothing to show, and says with which
    status to leave.
-/
import Reckon.Expr.Json
import Reckon.Session

namespace Reckon.OneShot

/-- What is shown of an expression. -/
inductive Mode where
  | value
  | tree
  | document
deriving DecidableEq, Repr

/-- What is written, and the status. -/
structure Outcome where
  status : Nat
  output : String
  complaints : String
deriving DecidableEq, Repr

/-- The outcome of a success. -/
def success (text : String) : Outcome := ⟨0, text ++ "\n", ""⟩

/-- The outcome of a failure: the expression with the marker under it, if the
    failure has a place, and the message. -/
def failure (expression : String) (f : Failure) : Outcome :=
  let marked := match f.marker? with
    | some marker => "  " ++ expression ++ "\n  " ++ marker ++ "\n"
    | none => ""
  ⟨1, "", marked ++ "Error: " ++ f.message ++ "\n"⟩

/-- What comes of an expression, and the session behind it. -/
def run (mode : Mode) (expression : String) (s : Session) : Outcome × Session :=
  match mode with
  | .value => match s.evaluate expression with
    | (.ok value, s) => (success ("Result: " ++ Number.result value), s)
    | (.error f, s) => (failure expression f, s)
  | .tree => match s.parse expression with
    | .ok tree => (success tree.render, s)
    | .error e => (failure expression (.unreadable e), s)
  | .document => match s.parse expression with
    | .ok tree => (success tree.toJson.pretty, s)
    | .error e => (failure expression (.unreadable e), s)

end Reckon.OneShot
