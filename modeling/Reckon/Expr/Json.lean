/-
  Expressions as JSON documents.

  * `Expr.toJson` writes an expression as nested variants, one for each node;
  * `Expr.ofJson?` reads it back, within so many brackets;
  * `Expr.readJson?` reads it from a text.
-/
import Reckon.Expr
import Reckon.Json.Read
import Reckon.Json.Record

namespace Reckon.Expr

/-- The expression as a document. -/
def toJson : Expr → Json
  | number value => .ofVariant "Number" (.ofFloat value)
  | binary op left right =>
    .ofVariant "Binary" (.ofRecord
      [("op", .ofText op.tag), ("left", left.toJson), ("right", right.toJson)])
  | signed sign operand =>
    .ofVariant "Unary" (.ofRecord [("op", .ofText sign.tag), ("operand", operand.toJson)])
  | call f argument =>
    .ofVariant "FunctionCall" (.ofRecord
      [("function", .ofText f.tag), ("argument", argument.toJson)])

/-- The literal that a document writes. -/
def literal? (j : Json) : Option Expr :=
  match j.variant? with
  | some ("Number", content) => content.double?.map number
  | _ => none

/-- The expression that a document writes with so many brackets inside each
    other: one for a literal, and two around the operands of all else. -/
def ofJson? : Nat → Json → Option Expr
  | 0, _ => none
  | 1, j => literal? j
  | nesting + 2, j =>
    match j.variant? with
    | some ("Binary", content) =>
      match content.fields? ["op", "left", "right"] with
      | some [op, left, right] => do
        let op ← (op.tag? nesting).bind BinaryOp.ofTag?
        let left ← ofJson? nesting left
        let right ← ofJson? nesting right
        return binary op left right
      | _ => none
    | some ("Unary", content) =>
      match content.fields? ["op", "operand"] with
      | some [sign, operand] => do
        let sign ← (sign.tag? nesting).bind Sign.ofTag?
        let operand ← ofJson? nesting operand
        return signed sign operand
      | _ => none
    | some ("FunctionCall", content) =>
      match content.fields? ["function", "argument"] with
      | some [f, argument] => do
        let f ← (f.tag? nesting).bind Function.ofTag?
        let argument ← ofJson? nesting argument
        return call f argument
      | _ => none
    | _ => literal? j

/-- The expression that a text writes as a document. -/
def readJson? (text : String) : Option Expr := (Json.read? text).bind (ofJson? Json.nesting)

end Reckon.Expr
