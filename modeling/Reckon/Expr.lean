/-
  Arithmetic expressions.

  * `Expr` is a tree of literals, infix operators, signs and calls;
  * `Expr.render` writes it with every infix operation in brackets, so that its
    grouping shows;
  * `Expr.depth` and `Expr.size` are its height and its number of nodes;
  * `Expr.evaluate` is its value in double precision, left operands first, or
    the first fault on the way.
-/
import Reckon.Failure

namespace Reckon

/-- An arithmetic expression. -/
inductive Expr where
  | number (value : Float)
  | binary (op : BinaryOp) (left right : Expr)
  | signed (sign : Sign) (operand : Expr)
  | call (f : Function) (argument : Expr)
deriving DecidableEq, Repr

namespace Expr

/-- The expression in writing, with brackets around each infix operation. -/
def render : Expr → String
  | number value => Number.plain value
  | binary op left right => "(" ++ left.render ++ " " ++ op.symbol ++ " " ++ right.render ++ ")"
  | signed sign operand => sign.symbol ++ operand.render
  | call f argument => f.name ++ "(" ++ argument.render ++ ")"

/-- The height of the tree; a literal has height one. -/
def depth : Expr → Nat
  | number _ => 1
  | binary _ left right => 1 + max left.depth right.depth
  | signed _ operand => 1 + operand.depth
  | call _ argument => 1 + argument.depth

/-- The number of nodes of the tree. -/
def size : Expr → Nat
  | number _ => 1
  | binary _ left right => 1 + left.size + right.size
  | signed _ operand => 1 + operand.size
  | call _ argument => 1 + argument.size

end Expr

/-! ## Values -/

/-- The value of an infix operation. Only a division by zero, of either sign, has
    none. -/
def BinaryOp.apply (op : BinaryOp) (x y : Float) : Except ArithmeticFault Float :=
  match op with
  | add => .ok (x + y)
  | subtract => .ok (x - y)
  | multiply => .ok (x * y)
  | divide => if y == 0 then .error .divisionByZero else .ok (x / y)
  | power => .ok (x ^ y)

/-- The value of a signed number. -/
def Sign.apply (sign : Sign) (x : Float) : Float :=
  match sign with
  | plus => x
  | minus => -x

/-- The value of a function. The root of a negative number and the logarithm of
    a number that is not positive have none. -/
def Function.apply (f : Function) (x : Float) : Except ArithmeticFault Float :=
  match f with
  | sqrt => if x < 0 then .error (.negativeRoot x) else .ok x.sqrt
  | sin => .ok x.sin
  | cos => .ok x.cos
  | tan => .ok x.tan
  | log => if x ≤ 0 then .error (.nonPositiveLog x) else .ok x.log
  | exp => .ok x.exp

/-- The value of an expression: operands before their operation, the left one
    first, up to the first fault. -/
def Expr.evaluate : Expr → Except ArithmeticFault Float
  | number value => .ok value
  | binary op left right => do
    let x ← left.evaluate
    let y ← right.evaluate
    op.apply x y
  | signed sign operand => do
    let x ← operand.evaluate
    return sign.apply x
  | call f argument => do
    let x ← argument.evaluate
    f.apply x

end Reckon
