/-
  The operators of arithmetic expressions: infix operators, signs and functions.

  Each has a symbol or name, which is how it is written in an expression, and a
  tag, which is how documents and records call it.

  * `BinaryOp.precedence` orders the infix operators; `^` binds tightest;
  * `Function.ofName?` finds a function by its name, minding the case.
-/
namespace Reckon

/-- The infix operators. -/
inductive BinaryOp where
  | add
  | subtract
  | multiply
  | divide
  | power
deriving DecidableEq, Repr

namespace BinaryOp

/-- All infix operators. -/
def all : List BinaryOp := [add, subtract, multiply, divide, power]

/-- How the operator is written between its operands. -/
def symbol : BinaryOp → String
  | add => "+"
  | subtract => "-"
  | multiply => "*"
  | divide => "/"
  | power => "^"

/-- How a document calls the operator. -/
def tag : BinaryOp → String
  | add => "Add"
  | subtract => "Subtract"
  | multiply => "Multiply"
  | divide => "Divide"
  | power => "Power"

/-- How tightly the operator binds: sums least, powers most. -/
def precedence : BinaryOp → Nat
  | add | subtract => 1
  | multiply | divide => 2
  | power => 3

/-- Whether a chain of operators of this precedence groups to the left. -/
def groupsLeft : BinaryOp → Bool
  | power => false
  | _ => true

/-- The operator of a tag. -/
def ofTag? (tag : String) : Option BinaryOp := all.find? (·.tag == tag)

@[simp] theorem ofTag?_tag (op : BinaryOp) : ofTag? op.tag = some op := by cases op <;> rfl

theorem precedence_pos (op : BinaryOp) : 0 < op.precedence := by cases op <;> decide

end BinaryOp

/-- The signs that may stand before a factor. -/
inductive Sign where
  | plus
  | minus
deriving DecidableEq, Repr

namespace Sign

/-- Both signs. -/
def all : List Sign := [plus, minus]

/-- How the sign is written. -/
def symbol : Sign → String
  | plus => "+"
  | minus => "-"

/-- How a document calls the sign. -/
def tag : Sign → String
  | plus => "Plus"
  | minus => "Minus"

/-- The sign of a tag. -/
def ofTag? (tag : String) : Option Sign := all.find? (·.tag == tag)

@[simp] theorem ofTag?_tag (sign : Sign) : ofTag? sign.tag = some sign := by cases sign <;> rfl

end Sign

/-- The functions, each of one argument. -/
inductive Function where
  | sqrt
  | sin
  | cos
  | tan
  /-- The natural logarithm. -/
  | log
  | exp
deriving DecidableEq, Repr

namespace Function

/-- All functions, in the order in which they are listed to the user. -/
def all : List Function := [sqrt, sin, cos, tan, log, exp]

/-- How the function is written in an expression. -/
def name : Function → String
  | sqrt => "sqrt"
  | sin => "sin"
  | cos => "cos"
  | tan => "tan"
  | log => "log"
  | exp => "exp"

/-- How documents and records call the function. -/
def tag : Function → String
  | sqrt => "Sqrt"
  | sin => "Sin"
  | cos => "Cos"
  | tan => "Tan"
  | log => "Log"
  | exp => "Exp"

/-- The function of a name; capital letters make another name. -/
def ofName? (name : String) : Option Function := all.find? (·.name == name)

/-- The function of a tag. -/
def ofTag? (tag : String) : Option Function := all.find? (·.tag == tag)

@[simp] theorem ofName?_name (f : Function) : ofName? f.name = some f := by cases f <;> rfl

@[simp] theorem ofTag?_tag (f : Function) : ofTag? f.tag = some f := by cases f <;> rfl

end Function

end Reckon
