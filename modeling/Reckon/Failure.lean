/-
  Why an expression has no value.

  Either the text is no expression, and the error says where, or the expression
  has no value because one of its operations has none, and the fault says which.

  * `SyntaxError` is a problem with its place; every problem has one;
  * `ArithmeticFault` is an operation without value, with its operand;
  * `Failure` is one or the other, with its message and its marker line.
-/
import Reckon.Number
import Reckon.Token

namespace Reckon

/-- What is wrong with a text that is no expression. -/
inductive SyntaxProblem where
  /-- A number with a second point, or a point without digits. -/
  | malformedNumber (text : String)
  /-- A character or word outside the language. -/
  | unknownCharacter (text : String)
  /-- One token where only another one may stand. -/
  | expectedToken (expected : TokenKind) (found : String)
  /-- A group that is not closed here, or a closing bracket without group. -/
  | mismatchedParen (found : String)
  /-- A token with which no factor begins. -/
  | invalidFactor (found : String)
  /-- A token behind a complete expression. -/
  | trailingInput (found : String)
  /-- The end of the input where more must follow. -/
  | unexpectedEnd
  /-- More nesting than allowed. -/
  | nestingTooDeep (limit : Nat)
deriving DecidableEq, Repr

/-- What the user is told about a problem. -/
def SyntaxProblem.message : SyntaxProblem → String
  | malformedNumber text => s!"Invalid number format: '{text}'"
  | unknownCharacter text => s!"Unknown character: '{text}'"
  | expectedToken expected found => s!"Expected {expected.describe}, found '{found}'"
  | mismatchedParen found => s!"Mismatched parentheses: found '{found}'"
  | invalidFactor found => s!"Invalid factor: '{found}' cannot start an expression"
  | trailingInput found => s!"Unexpected trailing input: '{found}'"
  | unexpectedEnd => "Unexpected end of input"
  | nestingTooDeep limit => s!"Maximum nesting depth of {limit} exceeded"

/-- A problem and its place. -/
structure SyntaxError where
  problem : SyntaxProblem
  span : Span
deriving DecidableEq, Repr

/-- The error moved to the right by `k` characters. -/
def SyntaxError.shift (k : Nat) (e : SyntaxError) : SyntaxError := ⟨e.problem, e.span.shift k⟩

/-- An operation without value. -/
inductive ArithmeticFault where
  | divisionByZero
  | negativeRoot (value : Float)
  | nonPositiveLog (value : Float)
deriving DecidableEq, Repr

/-- What the user is told about a fault. -/
def ArithmeticFault.message : ArithmeticFault → String
  | divisionByZero => "Division by zero"
  | negativeRoot value => "Square root of negative number: " ++ Number.plain value
  | nonPositiveLog value => "Logarithm of non-positive number: " ++ Number.plain value

/-- Why an expression has no value. -/
inductive Failure where
  /-- The text is no expression. -/
  | unreadable (e : SyntaxError)
  /-- An operation has no value. -/
  | faulty (f : ArithmeticFault)
deriving DecidableEq, Repr

namespace Failure

/-- What the user is told. -/
def message : Failure → String
  | unreadable e => e.problem.message
  | faulty f => f.message

/-- The place of the failure in the text; a fault has none. -/
def span? : Failure → Option Span
  | unreadable e => some e.span
  | faulty _ => none

/-- Whether the text is no expression. -/
def isSyntactic : Failure → Bool
  | unreadable _ => true
  | faulty _ => false

/-- The line that marks the place under the text. -/
def marker? (f : Failure) : Option String := f.span?.map Span.marker

@[simp] theorem isSome_span? (f : Failure) : f.span?.isSome = f.isSyntactic := by
  cases f <;> rfl

end Failure

end Reckon
