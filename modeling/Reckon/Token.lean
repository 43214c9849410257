/-
  Tokens: the pieces into which the scanner cuts a text.

  * `TokenKind` is the class of a token, with its description for the user and
    its tag for documents and records;
  * `Token` is a piece of text with its class, its place and, for a number, its
    value;
  * `BinaryOp.ofKind?` and `Sign.ofKind?` say what a token does between and
    before operands.
-/
import Reckon.Operator
import Reckon.Span

namespace Reckon

/-- The classes of tokens. -/
inductive TokenKind where
  | number
  | plus
  | minus
  | star
  | slash
  | caret
  | leftParen
  | rightParen
  | function (f : Function)
  /-- The end of the input. -/
  | finish
  /-- A piece of text outside the language. -/
  | invalid
deriving DecidableEq, Repr

namespace TokenKind

/-- All classes of tokens. -/
def all : List TokenKind :=
  [number, plus, minus, star, slash, caret, leftParen, rightParen] ++ Function.all.map function ++
    [finish, invalid]

/-- What the user is told was expected. -/
def describe : TokenKind → String
  | number => "number"
  | plus => "'+'"
  | minus => "'-'"
  | star => "'*'"
  | slash => "'/'"
  | caret => "'^'"
  | leftParen => "'('"
  | rightParen => "')'"
  | function f => f.name
  | finish => "end of input"
  | invalid => "invalid token"

/-- How documents and records call the class. -/
def tag : TokenKind → String
  | number => "Number"
  | plus => "Plus"
  | minus => "Minus"
  | star => "Multiply"
  | slash => "Divide"
  | caret => "Power"
  | leftParen => "LeftParen"
  | rightParen => "RightParen"
  | function f => f.tag
  | finish => "End"
  | invalid => "Invalid"

/-- The class of a tag. -/
def ofTag? (tag : String) : Option TokenKind := all.find? (·.tag == tag)

@[simp] theorem ofTag?_tag (kind : TokenKind) : ofTag? kind.tag = some kind := by
  cases kind with
  | function f => cases f <;> rfl
  | _ => rfl

/-- The function that the token names, if it names one. -/
def function? : TokenKind → Option Function
  | function f => some f
  | _ => none

end TokenKind

/-- The infix operator that a token is between two operands. -/
def BinaryOp.ofKind? : TokenKind → Option BinaryOp
  | .plus => some .add
  | .minus => some .subtract
  | .star => some .multiply
  | .slash => some .divide
  | .caret => some .power
  | _ => none

/-- The sign that a token is before a factor. -/
def Sign.ofKind? : TokenKind → Option Sign
  | .plus => some .plus
  | .minus => some .minus
  | _ => none

/-- A piece of text with its class and place. -/
structure Token where
  kind : TokenKind
  text : String
  span : Span
  /-- The value of a number; zero for all other classes. -/
  value : Float := 0
deriving DecidableEq, Repr

namespace Token

/-- The token that ends an input of `n` characters. -/
def finish (n : Nat) : Token := ⟨.finish, "", .point n, 0⟩

/-- Whether the token ends the input. -/
def isFinish (t : Token) : Bool := t.kind == .finish

/-- How a message shows the token: by its text, or as `EOF` at the end. -/
def shown (t : Token) : String := if t.isFinish then "EOF" else t.text

end Token

end Reckon
