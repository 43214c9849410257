/-
  Reading an expression from tokens.

  The language, loosest first: a sum is a chain of products, a product a chain
  of powers, and both chains group to the left; a power is a factor, or a factor
  `^` a power; a factor is a signed factor, a number, a bracketed sum, or the name
  of a function and its bracketed argument.

  The reader goes through the tokens once, from left to right, and keeps what is
  still open on a stack: signs, left operands with their operators, and brackets.
  A token first closes whatever binds tighter than it does, and then opens
  something of its own.

  Everything open counts towards the depth: one for a sign, a bracket and an
  exponent, and one for each operator of a chain to the left. A limit on the depth
  is checked whenever it grows, at the token that makes it grow; the argument
  of a function is checked at its first token.

  * `State.step` is what one token does, `State.finish` what the end does;
  * `State.run` goes through the tokens; the `Reading` that it leaves holds the
    expression or the error, the tokens from the error on, and the places where
    a factor began;
  * `Reader` is a list of tokens with a limit, and `Reader.read` reads one
    expression from it, so that it can be asked again.
-/
import Reckon.Expr

namespace Reckon

/-- An open bracket. -/
inductive Bracket where
  | group
  | call (f : Function)
deriving DecidableEq, Repr

/-- The factor that a bracket is when it closes around an expression. -/
def Bracket.close (b : Bracket) (e : Expr) : Expr :=
  match b with
  | group => e
  | call f => .call f e

namespace Reader

/-- Something open to the left of the cursor. -/
inductive Opening where
  /-- A sign that waits for its factor. -/
  | sign (sign : Sign)
  /-- A left operand and an operator that waits for its right operand. -/
  | operand (left : Expr) (op : BinaryOp)
  | bracket (b : Bracket)
deriving DecidableEq, Repr

/-- Something open, and the depth with it. -/
structure Frame where
  opening : Opening
  depth : Nat
deriving DecidableEq, Repr

/-- The depth of a stack, whose first frame is the innermost one. -/
def depth : List Frame → Nat
  | [] => 0
  | frame :: _ => frame.depth

/-- What may stand at the cursor. -/
inductive Mode where
  /-- A factor must begin here. -/
  | factor
  /-- The argument of a function must begin here, and its depth is yet to be
      checked. -/
  | argument
  /-- The name of a function was read, and its bracket must open here. -/
  | name (f : Function)
  /-- An operand is complete. -/
  | complete (e : Expr)
deriving DecidableEq, Repr

/-- The state of reading between two tokens. -/
structure State where
  mode : Mode
  stack : List Frame
deriving DecidableEq, Repr

/-- The state before the first token. -/
def State.initial : State := ⟨.factor, []⟩

/-- Fails at a place if a depth is not within the limit. -/
def checkDepth (limit : Option Nat) (depth : Nat) (place : Span) : Except SyntaxError Unit :=
  match limit with
  | none => .ok ()
  | some most => if depth ≤ most then .ok () else .error ⟨.nestingTooDeep most, place⟩

/-- Opens something one deeper than `outer`. -/
def openAt (limit : Option Nat) (place : Span) (outer : Nat) (opening : Opening)
    (stack : List Frame) : Except SyntaxError (List Frame) :=
  match checkDepth limit (outer + 1) place with
  | .ok () => .ok (⟨opening, outer + 1⟩ :: stack)
  | .error e => .error e

/-- Closes around an operand whatever binds tighter than the precedence `p`:
    signs always do. -/
def closeTighter (p : Nat) (e : Expr) : List Frame → Expr × List Frame
  | ⟨.sign sign, _⟩ :: stack => closeTighter p (.signed sign e) stack
  | ⟨.operand left op, d⟩ :: stack =>
    if p < op.precedence then closeTighter p (.binary op left e) stack
    else (e, ⟨.operand left op, d⟩ :: stack)
  | stack => (e, stack)

/-- Closes the last link of the chain that an operator goes on, if it groups to
    the left: the operand, the frames below the chain, and the depth of the
    chain so far. -/
def closeLink (op : BinaryOp) (e : Expr) : List Frame → Expr × List Frame × Nat
  | ⟨.operand left op', d⟩ :: stack =>
    if op.groupsLeft && op'.precedence == op.precedence then (.binary op' left e, stack, d)
    else (e, ⟨.operand left op', d⟩ :: stack, d)
  | stack => (e, stack, depth stack)

namespace State

/-- Whether a factor must begin at the cursor. -/
def wantsFactor (s : State) : Bool :=
  match s.mode with
  | .factor | .argument => true
  | _ => false

/-- The check of the depth that is still due at the cursor. -/
def enter (limit : Option Nat) (place : Span) (s : State) : Except SyntaxError Unit :=
  match s.mode with
  | .argument => checkDepth limit (depth s.stack) place
  | _ => .ok ()

/-- What a token does where a factor must begin. -/
def beginFactor (limit : Option Nat) (t : Token) (stack : List Frame) : Except SyntaxError State :=
  match t.kind with
  | .number => .ok ⟨.complete (.number t.value), stack⟩
  | .leftParen => (openAt limit t.span (depth stack) (.bracket .group) stack).map (⟨.factor, ·⟩)
  | .function f => .ok ⟨.name f, stack⟩
  | kind => match Sign.ofKind? kind with
    | some sign => (openAt limit t.span (depth stack) (.sign sign) stack).map (⟨.factor, ·⟩)
    | none => .error ⟨.invalidFactor t.shown, t.span⟩

/-- What a token does behind a complete operand. -/
def continueAfter (limit : Option Nat) (t : Token) (e : Expr) (stack : List Frame) :
    Except SyntaxError State :=
  match BinaryOp.ofKind? t.kind with
  | some op =>
    let (e, stack) := closeTighter op.precedence e stack
    let (e, stack, outer) := closeLink op e stack
    (openAt limit t.span outer (.operand e op) stack).map (⟨.factor, ·⟩)
  | none =>
    match t.kind, closeTighter 0 e stack with
    | .rightParen, (e, ⟨.bracket b, _⟩ :: stack) => .ok ⟨.complete (b.close e), stack⟩
    | .rightParen, _ => .error ⟨.mismatchedParen t.shown, t.span⟩
    | _, (_, []) => .error ⟨.trailingInput t.shown, t.span⟩
    | _, (_, ⟨.bracket (.call _), _⟩ :: _) => .error ⟨.expectedToken .rightParen t.shown, t.span⟩
    | _, _ => .error ⟨.mismatchedParen t.shown, t.span⟩

/-- What one token does. -/
def step (limit : Option Nat) (t : Token) (s : State) : Except SyntaxError State :=
  match s.mode with
  | .factor | .argument => beginFactor limit t s.stack
  | .name f =>
    if t.kind = .leftParen then .ok ⟨.argument, ⟨.bracket (.call f), depth s.stack + 1⟩ :: s.stack⟩
    else .error ⟨.expectedToken .leftParen t.shown, t.span⟩
  | .complete e => continueAfter limit t e s.stack

/-- What the end of the input does. Only the outermost sum may end there, and the
    message for an open group shows the end as `EOF`. -/
def finish (place : Span) (s : State) : Except SyntaxError Expr :=
  match s.mode with
  | .complete e =>
    match closeTighter 0 e s.stack with
    | (e, []) => .ok e
    | (_, ⟨.bracket (.call _), _⟩ :: _) => .error ⟨.unexpectedEnd, place⟩
    | _ => .error ⟨.mismatchedParen "EOF", place⟩
  | _ => .error ⟨.unexpectedEnd, place⟩

end State

end Reader

/-- What reading an expression leaves. -/
structure Reading where
  result : Except SyntaxError Expr
  /-- The tokens from the cursor on: none where an expression was read. -/
  rest : List Token
  /-- What lay ahead wherever a factor was begun, in order. -/
  begun : List (List Token)

namespace Reader

/-- Where the input goes on: at its next token, or at its end. -/
def place (stop : Span) : List Token → Span
  | [] => stop
  | t :: _ => t.span

/-- Goes through the tokens of an input that ends at `stop`. -/
def State.run (limit : Option Nat) (stop : Span) (s : State) (input : List Token) : Reading :=
  match s.enter limit (place stop input) with
  | .error e => ⟨.error e, input, []⟩
  | .ok () =>
    let here := if s.wantsFactor then [input] else []
    match input with
    | [] => ⟨s.finish stop, [], here⟩
    | t :: ts =>
      match s.step limit t with
      | .error e => ⟨.error e, t :: ts, here⟩
      | .ok s' =>
        let reading := s'.run limit stop ts
        ⟨reading.result, reading.rest, here ++ reading.begun⟩
termination_by structural input

end Reader

/-- Tokens to read expressions from. -/
structure Reader where
  /-- The tokens before the end. -/
  tokens : List Token
  /-- The place of the end. -/
  stop : Span
  /-- How deep an expression may be, if there is a limit. -/
  limit : Option Nat

namespace Reader

/-- The place where a list of tokens ends: at its first end token, or else behind
    its last token. -/
def stopOf (ts : List Token) : Span :=
  match ts.find? Token.isFinish, ts.getLast? with
  | some t, _ => t.span
  | none, some t => .point t.span.stop
  | none, none => .point 0

/-- A reader of the tokens up to the first end among them. -/
def ofTokens (ts : List Token) (limit : Option Nat) : Reader :=
  ⟨ts.takeWhile fun t => !t.isFinish, stopOf ts, limit⟩

/-- Reads one expression, up to the end. -/
def read (r : Reader) : Reading := State.initial.run r.limit r.stop r.tokens

/-- The reader after reading: an error leaves it where it was found. -/
def advance (r : Reader) : Reader := { r with tokens := r.read.rest }

end Reader

end Reckon
