/-
  Reading by recursive descent.

  The same language, read by one production for each kind of phrase. The productions call
  each other, and all that they share is a parser, which they change as they go: the
  index of the token at the cursor, a copy of this token, and a counter of the depth. The
  counter is raised in five places and set back wherever the production that raised it
  ends, also where it ends with an error. The production for a factor makes a record before it
  does anything else, and a record that was made stays, however the call goes on.

  * `Parser` is that state, `Parser.advance` and `Parser.descend` are what changes it, and
    `Parser.leave` sets the counter back;
  * `Parser.entry` is the record of a factor that begins at the cursor, and `Outcome.behind`
    puts the records that were made before in front of those of an outcome;
  * `Parser.factor`, `Parser.power`, `Parser.operand`, `Parser.chain` and `Parser.links` are
    the productions; their first argument is how many of them may be inside each other, a turn
    of a loop counting as one, and there is no outcome if that is not enough;
  * `Parser.parse` is one call from outside, with as many as its tokens can take, and
    `Parser.parseWithin` is the same call with any other number of them;
  * `Parser.after` is the parser behind some calls, and `Parser.answer` what the next one
    returns.
-/
import Reckon.Log
import Reckon.Proofs.Pushdown

namespace Reckon

/-- The state of a recursive descent. -/
structure Parser where
  /-- The tokens, the last of which is an end. -/
  tokens : List Token
  /-- The index of the token at the cursor. -/
  position : Nat
  /-- A copy of the token at the cursor. -/
  current : Token
  /-- How many levels are open. -/
  depth : Nat
  /-- How many levels may be open, if there is a limit. -/
  limit : Option Nat

/-- What a production leaves: an expression or an error, and the parser behind it. -/
structure Outcome where
  result : Except SyntaxError Expr
  parser : Parser
  /-- The records that were made on the way, in order, each with the index of the token at the
      cursor. -/
  records : List (Nat × Record)

namespace Parser

/-- A parser at the front of some tokens. -/
def ofTokens (ts : List Token) (limit : Option Nat) : Parser :=
  let tokens := Reader.ended ts
  ⟨tokens, 0, tokens.headD (.finish 0), 0, limit⟩

/-- Goes on to the next token, but never behind the last one. -/
def advance (p : Parser) : Parser :=
  match p.tokens[p.position + 1]? with
  | some t => { p with position := p.position + 1, current := t }
  | none => p

/-- Raises the counter, and fails if it is above the limit then. -/
def descend (p : Parser) : Except SyntaxError Unit × Parser :=
  (Reader.checkDepth p.limit (p.depth + 1) p.current.span, { p with depth := p.depth + 1 })

/-- Takes a token of one class, and fails at any other. -/
def expect (expected : TokenKind) (p : Parser) : Except SyntaxError Unit × Parser :=
  if p.current.kind = expected then (.ok (), p.advance)
  else if p.current.isFinish then (.error ⟨.unexpectedEnd, p.current.span⟩, p)
  else (.error ⟨.expectedToken expected p.current.shown, p.current.span⟩, p)

/-- Sets the counter back to that of an outer parser. -/
def leave (outer p : Parser) : Parser := { p with depth := outer.depth }

/-- The record of a factor that begins at the cursor. -/
def entry (p : Parser) : Nat × Record := (p.position, .factor p.current.span p.current.kind)

end Parser

namespace Outcome

/-- The outcome behind some records that were made before. -/
def behind (rs : List (Nat × Record)) (o : Outcome) : Outcome :=
  { o with records := rs ++ o.records }

/-- The outcome, with the counter set back to that of an outer parser. -/
def leave (outer : Parser) (o : Outcome) : Outcome := { o with parser := outer.leave o.parser }

/-- The outcome of a production around this one. -/
def map (f : Expr → Expr) (o : Outcome) : Outcome := { o with result := o.result.map f }

/-- Closes the bracket of a group behind its expression. -/
def closeGroup (o : Outcome) : Outcome :=
  match o with
  | ⟨.error x, p, rs⟩ => ⟨.error x, p, rs⟩
  | ⟨.ok e, p, rs⟩ =>
    if p.current.kind = .rightParen then ⟨.ok e, p.advance, rs⟩
    else ⟨.error ⟨.mismatchedParen p.current.shown, p.current.span⟩, p, rs⟩

/-- Closes the bracket of a call behind its argument. -/
def closeCall (f : Function) (o : Outcome) : Outcome :=
  match o with
  | ⟨.error x, p, rs⟩ => ⟨.error x, p, rs⟩
  | ⟨.ok e, p, rs⟩ =>
    match p.expect .rightParen with
    | (.error x, q) => ⟨.error x, q, rs⟩
    | (.ok (), q) => ⟨.ok (.call f e), q, rs⟩

end Outcome

namespace Parser

mutual

/-- A sign and its factor, a number, a group, or a call, with a record of where it begins. -/
def factor (fuel : Nat) (p : Parser) : Option Outcome :=
  match fuel with
  | 0 => none
  | fuel + 1 =>
    Option.map (·.behind [p.entry]) <|
      match Sign.ofKind? p.current.kind with
      | some sign =>
        match p.descend with
        | (.error x, q) => some ⟨.error x, p.leave q, []⟩
        | (.ok (), q) => do
          let o ← factor fuel q.advance
          return (o.leave p).map (.signed sign)
      | none =>
        match p.current.kind with
        | .number => some ⟨.ok (.number p.current.value), p.advance, []⟩
        | .leftParen =>
          match p.descend with
          | (.error x, q) => some ⟨.error x, p.leave q, []⟩
          | (.ok (), q) => do
            let o ← chain .sum fuel q.advance
            return (o.leave p).closeGroup
        | .function f =>
          match p.advance.expect .leftParen with
          | (.error x, q) => some ⟨.error x, q, []⟩
          | (.ok (), q) =>
            match q.descend with
            | (.error x, r) => some ⟨.error x, q.leave r, []⟩
            | (.ok (), r) => do
              let o ← chain .sum fuel r
              return (o.leave q).closeCall f
        | .finish => some ⟨.error ⟨.unexpectedEnd, p.current.span⟩, p, []⟩
        | _ => some ⟨.error ⟨.invalidFactor p.current.shown, p.current.span⟩, p, []⟩

/-- A factor, and its exponent if there is one, which is a power again. -/
def power (fuel : Nat) (p : Parser) : Option Outcome :=
  match fuel with
  | 0 => none
  | fuel + 1 => do
    match ← factor fuel p with
    | ⟨.error x, q, rs⟩ => return ⟨.error x, q, rs⟩
    | ⟨.ok base, q, rs⟩ =>
      if q.current.kind = .caret then
        match q.descend with
        | (.error x, r) => return ⟨.error x, q.leave r, rs⟩
        | (.ok (), r) =>
          let o ← power fuel r.advance
          return ((o.leave q).map (.binary .power base)).behind rs
      else return ⟨.ok base, q, rs⟩

/-- An operand of a chain. -/
def operand (c : Chain) (fuel : Nat) (p : Parser) : Option Outcome :=
  match fuel with
  | 0 => none
  | fuel + 1 =>
    match c with
    | .sum => chain .product fuel p
    | .product => power fuel p

/-- The first operand of a chain, and then its links. They leave the counter raised. -/
def chain (c : Chain) (fuel : Nat) (p : Parser) : Option Outcome :=
  match fuel with
  | 0 => none
  | fuel + 1 => do
    match ← operand c fuel p with
    | ⟨.error x, q, rs⟩ => return ⟨.error x, p.leave q, rs⟩
    | ⟨.ok first, q, rs⟩ =>
      let o ← links c fuel first q
      return (o.leave p).behind rs

/-- The operators of a chain with their right operands, as long as there are any. -/
def links (c : Chain) (fuel : Nat) (left : Expr) (p : Parser) : Option Outcome :=
  match fuel with
  | 0 => none
  | fuel + 1 =>
    match BinaryOp.ofKind? p.current.kind with
    | none => some ⟨.ok left, p, []⟩
    | some op =>
      if op ∈ c.operators then
        match p.descend with
        | (.error x, q) => some ⟨.error x, q, []⟩
        | (.ok (), q) => do
          match ← operand c fuel q.advance with
          | ⟨.error x, r, rs⟩ => return ⟨.error x, r, rs⟩
          | ⟨.ok right, r, rs⟩ =>
            let o ← links c fuel (.binary op left right) r
            return o.behind rs
      else some ⟨.ok left, p, []⟩

end

/-- One call, with so many productions inside each other: a sum, and behind it the end. -/
def parseWithin (fuel : Nat) (p : Parser) : Option Outcome := do
  match ← p.chain .sum fuel with
  | ⟨.error x, q, rs⟩ => return ⟨.error x, q, rs⟩
  | ⟨.ok e, q, rs⟩ =>
    match q.current.kind with
    | .finish => return ⟨.ok e, q, rs⟩
    | .rightParen => return ⟨.error ⟨.mismatchedParen q.current.shown, q.current.span⟩, q, rs⟩
    | _ => return ⟨.error ⟨.trailingInput q.current.shown, q.current.span⟩, q, rs⟩

/-- As many productions as the tokens of a parser can take. Before each token there are at most
    six inside each other. -/
def height (p : Parser) : Nat := 6 * p.tokens.length

/-- One call. -/
def parse (p : Parser) : Option Outcome := p.parseWithin p.height

/-- The parser behind `k` calls. -/
def after (p : Parser) : Nat → Option Parser
  | 0 => some p
  | k + 1 => (p.after k).bind fun q => q.parse.map (·.parser)

/-- What a call returns that follows `k` others, on a parser of some tokens. -/
def answer (ts : List Token) (limit : Option Nat) (k : Nat) : Option (Except SyntaxError Expr) :=
  ((ofTokens ts limit).after k).bind fun q => q.parse.map (·.result)

end Parser

end Reckon
