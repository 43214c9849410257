/-
  The log: what a calculator and a session record of their work.

  * `Record` is one entry, with its level, its source and its message;
  * `Calculator.parseLog` and `Calculator.evaluateLog` are the entries of reading
    and of evaluating a text: the tokens, each place where a factor began, the
    expression and the value, as far as the work got;
  * `Session.log` are those of a session, which reads no text that it remembers.
-/
import Reckon.Session
import Reckon.Text.Quoted

namespace Reckon

/-- An entry of the log. -/
inductive Record where
  /-- A text was cut into so many tokens. -/
  | scanned (count : Nat)
  /-- The tokens of this text were counted. -/
  | tokenized (text : String) (count : Nat)
  /-- A factor was begun at a token of this class and place. -/
  | factor (place : Span) (kind : TokenKind)
  /-- The expression of a text was read. -/
  | parsed (text : String) (tree : Expr)
  /-- The value of a text was found. -/
  | evaluated (text : String) (value : Float)
  /-- A text was remembered. -/
  | remembered (text : String)

namespace Record

/-- How much the entry matters. -/
def level : Record → String
  | scanned _ | factor .. => "TRACE"
  | _ => "DEBUG"

/-- The part of the program that makes the entry. -/
def source : Record → String
  | scanned _ => "exprcalc_core::parser::lexer"
  | factor .. => "exprcalc_core::parser::parser"
  | remembered _ => "exprcalc::session"
  | _ => "exprcalc_core::calculator"

/-- The entry in writing. -/
def message : Record → String
  | scanned count => s!"tokenized {count} tokens"
  | tokenized text count => s!"lexed {Text.quote text} into {count} tokens"
  | factor place kind => s!"factor at {place.render} ({kind.tag})"
  | parsed text tree => s!"parsed {Text.quote text} as {tree.render}"
  | evaluated text value => s!"evaluated {Text.quote text} to {Number.plain value}"
  | remembered text => s!"cache hit for {Text.quote text}"

end Record

/-- The entry of a factor that begins in front of these tokens. -/
def Reader.factorRecord (stop : Span) : List Token → Record
  | [] => .factor stop .finish
  | t :: _ => .factor t.span t.kind

namespace Calculator

/-- The entries of reading a text. -/
def parseLog (c : Calculator) (text : String) : List Record :=
  match tokenize text with
  | .error _ => []
  | .ok tokens =>
    let reader := Reader.ofTokens tokens c.limit
    let reading := reader.read
    let tree := match reading.result with
      | .ok tree => [.parsed text tree]
      | .error _ => []
    [.scanned tokens.length, .tokenized text tokens.length] ++
      reading.begun.map (Reader.factorRecord reader.stop) ++ tree

/-- The entries of evaluating a text. -/
def evaluateLog (c : Calculator) (text : String) : List Record :=
  c.parseLog text ++ match c.evaluate text with
    | .ok value => [.evaluated text value]
    | .error _ => []

end Calculator

/-- The entries of evaluating a text in a session. -/
def Session.log (s : Session) (text : String) : List Record :=
  match s.lookup? text with
  | some _ => [.remembered text]
  | none => s.calculator.parseLog text

end Reckon
