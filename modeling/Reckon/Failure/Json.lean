/-
  Failures as JSON documents.

  A failure is a variant, tagged by its cause, with what it tells and its place
  as its record.

  * `Failure.tag` is how documents call the cause;
  * `Failure.toJson` writes a failure, `Failure.ofJson?` and `Failure.readJson?`
    read it.
-/
import Reckon.Failure
import Reckon.Json.Read
import Reckon.Json.Record

namespace Reckon

/-! ## Writing -/

/-- A span as a document. -/
def Span.toJson (s : Span) : Json := .ofRecord [("start", .ofNat s.start), ("end", .ofNat s.stop)]

/-- How documents call the problem. -/
def SyntaxProblem.tag : SyntaxProblem → String
  | malformedNumber _ => "InvalidNumberFormat"
  | unknownCharacter _ => "UnknownCharacter"
  | expectedToken .. => "ExpectedToken"
  | mismatchedParen _ => "MissingParen"
  | invalidFactor _ => "InvalidFactor"
  | trailingInput _ => "TrailingInput"
  | unexpectedEnd => "UnexpectedEnd"
  | nestingTooDeep _ => "NestingTooDeep"

/-- What the problem tells, by fields. -/
def SyntaxProblem.fields : SyntaxProblem → List (String × Json)
  | malformedNumber text | unknownCharacter text => [("text", .ofText text)]
  | expectedToken expected found => [("expected", .ofText expected.tag), ("found", .ofText found)]
  | mismatchedParen found | invalidFactor found | trailingInput found => [("found", .ofText found)]
  | unexpectedEnd => []
  | nestingTooDeep limit => [("limit", .ofNat limit)]

/-- How documents call the fault. -/
def ArithmeticFault.tag : ArithmeticFault → String
  | divisionByZero => "DivisionByZero"
  | negativeRoot _ => "NegativeSqrt"
  | nonPositiveLog _ => "NonPositiveLog"

/-- A fault as a document. -/
def ArithmeticFault.toJson (f : ArithmeticFault) : Json :=
  match f with
  | divisionByZero => .ofText f.tag
  | negativeRoot value | nonPositiveLog value =>
    .ofVariant f.tag (.ofRecord [("value", .ofFloat value)])

/-- How documents call the cause of a failure. -/
def Failure.tag : Failure → String
  | unreadable e => e.problem.tag
  | faulty f => f.tag

/-- A failure as a document. -/
def Failure.toJson : Failure → Json
  | unreadable e =>
    .ofVariant e.problem.tag (.ofRecord (e.problem.fields ++ [("span", e.span.toJson)]))
  | faulty f => f.toJson

/-! ## Reading -/

/-- The span that a document writes. -/
def Span.ofJson? (j : Json) : Option Span := do
  match ← j.fields? ["start", "end"] with
  | [start, stop] => return ⟨← start.natural?, ← stop.natural?⟩
  | _ => none

/-- The names of what a problem of this tag tells. -/
def SyntaxProblem.fieldNames? : String → Option (List String)
  | "InvalidNumberFormat" | "UnknownCharacter" => some ["text"]
  | "ExpectedToken" => some ["expected", "found"]
  | "MissingParen" | "InvalidFactor" | "TrailingInput" => some ["found"]
  | "UnexpectedEnd" => some []
  | "NestingTooDeep" => some ["limit"]
  | _ => none

/-- The problem of a tag that tells this. -/
def SyntaxProblem.ofContents? (tag : String) (contents : List Json) : Option SyntaxProblem :=
  match tag, contents with
  | "InvalidNumberFormat", [text] => text.text?.map malformedNumber
  | "UnknownCharacter", [text] => text.text?.map unknownCharacter
  | "ExpectedToken", [expected, found] => do
    let expected ← (expected.tag? 1).bind TokenKind.ofTag?
    let found ← found.text?
    return expectedToken expected found
  | "MissingParen", [found] => found.text?.map mismatchedParen
  | "InvalidFactor", [found] => found.text?.map invalidFactor
  | "TrailingInput", [found] => found.text?.map trailingInput
  | "UnexpectedEnd", [] => some unexpectedEnd
  | "NestingTooDeep", [limit] => limit.natural?.map nestingTooDeep
  | _, _ => none

/-- The syntax error that a variant writes. -/
def SyntaxError.ofVariant? (tag : String) (content : Json) : Option SyntaxError := do
  let names ← SyntaxProblem.fieldNames? tag
  let contents ← content.fields? (names ++ ["span"])
  let problem ← SyntaxProblem.ofContents? tag (contents.take names.length)
  let span ← contents[names.length]?
  return ⟨problem, ← Span.ofJson? span⟩

/-- The fault that a variant with content writes. -/
def ArithmeticFault.ofVariant? (tag : String) (content : Json) : Option ArithmeticFault :=
  match tag, content.fields? ["value"] with
  | "NegativeSqrt", some [value] => value.double?.map negativeRoot
  | "NonPositiveLog", some [value] => value.double?.map nonPositiveLog
  | _, _ => none

/-- The failure that a document writes. -/
def Failure.ofJson? (j : Json) : Option Failure :=
  match j.tag? Json.nesting with
  | some "DivisionByZero" => some (faulty .divisionByZero)
  | _ => do
    let (tag, content) ← j.variant?
    match SyntaxError.ofVariant? tag content with
    | some e => return unreadable e
    | none => return faulty (← ArithmeticFault.ofVariant? tag content)

/-- The failure that a text writes as a document. -/
def Failure.readJson? (text : String) : Option Failure := (Json.read? text).bind ofJson?

end Reckon
