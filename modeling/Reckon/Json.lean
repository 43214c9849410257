/-
  JSON documents.

  * `Json` is a document. Numbers are kept as written, since what reads them
    decides what they are worth. A text whose escapes name half of a surrogate
    pair has no characters, and is kept as `none`;
  * `Json.marks` is a document as a row of marks: brackets, separators and
    scalars;
  * `Json.compact` and `Json.pretty` write a document without any space, and
    with one line for each item.
-/
namespace Reckon

/-- A JSON document. -/
inductive Json where
  | null
  | bool (value : Bool)
  /-- A number, by its text. -/
  | number (text : List Char)
  /-- A text, if its escapes name one. -/
  | string (text : Option (List Char))
  | array (items : List Json)
  /-- Named fields, in order and as often as they are written. -/
  | object (fields : List (Option (List Char) × Json))

namespace Json

/-- A lexical unit of JSON. -/
inductive Mark where
  | openArray
  | closeArray
  | openObject
  | closeObject
  | comma
  | colon
  | null
  | bool (value : Bool)
  | number (text : List Char)
  | string (text : Option (List Char))
deriving DecidableEq, Repr

/-! ## Writing -/

/-- A hexadecimal digit, in lower case. -/
def hexDigit (n : Nat) : Char := Nat.digitChar (n % 16)

/-- A code unit as an escape. -/
def unitEscape (n : Nat) : List Char :=
  ['\\', 'u', hexDigit (n / 4096), hexDigit (n / 256), hexDigit (n / 16), hexDigit n]

/-- A character inside a text: quotation marks, backslashes and control
    characters are escaped, all others stand for themselves. -/
def escape (c : Char) : List Char :=
  match c with
  | '"' => ['\\', '"']
  | '\\' => ['\\', '\\']
  | '\x08' => ['\\', 'b']
  | '\t' => ['\\', 't']
  | '\n' => ['\\', 'n']
  | '\x0c' => ['\\', 'f']
  | '\r' => ['\\', 'r']
  | c => if c.toNat < 0x20 then unitEscape c.toNat else [c]

/-- A text between quotation marks; one without characters is written as half of
    a surrogate pair. -/
def quoted (text : Option (List Char)) : List Char :=
  '"' :: (match text with
    | some cs => cs.flatMap escape
    | none => unitEscape 0xD800) ++ ['"']

/-- A mark in writing. -/
def Mark.chars : Mark → List Char
  | openArray => ['[']
  | closeArray => [']']
  | openObject => ['\x7b']
  | closeObject => ['\x7d']
  | comma => [',']
  | colon => [':']
  | null => "null".toList
  | bool true => "true".toList
  | bool false => "false".toList
  | number text => text
  | string text => quoted text

mutual

/-- The marks of a document, and what stands behind them. -/
def marksThen (rest : List Mark) : Json → List Mark
  | null => .null :: rest
  | bool value => .bool value :: rest
  | number text => .number text :: rest
  | string text => .string text :: rest
  | array items => .openArray :: itemMarksThen (.closeArray :: rest) items
  | object fields => .openObject :: fieldMarksThen (.closeObject :: rest) fields

/-- The marks of items, with commas between them, and what stands behind them. -/
def itemMarksThen (rest : List Mark) : List Json → List Mark
  | [] => rest
  | [item] => item.marksThen rest
  | item :: next :: more => item.marksThen (.comma :: itemMarksThen rest (next :: more))

/-- The marks of fields, with commas between them, and what stands behind them. -/
def fieldMarksThen (rest : List Mark) : List (Option (List Char) × Json) → List Mark
  | [] => rest
  | [(name, value)] => .string name :: .colon :: value.marksThen rest
  | (name, value) :: next :: more =>
    .string name :: .colon :: value.marksThen (.comma :: fieldMarksThen rest (next :: more))

end

/-- The marks of a document. -/
def marks (j : Json) : List Mark := j.marksThen []

/-- The document without any space. -/
def compact (j : Json) : String := String.ofList (j.marks.flatMap Mark.chars)

/-- A new line, indented by two spaces for each bracket around it. -/
def newLine (indent : Nat) : List Char := '\n' :: List.replicate (2 * indent) ' '

mutual

/-- A document with one line for each item or field, inside so many brackets,
    and what stands behind it. -/
def prettyThen (indent : Nat) (rest : List Char) : Json → List Char
  | array (item :: more) =>
    '[' :: prettyItemsThen (indent + 1) (newLine indent ++ ']' :: rest) (item :: more)
  | object (field :: more) =>
    '\x7b' :: prettyFieldsThen (indent + 1) (newLine indent ++ '\x7d' :: rest) (field :: more)
  | array [] => '[' :: ']' :: rest
  | object [] => '\x7b' :: '\x7d' :: rest
  | null => Mark.null.chars ++ rest
  | bool value => (Mark.bool value).chars ++ rest
  | number text => text ++ rest
  | string text => quoted text ++ rest

/-- Items, each on its line, and what stands behind them. -/
def prettyItemsThen (indent : Nat) (rest : List Char) : List Json → List Char
  | [] => rest
  | [item] => newLine indent ++ prettyThen indent rest item
  | item :: next :: more =>
    newLine indent ++ prettyThen indent (',' :: prettyItemsThen indent rest (next :: more)) item

/-- Fields, each on its line, and what stands behind them. -/
def prettyFieldsThen (indent : Nat) (rest : List Char) :
    List (Option (List Char) × Json) → List Char
  | [] => rest
  | [(name, value)] => newLine indent ++ quoted name ++ ':' :: ' ' :: prettyThen indent rest value
  | (name, value) :: next :: more =>
    newLine indent ++ quoted name ++ ':' :: ' ' ::
      prettyThen indent (',' :: prettyFieldsThen indent rest (next :: more)) value

end

/-- The document with one line for each item or field. -/
def pretty (j : Json) : String := String.ofList (j.prettyThen 0 [])

end Json

end Reckon
