/-
  Quoted texts, as records of the log show them.

  Every character outside printable ASCII is written by its escape, so a quoted
  text is one line of ASCII whatever blanks it holds.

  * `escape` writes one character, `quote` a text between quotation marks.
-/
namespace Reckon.Text

/-- The hexadecimal digits of a number, in lower case and without padding. -/
def hexDigits (n : Nat) : String := String.ofList (Nat.toDigits 16 n)

/-- One character of a quoted text: a quotation mark and a backslash get a
    backslash, three control characters their letter, printable ASCII stands for
    itself, and all else is written by its code point. -/
def escape (c : Char) : String :=
  match c with
  | '"' => "\\\""
  | '\\' => "\\\\"
  | '\t' => "\\t"
  | '\n' => "\\n"
  | '\r' => "\\r"
  | '\x00' => "\\0"
  | c =>
    if 0x20 ≤ c.toNat && c.toNat < 0x7F then c.toString
    else "\\u\x7b" ++ hexDigits c.toNat ++ "\x7d"

/-- A text between quotation marks, with its escapes. -/
def quote (s : String) : String := "\"" ++ String.join (s.toList.map escape) ++ "\""

end Reckon.Text
