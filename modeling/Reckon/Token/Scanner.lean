/-
  The scanner: cutting a text into tokens, from left to right.

  * `Scanner.next` is the next token, or the error of a malformed number, and the
    scanner behind it; it may be asked again after an error, and keeps answering
    with the end once it is there;
  * `Scanner.tokens` is the whole text in tokens, the last of which is the end;
    a piece outside the language is an error;
  * `tokenize` does so for a string.
-/
import Reckon.Failure
import Reckon.Text.Blank
import Reckon.Token.Lexeme

namespace Reckon

/-- A place in a text: how many characters lie behind it, and what is left. -/
structure Scanner where
  position : Nat
  rest : List Char

namespace Scanner

/-- The scanner at the front of a text. -/
def ofString (s : String) : Scanner := ⟨0, s.toList⟩

/-- The token of a lexeme that starts at an offset, or the error that it is, and
    the scanner behind it. The error of a second point shows that point, but
    leaves it to be read again. -/
def ofLexeme (start : Nat) : Lexeme → Except SyntaxError Token × Scanner
  | .piece kind text rest =>
    let value := if kind = .number then Number.read text else 0
    (.ok ⟨kind, String.ofList text, ⟨start, start + text.length⟩, value⟩,
      ⟨start + text.length, rest⟩)
  | .lonePoint rest =>
    (.error ⟨.malformedNumber ".", ⟨start, start + 1⟩⟩, ⟨start + 1, rest⟩)
  | .secondPoint read rest =>
    (.error ⟨.malformedNumber (String.ofList (read ++ ['.'])), ⟨start, start + read.length + 1⟩⟩,
      ⟨start + read.length, rest⟩)

/-- The next token or error, and the scanner behind it. -/
def next (s : Scanner) : Except SyntaxError Token × Scanner :=
  let start := s.position + (s.rest.takeWhile Text.isBlank).length
  match s.rest.dropWhile Text.isBlank with
  | [] => (.ok (.finish start), ⟨start, []⟩)
  | c :: cs => ofLexeme start (.first c cs)

@[simp] theorem ofLexeme_rest (start : Nat) (l : Lexeme) : (ofLexeme start l).2.rest = l.rest := by
  cases l <;> rfl

/-- **Each token before the end takes at least one character.** -/
theorem next_rest_lt {s s' : Scanner} {t : Token} (h : s.next = (.ok t, s'))
    (ht : t.kind ≠ .finish) : s'.rest.length < s.rest.length := by
  have hle := Lexeme.length_dropWhile_le Text.isBlank s.rest
  unfold next at h
  dsimp only at h
  split at h
  · cases h
    exact absurd rfl ht
  · next c cs hc =>
    have hrest := congrArg (fun p => p.2.rest) h
    simp only [ofLexeme_rest] at hrest
    have := Lexeme.rest_lt c cs
    rw [hc] at hle
    rw [← hrest]
    omega

/-- The tokens of the text from here on, up to the end and with it. -/
def tokens (s : Scanner) : Except SyntaxError (List Token) :=
  match h : s.next with
  | (.error e, _) => .error e
  | (.ok t, s') =>
    if t.kind = .invalid then .error ⟨.unknownCharacter t.text, t.span⟩
    else if ht : t.kind = .finish then .ok [t]
    else
      have := next_rest_lt h ht
      s'.tokens.map (t :: ·)
termination_by s.rest.length

end Scanner

/-- The tokens of a text, the last of which is its end, or the first piece that
    is none of the language. -/
def tokenize (s : String) : Except SyntaxError (List Token) := (Scanner.ofString s).tokens

end Reckon
